import Script.Proofs.Calls.Termination
import Script.Proofs.Diagnostics

/-!
# Where the functions of a session were written

A function that one source declares can be called by the sources that are run later, and what goes
wrong in it is then told under the name of the source that called it, with a place in the source
that it was written in.  So a diagnostic names the source that was run, but it may point into an
earlier one, and it does so only if that source has written a function that is still at hand
(`Session.History.diagnostic_provenance`).
-/

namespace Script

/-- The whole tree stands in the source. -/
def Node.WrittenIn (source : String) (m : Node) : Prop := m.Everywhere (Stands source.toList)

/-- The whole tree stands in one of the sources. -/
def Node.WrittenInOne (sources : List String) (m : Node) : Prop := ∃ s ∈ sources, m.WrittenIn s

/-- All that the functions in the store do is written in the sources. -/
def Store.WrittenIn (sources : List String) (store : Store) : Prop :=
  ∀ n x v f t, (store.bindings n).lookup x = some v → v.Encloses f t →
    f.Granted (Node.WrittenInOne sources)

theorem Node.WrittenInOne.child {sources : List String} {m k : Node} (h : m.WrittenInOne sources)
    (hk : k ∈ m.children) : k.WrittenInOne sources := by
  obtain ⟨s, hs, hm⟩ := h
  exact ⟨s, hs, hm.child hk⟩

theorem Program.writtenIn_of_ofSource {file source : String} {program : Program}
    (h : ofSource file source = .ok program) :
    ∀ t ∈ program.body, (Node.ofStmt t).WrittenIn source :=
  fun _ ht => ((row_nodes h).lies _ (List.mem_map_of_mem ht)).stands

/-- The functions in a value that matches another are among those that match. -/
theorem Value.Match.closure_of_encloses {m : Matching} {v w : Value} {f : Function} {s : Scope}
    (h : v.Match m w) (hinside : v.Encloses f s) : ∃ g t, m.closure f s g t := by
  induction hinside generalizing w with
  | function =>
    cases h with
    | function _ _ here => exact ⟨_, _, here⟩
  | @array _ v _ mem _ ih =>
    cases h with
    | @array _ _ _ ws _ length inside =>
      obtain ⟨n, hn, rfl⟩ := List.mem_iff_getElem.mp mem
      refine ih (inside _ (ws.get ⟨n, length ▸ hn⟩) ?_)
      exact List.mem_iff_getElem.mpr ⟨n, by simp [← length, hn], by simp⟩
  | @object _ p _ mem _ ih =>
    cases h with
    | @object _ _ _ qs _ keys inside =>
      have length := by simpa using congrArg List.length keys
      obtain ⟨n, hn, rfl⟩ := List.mem_iff_getElem.mp mem
      refine ih (inside _ (qs.get ⟨n, length ▸ hn⟩) ?_)
      exact List.mem_iff_getElem.mpr ⟨n, by simp [← length, hn], by simp⟩

namespace Session

/-- Sources that have been run one after another in a session, the last one first, each with its
name, whatever came of them. -/
inductive History (first : Session) : List (String × String) → Session → Prop
  | start : History first [] first
  | run {earlier : List (String × String)} {session session' : Session} {steps : Nat}
      {file source : String} {outcome : Except Diagnostic Value}
      (before : History first earlier session)
      (step : session.run steps file source = some (outcome, session')) :
      History first ((file, source) :: earlier) session'

/-- A statement of a function that can be reached from the global scope is written in the source. -/
def Knows (session : Session) (source : String) : Prop :=
  ∃ s x v f t, session.state.store.Reaches (· = session.scope) s ∧
    (session.state.store.bindings s.frame).lookup x = some v ∧ v.Encloses f t ∧
    ∃ stmt ∈ f.body, (Node.ofStmt stmt).WrittenIn source

variable {first session session' : Session} {earlier : List (String × String)} {steps : Nat}
  {file source : String} {sources : List String} {outcome : Except Diagnostic Value}
  {d : Diagnostic}

/-! ## Functions -/

/-- A source that is run leaves functions of its own, and those of the sources before. -/
theorem writtenIn_run (hstore : session.state.store.WrittenIn sources)
    (h : session.run steps file source = some (outcome, session')) :
    session'.state.store.WrittenIn (source :: sources) := by
  have hold : ∀ m : Node, m.WrittenInOne sources → m.WrittenInOne (source :: sources) := by
    rintro m ⟨s, hs, hm⟩
    exact ⟨s, List.mem_cons_of_mem _ hs, hm⟩
  cases hprogram : Program.ofSource file source with
  | error d =>
    rw [run, hprogram] at h
    cases h
    intro n x v f t hv hinside stmt hstmt
    exact hold _ (hstore n x v f t hv hinside stmt hstmt)
  | ok program =>
    rw [run_eq_evaluate hprogram] at h
    obtain ⟨out, state, hrun, hr⟩ := evaluate_eq_some_iff.mp h
    cases hr
    -- The region is the whole store.
    have hsealed : session.state.store.Sealed
        (Function.Granted (Node.WrittenInOne (source :: sources))) session.state.store
        fun _ => True := by
      refine ⟨Nat.le_refl _, fun _ _ _ => rfl, fun n _ x v hv => ?_⟩
      refine v.match_self (fun _ => rfl) (fun _ => trivial) fun f t hinside => ?_
      have hgranted := fun stmt hstmt => hold _ (hstore n x v f t hv hinside stmt hstmt)
      exact ⟨⟨rfl, hgranted⟩, rfl, fun _ _ => trivial⟩
    have hbody : ∀ t ∈ program.body, (Node.ofStmt t).WrittenInOne (source :: sources) :=
      fun t ht => ⟨source, List.mem_cons_self, Program.writtenIn_of_ofSource hprogram t ht⟩
    have hraises : ∀ (m : Node) (e : RuntimeError), m.WrittenInOne (source :: sources) →
        m.Raises e → True := fun _ _ _ _ => trivial
    obtain ⟨-, region, hregion, hsealed'⟩ := Task.granted_of_run
      (fun _ _ => Node.WrittenInOne.child) hraises hbody (fun _ _ => trivial) hsealed hrun
    intro n x v f t hv hinside
    obtain ⟨g, u, ⟨-, hgranted⟩, -⟩ :=
      (hsealed'.inside n (hregion n trivial) x v hv).closure_of_encloses hinside
    exact hgranted

/-- **Every function in a session is written in the sources that were run.** -/
theorem History.writtenIn (hfirst : first.state.store.WrittenIn [])
    (h : first.History earlier session) :
    session.state.store.WrittenIn (earlier.map Prod.snd) := by
  induction h with
  | start => exact hfirst
  | run _ step ih => exact writtenIn_run ih step

theorem writtenIn_start (callLimit : Nat) (output : Output) :
    (start callLimit output).state.store.WrittenIn [] := by
  intro n x v f t hv hinside
  have hsize : (start callLimit output).state.store.frames.size = 1 := by
    simp only [start, bare, withBuiltins, defineNative, define, freshIdentity, State.onStore,
      State.freshIdentity, State.initial, Store.newRoot, Store.size_declare]
    rfl
  have hn : n < 1 := hsize ▸ Store.lt_size_of_owns (Option.isSome_iff_exists.mpr ⟨v, hv⟩)
  obtain rfl : n = 0 := by omega
  exact absurd hinside (not_encloses_of_start hv)

/-! ## Diagnostics -/

/-- A failure of the evaluation points into the source, or into one that wrote a function that is at
hand. -/
theorem pointsInto_of_knows {program : Program} {e : RuntimeError} {state : State}
    (hstore : session.state.store.WrittenIn sources)
    (hprogram : Program.ofSource file source = .ok program)
    (hrun : (Task.program program.body session.scope).run session.callLimit steps session.state =
      some (.error e, state)) :
    ∃ s, (s = source ∨ s ∈ sources ∧ session.Knows s) ∧ (Fault.runtime e).PointsInto s := by
  let grant (m : Node) : Prop :=
    ∃ s, (s = source ∨ s ∈ sources ∧ session.Knows s) ∧ m.WrittenIn s
  have hchildren : ∀ m k : Node, grant m → k ∈ m.children → grant k := by
    rintro m k ⟨s, hs, hm⟩ hk
    exact ⟨s, hs, hm.child hk⟩
  have hraises : ∀ (m : Node) e, grant m → m.Raises e →
      ∃ s, (s = source ∨ s ∈ sources ∧ session.Knows s) ∧ (Fault.runtime e).PointsInto s := by
    rintro m e ⟨s, hs, hm⟩ he
    exact ⟨s, hs, he.pointsInto hm.here⟩
  have hbody : ∀ t ∈ program.body, grant (.ofStmt t) :=
    fun t ht => ⟨source, .inl rfl, Program.writtenIn_of_ofSource hprogram t ht⟩
  refine Task.fault_of_run hchildren hraises hbody ?_ hrun
  intro s x v f t hs hv hinside stmt hstmt
  obtain ⟨u, hu, hwritten⟩ := hstore s.frame x v f t hv hinside stmt hstmt
  exact ⟨u, .inr ⟨hu, s, x, v, f, t, hs, hv, hinside, stmt, hstmt, hwritten⟩, hwritten⟩

/-- **What a diagnostic of a session is about.**  Sources have been run in a session without
functions at first.  When the next one fails, the diagnostic has the name of that one.  It points
into this source if it is not a program, or if no function of an earlier one can be reached from the
global scope; and in any case into this or an earlier source with such a function. -/
theorem History.diagnostic_provenance (hfirst : first.state.store.WrittenIn [])
    (h : first.History earlier session)
    (hrun : session.run steps file source = some (.error d, session')) :
    d.file = file ∧
    ((∀ e, d.fault ≠ .runtime e) → d.fault.PointsInto source) ∧
    ∃ s, (s = source ∨ s ∈ earlier.map Prod.snd ∧ session.Knows s) ∧ d.fault.PointsInto s := by
  cases hprogram : Program.ofSource file source with
  | error d' =>
    rw [Session.run, hprogram] at hrun
    cases hrun
    have hpoints : d.file = file ∧ d.fault.PointsInto source := by
      rcases Program.ofSource_eq_error_iff.mp hprogram with
        ⟨e, hscan, rfl⟩ | ⟨lexemes, e, hscan, hparse, rfl⟩
      · exact ⟨rfl, Lexeme.pointsInto_of_scan hscan⟩
      · exact ⟨rfl, Program.pointsInto_of_parse hscan hparse⟩
    exact ⟨hpoints.1, fun _ => hpoints.2, source, .inl rfl, hpoints.2⟩
  | ok program =>
    rw [run_eq_evaluate hprogram] at hrun
    obtain ⟨out, state, htask, hr⟩ := evaluate_eq_some_iff.mp hrun
    cases out with
    | ok v => cases hr
    | error e =>
      cases hr
      have hpoints := pointsInto_of_knows (h.writtenIn hfirst) hprogram htask
      exact ⟨rfl, fun hruntime => absurd rfl (hruntime e), hpoints⟩

/-! ## A function that fails in a later source -/

theorem scan_declaration : Lexeme.scan "function f(){x}" = .ok
    [⟨.keyword .functionWord, ⟨⟨0, 0, 0⟩, ⟨8, 0, 8⟩⟩⟩, ⟨.identifier "f", ⟨⟨9, 0, 9⟩, ⟨10, 0, 10⟩⟩⟩,
     ⟨.symbol .leftParen, ⟨⟨10, 0, 10⟩, ⟨11, 0, 11⟩⟩⟩,
     ⟨.symbol .rightParen, ⟨⟨11, 0, 11⟩, ⟨12, 0, 12⟩⟩⟩,
     ⟨.symbol .leftBrace, ⟨⟨12, 0, 12⟩, ⟨13, 0, 13⟩⟩⟩,
     ⟨.identifier "x", ⟨⟨13, 0, 13⟩, ⟨14, 0, 14⟩⟩⟩,
     ⟨.symbol .rightBrace, ⟨⟨14, 0, 14⟩, ⟨15, 0, 15⟩⟩⟩,
     ⟨.endOfFile, ⟨⟨15, 0, 15⟩, ⟨15, 0, 15⟩⟩⟩] := by
  have hsource : "function f(){x}".toList =
      ['f', 'u', 'n', 'c', 't', 'i', 'o', 'n', ' ', 'f', '(', ')', '{', 'x', '}'] := rfl
  have hfunction : Lexeme.munch 'f'
      ['u', 'n', 'c', 't', 'i', 'o', 'n', ' ', 'f', '(', ')', '{', 'x', '}'] =
      .ok ⟨.keyword .functionWord, ['f', 'u', 'n', 'c', 't', 'i', 'o', 'n'],
        [' ', 'f', '(', ')', '{', 'x', '}']⟩ := rfl
  have hname : Lexeme.munch 'f' ['(', ')', '{', 'x', '}'] =
      .ok ⟨.identifier "f", ['f'], ['(', ')', '{', 'x', '}']⟩ := rfl
  have hleft : Lexeme.munch '(' [')', '{', 'x', '}'] =
      .ok ⟨.symbol .leftParen, ['('], [')', '{', 'x', '}']⟩ := rfl
  have hright : Lexeme.munch ')' ['{', 'x', '}'] =
      .ok ⟨.symbol .rightParen, [')'], ['{', 'x', '}']⟩ := rfl
  have hopen : Lexeme.munch '{' ['x', '}'] = .ok ⟨.symbol .leftBrace, ['{'], ['x', '}']⟩ := rfl
  have hx : Lexeme.munch 'x' ['}'] = .ok ⟨.identifier "x", ['x'], ['}']⟩ := rfl
  have hclose : Lexeme.munch '}' [] = .ok ⟨.symbol .rightBrace, ['}'], []⟩ := rfl
  rw [Lexeme.scan, hsource, Lexeme.scanFrom_munch rfl hfunction, Lexeme.scanFrom_space rfl,
    Lexeme.scanFrom_munch rfl hname, Lexeme.scanFrom_munch rfl hleft,
    Lexeme.scanFrom_munch rfl hright, Lexeme.scanFrom_munch rfl hopen,
    Lexeme.scanFrom_munch rfl hx, Lexeme.scanFrom_munch rfl hclose, Lexeme.scanFrom]
  rfl

theorem scan_application : Lexeme.scan "f()" = .ok
    [⟨.identifier "f", ⟨⟨0, 0, 0⟩, ⟨1, 0, 1⟩⟩⟩, ⟨.symbol .leftParen, ⟨⟨1, 0, 1⟩, ⟨2, 0, 2⟩⟩⟩,
     ⟨.symbol .rightParen, ⟨⟨2, 0, 2⟩, ⟨3, 0, 3⟩⟩⟩, ⟨.endOfFile, ⟨⟨3, 0, 3⟩, ⟨3, 0, 3⟩⟩⟩] := by
  have hsource : "f()".toList = ['f', '(', ')'] := rfl
  have hname : Lexeme.munch 'f' ['(', ')'] = .ok ⟨.identifier "f", ['f'], ['(', ')']⟩ := rfl
  have hleft : Lexeme.munch '(' [')'] = .ok ⟨.symbol .leftParen, ['('], [')']⟩ := rfl
  have hright : Lexeme.munch ')' [] = .ok ⟨.symbol .rightParen, [')'], []⟩ := rfl
  rw [Lexeme.scan, hsource, Lexeme.scanFrom_munch rfl hname, Lexeme.scanFrom_munch rfl hleft,
    Lexeme.scanFrom_munch rfl hright, Lexeme.scanFrom]
  rfl

/-- The two sources of a session, and what comes of them. -/
theorem run_declaration_application :
    ∃ v session₁ session₂,
      (start 1 .unbounded).run 20 "first" "function f(){x}" = some (.ok v, session₁) ∧
      session₁.run 20 "second" "f()" = some (.error ⟨"second",
        .runtime (.unknownVariable "x" ⟨⟨13, 0, 13⟩, ⟨14, 0, 14⟩⟩)⟩, session₂) := by
  have hprogram₁ : Program.ofSource "first" "function f(){x}" = .ok _ :=
    Program.ofSource_eq_ok_iff.mpr ⟨_, scan_declaration, rfl⟩
  have hprogram₂ : Program.ofSource "second" "f()" = .ok _ :=
    Program.ofSource_eq_ok_iff.mpr ⟨_, scan_application, rfl⟩
  exact ⟨_, _, _, (run_eq_evaluate hprogram₁).trans rfl, (run_eq_evaluate hprogram₂).trans rfl⟩

theorem not_within_application :
    ¬ (⟨⟨13, 0, 13⟩, ⟨14, 0, 14⟩⟩ : Span).Within "f()".toList := by
  rintro ⟨l, r, -, hr, hspan⟩
  have hindex : 14 = r := congrArg (fun span : Span => span.right.index) hspan
  have hlength : "f()".toList.length = 3 := rfl
  omega

/-- The function that fails was written in the first source, which is the one that the diagnostic
points into. -/
theorem History.diagnostic_provenance_application :
    ∃ session d session',
      (Session.start 1 .unbounded).History [("first", "function f(){x}")] session ∧
      session.run 20 "second" "f()" = some (.error d, session') ∧
      d.file = "second" ∧ session.Knows "function f(){x}" ∧
      d.fault.PointsInto "function f(){x}" := by
  obtain ⟨v, session, session', hfirst, hsecond⟩ := run_declaration_application
  have hhistory := History.run .start hfirst
  obtain ⟨hfile, -, s, hs, hpoints⟩ :=
    diagnostic_provenance (writtenIn_start 1 .unbounded) hhistory hsecond
  refine ⟨session, _, session', hhistory, hsecond, hfile, ?_⟩
  rcases hs with rfl | ⟨hs, hknows⟩
  · exact absurd hpoints.within not_within_application
  · obtain rfl := List.mem_singleton.mp hs
    exact ⟨hknows, hpoints⟩

/-- **A diagnostic may name a source that it does not point into**: the file is that of the source
which was run, and the span is not a stretch of it. -/
theorem diagnostic_outside_application :
    ∃ session d session',
      (Session.start 1 .unbounded).History [("first", "function f(){x}")] session ∧
      session.run 20 "second" "f()" = some (.error d, session') ∧
      d.file = "second" ∧ ¬ d.span.Within "f()".toList := by
  obtain ⟨v, session, session', hfirst, hsecond⟩ := run_declaration_application
  exact ⟨session, _, session', .run .start hfirst, hsecond, rfl, not_within_application⟩

end Session

end Script
