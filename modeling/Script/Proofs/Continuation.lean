import Script.Proofs.Lockstep.Moved
import Script.Proofs.Parser.Joined
import Script.Proofs.Scopes.Isolation

/-!
# A session is one script

A source that is run after another one goes on where that one stopped, as if both were a single
script with a semicolon between them.  Three facts are put together: the two sources are read as the
statements of the first and, at other places, those of the second (`Program.ofSource_joined`); a
sequence of statements goes on with its second part where the first part stopped
(`Task.run_program_append`); and evaluation does not look at places (`Task.run_moved`).
-/

namespace Script

/-! ## Statements behind one another -/

/-- Behind statements that went well a sequence goes on with the value and the state that they
left. -/
theorem Eval.answer_sequence_append
    {reply : Task → State → Option (Except RuntimeError Value × State)} {scope : Scope}
    {first : List Stmt} {last v : Value} {s s₁ : State}
    (h : (sequence scope last first s).answer reply = some (.ok v, s₁)) (second : List Stmt) :
    (sequence scope last (first ++ second) s).answer reply =
      (sequence scope v second s₁).answer reply := by
  induction first generalizing last s with
  | nil =>
    cases h
    rfl
  | cons t first ih =>
    obtain ⟨value, s', hstmt, hmore⟩ := Action.answer_bind_ok h
    show ((stmt scope t s).bind _).answer reply = _
    rw [Routine.answer_bind, hstmt]
    exact ih hmore

/-- **A program goes on where its first part stopped.**  If the first part goes well, both parts
together come to what the second one comes to. -/
theorem Task.run_program_append {limit steps : Nat} {first second : List Stmt} {scope : Scope}
    {s s₁ : State} {v : Value}
    (h : Task.run limit steps (.program first scope) s = some (.ok v, s₁))
    (hsecond : second ≠ []) (r : Except RuntimeError Value × State) :
    (∃ k, Task.run limit k (.program (first ++ second) scope) s = some r) ↔
      ∃ k, Task.run limit k (.program second scope) s₁ = some r := by
  obtain ⟨depth, hfirst⟩ := Routine.perform_eq_some_iff.mp ⟨steps, h⟩
  -- The value before a sequence does not matter unless the sequence is empty.
  have hlast : Eval.sequence scope v second = Eval.sequence scope .undefined second := by
    cases second with
    | nil => exact absurd rfl hsecond
    | cons t second => rfl
  -- Beyond the depth of the first part, the whole and its second part are answered alike.
  have hsame : ∀ more, Routine.resolve (Eval.body limit) (depth + more + 1)
      (.program (first ++ second) scope) s =
        Routine.resolve (Eval.body limit) (depth + more + 1) (.program second scope) s₁ := by
    intro more
    have hdeeper := Routine.resolve_succ (Routine.resolve_mono hfirst more)
    exact (Eval.answer_sequence_append hdeeper second).trans (by rw [hlast]; rfl)
  have hmono : ∀ {t : Task} {s : State} {n : Nat},
      Routine.resolve (Eval.body limit) n t s = some r →
        Routine.resolve (Eval.body limit) (depth + n + 1) t s = some r := by
    intro t s n hn
    have hdeeper := Routine.resolve_mono hn (depth + 1)
    rwa [show n + (depth + 1) = depth + n + 1 from by omega] at hdeeper
  refine Routine.perform_eq_some_iff.trans (Iff.trans ?_ Routine.perform_eq_some_iff.symm)
  constructor
  · rintro ⟨n, hn⟩
    exact ⟨depth + n + 1, hsame n ▸ hmono hn⟩
  · rintro ⟨n, hn⟩
    exact ⟨depth + n + 1, (hsame n).trans (hmono hn)⟩

/-! ## Sessions -/

/-- Values that look alike, or failures of one kind with one message, wherever they point. -/
inductive SameResult : Except Diagnostic Value → Except Diagnostic Value → Prop
  | ok {v v' : Value} (h : v.LooksLike v') : SameResult (.ok v) (.ok v')
  | error {d d' : Diagnostic} {e e' : RuntimeError} (left : d.fault = .runtime e)
      (right : d'.fault = .runtime e') (kind : e.bare = e'.bare)
      (message : d.fault.message = d'.fault.message) : SameResult (.error d) (.error d')

namespace Session

/-- Two runs came to the same: the same result, the same output in all, and the same names in every
frame of the scope, and of all others, with values that look alike. -/
structure SameEnd (r r' : Except Diagnostic Value × Session) : Prop where
  result : SameResult r.1 r'.1
  output : r.2.state.output = r'.2.state.output
  depth : r.2.state.depth = r'.2.state.depth
  scope : r.2.scope = r'.2.scope
  bindings : ∀ n, List.Forall₂ (fun x y => x.1 = y.1 ∧ x.2.LooksLike y.2)
    (r.2.state.store.bindings n) (r'.2.state.store.bindings n)

/-- Runs that end alike up to places come to the same. -/
theorem sameEnd_of_final {session : Session} {limit depth : Nat} {out out' : Task.Result}
    {state state' : State} (file file' : String)
    (h : (Likeness.moved limit).Final () depth (out, state) (out', state')) :
    SameEnd (out.mapError fun e => ⟨file, .runtime e⟩, { session with state })
      (out'.mapError fun e => ⟨file', .runtime e⟩, { session with state := state' }) := by
  obtain ⟨_, -, hout, hat⟩ := h
  refine ⟨?_, hat.state.output, hat.left.trans hat.right.symm, rfl, fun n => ?_⟩
  · cases hout with
    | ok hv => exact .ok (Value.Match.looksLike hv)
    | @error e e' he =>
      have hmessage : e.message = e'.message := by
        rw [← e.message_bare, ← e'.message_bare]
        exact congrArg RuntimeError.message he
      exact .error rfl rfl he hmessage
  · exact (hat.state.store.bindings n).imp fun x y hxy => ⟨hxy.1, hxy.2.looksLike⟩

/-- **A session is one script.**  If the first source leaves no comment open and goes well, and the
second one has at least one statement, then the second one, run in the session that the first one
left, comes to the same as both run at once with a line between them that holds a semicolon: either
both runs end, and end alike, or neither does. -/
theorem run_continues {session session₁ : Session} {steps : Nat} {first second : String}
    {file₁ file₂ : String} {v : Value} {program : Program}
    (hclosed : ¬ Lexeme.LeavesOpen first)
    (hfirst : session.run steps file₁ first = some (.ok v, session₁))
    (hsecond : Program.ofSource file₂ second = .ok program) (hbody : program.body ≠ [])
    (file : String) :
    (∀ k r, session₁.run k file₂ second = some r → ∃ k' r',
      session.run k' file (first ++ "\n;\n" ++ second) = some r' ∧ SameEnd r r') ∧
    ∀ k' r', session.run k' file (first ++ "\n;\n" ++ second) = some r' → ∃ k r,
      session₁.run k file₂ second = some r ∧ SameEnd r r' := by
  obtain ⟨program₁, s₁, hprogram₁, hrun₁, rfl⟩ := of_run_ok hfirst
  obtain ⟨g, joined, hjoined, hstmts⟩ :=
    Program.ofSource_joined hclosed hprogram₁ hsecond file
  have hmore : movedStmts g program.body ≠ [] := fun h => hbody (movedStmts_eq_nil.mp h)
  have happend := Task.run_program_append hrun₁ hmore
  rw [← hstmts] at happend
  have hmoved := fun k => exists_of_rel
    (Task.run_moved session.callLimit k g program.body session.scope s₁)
  constructor
  · intro k r hr
    rw [run_eq_evaluate hsecond] at hr
    obtain ⟨out, state, hrun, rfl⟩ := evaluate_eq_some_iff.mp hr
    obtain ⟨⟨out', state'⟩, hrun', hfinal⟩ := (hmoved k).1 _ hrun
    obtain ⟨k', hjoinedRun⟩ := (happend _).mpr ⟨k, hrun'⟩
    refine ⟨k', _, ?_, sameEnd_of_final file₂ file hfinal⟩
    rw [run_eq_evaluate hjoined]
    exact evaluate_eq_some_iff.mpr ⟨out', state', hjoinedRun, rfl⟩
  · intro k' r' hr'
    rw [run_eq_evaluate hjoined] at hr'
    obtain ⟨out', state', hjoinedRun, rfl⟩ := evaluate_eq_some_iff.mp hr'
    obtain ⟨k, hrun'⟩ := (happend _).mp ⟨k', hjoinedRun⟩
    obtain ⟨⟨out, state⟩, hrun, hfinal⟩ := (hmoved k).2 _ hrun'
    refine ⟨k, _, ?_, sameEnd_of_final file₂ file hfinal⟩
    rw [run_eq_evaluate hsecond]
    exact evaluate_eq_some_iff.mpr ⟨out, state, hrun, rfl⟩

/-- The first source ends in a line comment, which the line feed behind it closes.  The second one
fails in both runs. -/
theorem run_continues_comment :
    let d : Diagnostic := ⟨"second", .runtime (.unknownVariable "b" ⟨⟨0, 0, 0⟩, ⟨1, 0, 1⟩⟩)⟩
    ∃ session₁ session₂ program, ¬ Lexeme.LeavesOpen "let a //" ∧
      (start 1 .unbounded).run 10 "first" "let a //" = some (.ok .undefined, session₁) ∧
      Program.ofSource "second" "b" = .ok program ∧ program.body ≠ [] ∧
      session₁.run 10 "second" "b" = some (.error d, session₂) ∧ ∃ k' r',
        (start 1 .unbounded).run k' "both" ("let a //" ++ "\n;\n" ++ "b") = some r' ∧
        SameEnd (.error d, session₂) r' := by
  intro d
  have hclosed : ¬ Lexeme.LeavesOpen "let a //" := Lexeme.not_leavesOpen_of_notMem (by decide)
  have hsource : "let a //".toList = ['l', 'e', 't', ' ', 'a', ' ', '/', '/'] := rfl
  have hlet : Lexeme.munch 'l' ['e', 't', ' ', 'a', ' ', '/', '/'] =
      .ok ⟨.keyword .letWord, ['l', 'e', 't'], [' ', 'a', ' ', '/', '/']⟩ := rfl
  have ha : Lexeme.munch 'a' [' ', '/', '/'] = .ok ⟨.identifier "a", ['a'], [' ', '/', '/']⟩ := rfl
  have hcomment : Lexeme.munch '/' ['/'] = .ok ⟨.comment "", ['/', '/'], []⟩ := rfl
  have hscan : Lexeme.scan "let a //" = .ok [⟨.keyword .letWord, ⟨⟨0, 0, 0⟩, ⟨3, 0, 3⟩⟩⟩,
      ⟨.identifier "a", ⟨⟨4, 0, 4⟩, ⟨5, 0, 5⟩⟩⟩, ⟨.comment "", ⟨⟨6, 0, 6⟩, ⟨8, 0, 8⟩⟩⟩,
      ⟨.endOfFile, ⟨⟨8, 0, 8⟩, ⟨8, 0, 8⟩⟩⟩] := by
    rw [Lexeme.scan, hsource, Lexeme.scanFrom_munch rfl hlet, Lexeme.scanFrom_space rfl,
      Lexeme.scanFrom_munch rfl ha, Lexeme.scanFrom_space rfl, Lexeme.scanFrom_munch rfl hcomment,
      Lexeme.scanFrom]
    rfl
  have hprogram : Program.ofSource "first" "let a //" = .ok _ :=
    Program.ofSource_eq_ok_iff.mpr ⟨_, hscan, rfl⟩
  have hfirst : (start 1 .unbounded).run 10 "first" "let a //" = some (.ok .undefined, _) :=
    (run_eq_evaluate hprogram).trans rfl
  have hb : Lexeme.Spells (.identifier "b") ['b'] := .identifier rfl (List.forall_mem_nil _) rfl
  have hsecond : Program.ofSource "second" "b" = .ok _ :=
    Program.ofSource_eq_ok_iff.mpr ⟨_, Lexeme.scan_of_spells hb, rfl⟩
  have hends : ∀ session₁, (start 1 .unbounded).run 10 "first" "let a //" =
      some (.ok .undefined, session₁) →
        ∃ session₂, session₁.run 10 "second" "b" = some (.error d, session₂) := by
    intro session₁ h
    cases hfirst.symm.trans h
    exact ⟨_, (run_eq_evaluate hsecond).trans rfl⟩
  obtain ⟨session₂, hrun⟩ := hends _ hfirst
  exact ⟨_, session₂, _, hclosed, hfirst, hsecond, List.cons_ne_nil _ _, hrun,
    (run_continues hclosed hfirst hsecond (List.cons_ne_nil _ _) "both").1 10 _ hrun⟩

end Session

end Script
