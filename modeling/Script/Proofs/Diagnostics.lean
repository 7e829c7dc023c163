import Script.Proofs.Faults
import Script.Proofs.Parser.Failure
import Script.Proofs.Parser.Places

/-!
# Diagnostics point into the source

Whatever is wrong with a source that runs in a new global scope, the diagnostic points at a stretch
of this source.  A scanner stops at characters of the source, an error of the parser is at one of
the lexemes, and the failures of an evaluation are at nodes of the tree.
-/

namespace Script

/-- The span runs from one character offset of the source to the same or a later one. -/
def Span.Within (source : List Char) (span : Span) : Prop :=
  ∃ l r, l ≤ r ∧ r ≤ source.length ∧ span = .between source l r

theorem Span.Lies.within {source : List Char} {a b : Nat} {span : Span}
    (h : span.Lies source a b) : span.Within source :=
  ⟨_, _, Nat.le_of_lt h.nonempty, h.inside, h.place⟩

/-- What the source has where a fault points: the character that no token starts with, the lexeme
that the grammar does not allow, the name that is not known, or an assignment to it. -/
def Fault.Shown (source : String) : Fault → Prop
  | .lex (.unexpectedCharacter c span) => span.slice source.toList = [c]
  | .lex (.unterminatedString _ _) => True
  | .parse e => ∃ lexemes, Lexeme.scan source = .ok lexemes ∧ ∃ x ∈ lexemes, x.span = e.span
  | .runtime (.unknownVariable name span) => span.slice source.toList = name.toList
  | .runtime (.assignmentToUndeclared name span) => name.toList <+: span.slice source.toList
  | .runtime _ => True

/-- The fault points to a stretch of the source, and what it is about is there. -/
structure Fault.PointsInto (source : String) (fault : Fault) : Prop where
  within : fault.span.Within source.toList
  shown : fault.Shown source

/-! ## Scanning -/

namespace Lexeme

variable {source : String} {before cs : List Char} {c : Char}

theorem pointsInto_unexpected (h : source.toList = before ++ c :: cs) :
    (Fault.lex (.unexpectedCharacter c
      (.between source.toList before.length (before.length + 1)))).PointsInto source where
  within := by
    refine ⟨before.length, before.length + 1, Nat.le_succ _, ?_, rfl⟩
    rw [h, List.length_append, List.length_cons]
    omega
  shown := by
    show (source.toList.drop before.length).take (before.length + 1 - before.length) = [c]
    rw [h, List.drop_left, Nat.add_sub_cancel_left]
    rfl

theorem pointsInto_unterminated (h : source.toList = before ++ cs) :
    (Fault.lex (.unterminatedString c
      (.between source.toList before.length source.toList.length))).PointsInto source where
  within := by
    refine ⟨before.length, source.toList.length, ?_, Nat.le_refl _, rfl⟩
    rw [h, List.length_append]
    exact Nat.le_add_right _ _
  shown := trivial

/-- The scanner stops at characters of the source.  By induction on what is left of it, with all
that came before as a variable. -/
theorem pointsInto_of_scanFrom {p : Position} {seen : List Lexeme} {e : LexError}
    (h : scanFrom p seen cs = .error e) (hsource : source.toList = before ++ cs)
    (hp : p = Position.start.past before) : (Fault.lex e).PointsInto source := by
  induction hn : cs.length using Nat.strongRecOn generalizing p seen before cs with
  | ind n ih =>
    cases cs with
    | nil =>
      rw [scanFrom] at h
      cases h
    | cons c cs =>
      have hleft : p = .ofOffset source.toList before.length :=
        hp.trans (Position.past_start_eq_ofOffset hsource)
      have hsplit : source.toList = (before ++ [c]) ++ cs := by
        rw [hsource, List.append_assoc, List.singleton_append]
      have hnext : p.advance c = Position.start.past (before ++ [c]) := by
        rw [hp, Position.past_append]
        rfl
      cases hspace : isSpace c with
      | true =>
        rw [scanFrom_space hspace] at h
        exact ih _ (by rw [← hn]; exact Nat.lt_succ_self _) h hsplit hnext rfl
      | false =>
        rw [scanFrom, hspace, if_neg Bool.false_ne_true] at h
        split at h
        · have hright : p.advance c = .ofOffset source.toList (before.length + 1) := by
            rw [hnext, Position.past_start_eq_ofOffset hsplit, List.length_append,
              List.length_singleton]
          rw [hright, hleft] at h
          cases h
          exact pointsInto_unexpected hsource
        · have hright : p.past (c :: cs) = .ofOffset source.toList source.toList.length := by
            rw [hp, ← Position.past_append, ← hsource,
              Position.past_start_eq_ofOffset (List.append_nil source.toList).symm]
          rw [hright, hleft] at h
          cases h
          exact pointsInto_unterminated hsource
        · next m hm =>
          have hwhole : source.toList = (before ++ m.text) ++ m.rest := by
            rw [hsource, List.append_assoc, munch_text_append_rest hm]
          have hpast : p.past m.text = Position.start.past (before ++ m.text) := by
            rw [hp, Position.past_append]
          exact ih _ (by rw [← hn]; exact munch_rest_length_lt hm) h hwhole hpast rfl

theorem pointsInto_of_scan {e : LexError} (h : scan source = .error e) :
    (Fault.lex e).PointsInto source :=
  pointsInto_of_scanFrom h (List.nil_append _).symm rfl

theorem within_of_scan {lexemes : List Lexeme} (h : scan source = .ok lexemes) {x : Lexeme}
    (hx : x ∈ lexemes) : x.span.Within source.toList := by
  obtain ⟨tokens, rfl, hcut⟩ := (scans_of_scan h).cut_start
  rcases List.mem_append.mp hx with hx | hx
  · have hsits := hcut.sits x hx
    exact ⟨_, _, Nat.le_of_lt hsits.nonempty, hsits.inside,
      congrArg₂ Span.mk hsits.left hsits.right⟩
  · rw [List.mem_singleton.mp hx]
    exact ⟨_, _, Nat.le_refl _, Nat.le_refl _, rfl⟩

end Lexeme

/-! ## Parsing -/

/-- An error of the parser is at one of the lexemes of the source, since these end with the end of
the file. -/
theorem Program.pointsInto_of_parse {source : String} {lexemes : List Lexeme} {e : ParseError}
    (hscan : Lexeme.scan source = .ok lexemes) (h : parse lexemes = .error e) :
    (Fault.parse e).PointsInto source := by
  obtain ⟨x, hx, hspan⟩ : ∃ x ∈ lexemes, x.span = e.span := by
    obtain ⟨tokens, rfl, -⟩ := (Lexeme.scans_of_scan hscan).cut_start
    rcases Parse.blames_of_run (parse_eq_error_iff.mp h) with ⟨x, hx, hspan⟩ | ⟨-, hdry⟩
    · exact ⟨x, (List.mem_filter.mp hx).1, hspan⟩
    · rw [List.filter_append, List.filter_cons_of_pos rfl] at hdry
      exact (hdry _ (List.mem_append_right _ List.mem_cons_self) rfl).elim
  have hwithin := Lexeme.within_of_scan hscan hx
  rw [hspan] at hwithin
  exact ⟨hwithin, lexemes, hscan, x, hx, hspan⟩

/-! ## Evaluation -/

/-- The failures of a node point to its place. -/
theorem Node.Raises.pointsInto {source : String} {m : Node} {e : RuntimeError}
    (h : m.Raises e) (hm : m.Stands source.toList) : (Fault.runtime e).PointsInto source where
  within := by
    show e.span.Within source.toList
    rw [h.span_eq]
    exact hm.place.within
  shown := by
    cases h with
    | var | shorthand | assign => exact hm.spelled
    | member | index | callee | native | overflow | declarator | function => trivial

namespace Session

variable {session : Session}

theorem scope_renew (session : Session) :
    session.renew.withBuiltins.scope = .root session.state.store.frames.size := by
  simp only [renew, withBuiltins, defineNative, define, freshIdentity, State.onStore,
    State.freshIdentity, Store.newRoot, Store.allocate]

/-- In a new global scope there are no functions but native ones. -/
theorem not_encloses_of_renew {x : String} {v : Value} {f : Function} {t : Scope}
    (h : (session.renew.withBuiltins.state.store.bindings
      session.state.store.frames.size).lookup x = some v) : ¬ v.Encloses f t := by
  simp only [renew, withBuiltins, defineNative, define, freshIdentity, State.onStore,
    State.freshIdentity, Store.newRoot] at h
  rw [Store.lookup_bindings_declare] at h
  split at h
  · cases h
    nofun
  rw [Store.lookup_bindings_declare] at h
  split at h
  · cases h
    rintro (_ | _ | ⟨_, mem, inside⟩)
    simp only [List.mem_cons, List.not_mem_nil, or_false] at mem
    rcases mem with rfl | rfl <;> cases inside
  · rw [Store.bindings_allocate, if_pos rfl] at h
    cases h

/-- The failures of an evaluation in a new global scope point into the source of the program. -/
theorem pointsInto_of_run {limit steps : Nat} {file source : String} {program : Program}
    {e : RuntimeError} {state' : State} (hprogram : Program.ofSource file source = .ok program)
    (hrun : (Task.program program.body session.renew.withBuiltins.scope).run limit steps
      session.renew.withBuiltins.state = some (.error e, state')) :
    (Fault.runtime e).PointsInto source := by
  have hbody : ∀ t ∈ program.body, (Node.ofStmt t).Everywhere (Node.Stands source.toList) :=
    fun t ht => ((Program.row_nodes hprogram).lies _ (List.mem_map_of_mem ht)).stands
  have hraises : ∀ (m : Node) e, m.Everywhere (Node.Stands source.toList) → m.Raises e →
      (Fault.runtime e).PointsInto source := fun m e hm he => he.pointsInto hm.here
  refine Task.fault_of_run (fun m k hm hk => hm.child hk) hraises hbody ?_ hrun
  intro s x v f t hs hv hinside
  rw [scope_renew] at hs
  have hroot := hs.eq_root fun _ _ _ _ => not_encloses_of_renew
  subst hroot
  exact absurd hinside (not_encloses_of_renew hv)

/-- **Every diagnostic points into its source.**  A source that is run in a new global scope with
the built-ins fails, if it does, at a stretch of the source, from one character offset to another
one.  What the diagnostic is about is there. -/
theorem diagnostic_pointsInto {session' : Session} {steps : Nat} {file source : String}
    {d : Diagnostic}
    (h : session.renew.withBuiltins.run steps file source = some (.error d, session')) :
    d.file = file ∧ d.fault.PointsInto source := by
  unfold run at h
  split at h
  · next program hprogram =>
    obtain ⟨⟨outcome, state'⟩, hrun, hd⟩ := Option.map_eq_some_iff.mp h
    cases outcome with
    | ok v => cases hd
    | error e =>
      cases hd
      exact ⟨rfl, pointsInto_of_run hprogram hrun⟩
  · next herror =>
    cases h
    rcases Program.ofSource_eq_error_iff.mp herror with
      ⟨e, hscan, rfl⟩ | ⟨lexemes, e, hscan, hparse, rfl⟩
    · exact ⟨rfl, Lexeme.pointsInto_of_scan hscan⟩
    · exact ⟨rfl, Program.pointsInto_of_parse hscan hparse⟩

/-- A variable that there is not, on the second line of a source. -/
theorem diagnostic_pointsInto_variable :
    let d : Diagnostic := ⟨"main", .runtime (.unknownVariable "x" ⟨⟨1, 1, 0⟩, ⟨2, 1, 1⟩⟩)⟩
    ∃ session', (start 1 .unbounded).renew.withBuiltins.run 10 "main" "\nx" =
        some (.error d, session') ∧
      d.fault.PointsInto "\nx" := by
  intro d
  have hsource : "\nx".toList = ['\n', 'x'] := rfl
  have hx : Lexeme.munch 'x' [] = .ok ⟨.identifier "x", ['x'], []⟩ := rfl
  have hscan : Lexeme.scan "\nx" = .ok
      [⟨.identifier "x", ⟨⟨1, 1, 0⟩, ⟨2, 1, 1⟩⟩⟩, ⟨.endOfFile, ⟨⟨2, 1, 1⟩, ⟨2, 1, 1⟩⟩⟩] := by
    rw [Lexeme.scan, hsource, Lexeme.scanFrom_space rfl, Lexeme.scanFrom_munch rfl hx,
      Lexeme.scanFrom]
    rfl
  have hprogram : Program.ofSource "main" "\nx" = .ok _ :=
    Program.ofSource_eq_ok_iff.mpr ⟨_, hscan, rfl⟩
  obtain ⟨session', hrun⟩ : ∃ session',
      (start 1 .unbounded).renew.withBuiltins.run 10 "main" "\nx" =
        some (.error d, session') := by
    rw [run, hprogram]
    exact ⟨_, rfl⟩
  exact ⟨session', hrun, (diagnostic_pointsInto hrun).2⟩

end Session

end Script
