import Script.Session

/-!
# From a source to a program

A source is scanned, and what is scanned is parsed.  The first of the two that fails says why there
is no program.  To run a source is to evaluate the program that it is.
-/

namespace Script

namespace Program

variable {file source : String} {lexemes : List Lexeme} {program : Program}

/-- A program is read from the lexemes that are no comments. -/
theorem parse_eq_ok_iff : parse lexemes = .ok program ↔
    Parse.run (lexemes.filter fun lexeme => !lexeme.token.isComment) = .ok program.body ∧
      program.comments = lexemes.filterMap Comment.ofLexeme? ∧
      program.span = spanOf lexemes := by
  unfold parse
  obtain ⟨body, comments, span⟩ := program
  cases Parse.run (lexemes.filter fun lexeme => !lexeme.token.isComment) with
  | error e => exact ⟨nofun, nofun⟩
  | ok stmts =>
    constructor
    · rintro ⟨⟩
      exact ⟨rfl, rfl, rfl⟩
    · rintro ⟨⟨⟩, rfl, rfl⟩
      rfl

theorem parse_eq_error_iff {e : ParseError} : parse lexemes = .error e ↔
    Parse.run (lexemes.filter fun lexeme => !lexeme.token.isComment) = .error e := by
  unfold parse
  cases Parse.run (lexemes.filter fun lexeme => !lexeme.token.isComment) with
  | error e' =>
    constructor
    · rintro ⟨⟩
      rfl
    · rintro ⟨⟩
      rfl
  | ok stmts => exact ⟨nofun, nofun⟩

theorem ofSource_of_scan_error {e : LexError} (h : Lexeme.scan source = .error e) :
    ofSource file source = .error ⟨file, .lex e⟩ := by
  unfold ofSource
  rw [h]
  rfl

theorem ofSource_of_scan (h : Lexeme.scan source = .ok lexemes) :
    ofSource file source = (parse lexemes).mapError fun e => ⟨file, .parse e⟩ := by
  unfold ofSource
  rw [h]
  rfl

/-- What goes well does not depend on how failures are told. -/
theorem mapError_eq_ok_iff {α ε δ : Type} {outcome : Except ε α} {tell : ε → δ} {a : α} :
    outcome.mapError tell = .ok a ↔ outcome = .ok a := by
  cases outcome with
  | ok b =>
    constructor
    · rintro ⟨⟩
      rfl
    · rintro ⟨⟩
      rfl
  | error e =>
    constructor
    · intro h
      cases h
    · intro h
      cases h

theorem mapError_eq_error_iff {α ε δ : Type} {outcome : Except ε α} {tell : ε → δ} {d : δ} :
    outcome.mapError tell = .error d ↔ ∃ e, outcome = .error e ∧ d = tell e := by
  cases outcome with
  | ok b =>
    constructor
    · intro h
      cases h
    · rintro ⟨e, ⟨⟩, -⟩
  | error e =>
    constructor
    · intro h
      cases h
      exact ⟨e, rfl, rfl⟩
    · rintro ⟨_, ⟨⟩, rfl⟩
      rfl

theorem ofSource_eq_ok_iff : ofSource file source = .ok program ↔
    ∃ lexemes, Lexeme.scan source = .ok lexemes ∧ parse lexemes = .ok program := by
  cases hscan : Lexeme.scan source with
  | error e => simp [ofSource_of_scan_error hscan]
  | ok lexemes => simp [ofSource_of_scan hscan, mapError_eq_ok_iff]

theorem ofSource_eq_error_iff {d : Diagnostic} : ofSource file source = .error d ↔
    (∃ e, Lexeme.scan source = .error e ∧ d = ⟨file, .lex e⟩) ∨
      ∃ lexemes e, Lexeme.scan source = .ok lexemes ∧ parse lexemes = .error e ∧
        d = ⟨file, .parse e⟩ := by
  cases hscan : Lexeme.scan source with
  | error e => simp [ofSource_of_scan_error hscan, eq_comm]
  | ok lexemes => simp [ofSource_of_scan hscan, mapError_eq_error_iff]

end Program

/-! ## Running a source -/

namespace Session

/-- Where a source is a program, it is run by evaluating the program. -/
theorem run_eq_evaluate {session : Session} {steps : Nat} {file source : String}
    {program : Program} (h : Program.ofSource file source = .ok program) :
    session.run steps file source = session.evaluate steps file program := by
  rw [run, h]

theorem evaluate_eq_some_iff {session : Session} {steps : Nat} {file : String} {program : Program}
    {r : Except Diagnostic Value × Session} : session.evaluate steps file program = some r ↔
      ∃ out state, Task.run session.callLimit steps (.program program.body session.scope)
          session.state = some (out, state) ∧
        (out.mapError fun e => ⟨file, .runtime e⟩, { session with state }) = r := by
  unfold evaluate
  rw [Option.map_eq_some_iff]
  exact Prod.exists

/-- A source that goes well is a program, and all that it changes is the state. -/
theorem of_run_ok {session session₁ : Session} {steps : Nat} {file source : String} {v : Value}
    (h : session.run steps file source = some (.ok v, session₁)) :
    ∃ program state, Program.ofSource file source = .ok program ∧
      Task.run session.callLimit steps (.program program.body session.scope) session.state =
        some (.ok v, state) ∧ session₁ = { session with state } := by
  cases hprogram : Program.ofSource file source with
  | error d =>
    rw [run, hprogram] at h
    cases h
  | ok program =>
    rw [run_eq_evaluate hprogram] at h
    obtain ⟨out, state, hrun, hr⟩ := evaluate_eq_some_iff.mp h
    cases out with
    | error e => cases hr
    | ok w =>
      cases hr
      exact ⟨program, state, rfl, hrun, rfl⟩

end Session

end Script
