import Script.Proofs.Identity.Creation
import Script.Proofs.Lexer.Partition
import Script.Proofs.Number.ReadBack
import Script.Proofs.Sessions
import Script.Proofs.Sources

/-!
# What strictly equal values have in common

Strict equality looks at the identities of arrays, objects and functions, and at nothing else of
them.  In a session that is enough.  A chronicle has all moments of all sources that have been run,
and there is one catalogue for all values that are held at any of them
(`Session.Chronicle.books`); so two of these values with the same identity are one value
(`Value.eq_or_zeros`), and two evaluations of literals, wherever in the session they begin, give
different identities.
-/

namespace Script

/-! ## Values -/

namespace Number

variable {x y : Number}

/-- A number is equal to itself only, except for the two zeros. -/
theorem eq_or_isZero (h : x.eq y = true) : x = y ∨ x.isZero = true ∧ y.isZero = true := by
  have hkey : x.key = y.key := by
    unfold eq compare? at h
    split at h
    · cases h
    · exact Std.compare_eq_iff_eq.mp (Option.some.inj (eq_of_beq h))
  have hx := x.bits.toNat_lt
  have hy := y.bits.toNat_lt
  simp only [key, isNegative, isZero, decide_eq_true_eq] at hkey ⊢
  by_cases hzero : x.magnitude = 0 ∧ y.magnitude = 0
  · exact .inr hzero
  · refine .inl (ext_toNat ?_)
    split at hkey <;> split at hkey <;> simp only [magnitude, signBit] at * <;> omega

/-- Both zeros are written in the same way. -/
theorem writtenChars_of_isZero (h : x.isZero = true) :
    x.writtenChars .value = Style.value.digits ⟨0, 0⟩ := by
  have hmagnitude : x.magnitude = 0 := of_decide_eq_true h
  have hnan : x.isNaN = false := by simp [isNaN, hmagnitude]
  have hinfinite : x.isInfinite = false := by
    simp [isInfinite, hmagnitude, infiniteMagnitude, fractionSize]
  simp [writtenChars, hnan, hinfinite, h, Style.value]

theorem display_eq_of_isZero (hx : x.isZero = true) (hy : y.isZero = true) :
    x.display = y.display := by
  rw [display, written, writtenChars_of_isZero hx, display, written, writtenChars_of_isZero hy]

end Number

namespace Value

variable {a b : Value} {c : List Value}

theorem identity?_eq_of_strictEqual (h : a.strictEqual b = true) :
    a.identity? = b.identity? := by
  cases a <;> cases b <;> simp_all [strictEqual, identity?]

/-- Where identities stand for one value each, a value is strictly equal to itself only, but for the
zeros. -/
theorem eq_or_zeros (hone : ∀ i, a.identity? = some i → b.identity? = some i → a = b)
    (h : a.strictEqual b = true) :
    a = b ∨ ∃ x y : Number, a = .number x ∧ b = .number y ∧ x.isZero = true ∧ y.isZero = true := by
  have hidentity := identity?_eq_of_strictEqual h
  cases hi : a.identity? with
  | some i => exact .inl (hone i hi (hidentity.symm.trans hi))
  | none =>
    cases a with
    | number x =>
      cases b with
      | number y =>
        rcases Number.eq_or_isZero h with rfl | hzeros
        · exact .inl rfl
        · exact .inr ⟨x, y, rfl, rfl, hzeros⟩
      | _ => cases h
    | string s =>
      cases b with
      | string t => exact .inl (congrArg string (of_decide_eq_true h))
      | _ => cases h
    | boolean p =>
      cases b with
      | boolean q => exact .inl (congrArg boolean (of_decide_eq_true h))
      | _ => cases h
    | null =>
      cases b with
      | null => exact .inl rfl
      | _ => cases h
    | undefined =>
      cases b with
      | undefined => exact .inl rfl
      | _ => cases h
    | array | object | function | native => cases hi

/-- No script can tell the values apart by looking at them: they have the same type, they are shown
in the same way, also as parts of other values and whatever stands around them, they count as the
same truth value, and they have the same members. -/
structure Indistinguishable (a b : Value) : Prop where
  typeName : a.typeName = b.typeName
  display : a.display = b.display
  nested : ∀ (written : String) (rest : List Piece),
    Piece.write written (.nested a :: rest) = Piece.write written (.nested b :: rest)
  isTruthy : a.isTruthy = b.isTruthy
  member? : ∀ key, a.member? key = b.member? key

theorem Indistinguishable.refl (a : Value) : a.Indistinguishable a :=
  ⟨rfl, rfl, fun _ _ => rfl, rfl, fun _ => rfl⟩

theorem Indistinguishable.number {x y : Number} (h : x.display = y.display) :
    (Value.number x).Indistinguishable (.number y) := by
  have hwrite : ∀ (written : String) (rest : List Piece),
      Piece.write written (.value (.number x) :: rest) =
        Piece.write written (.value (.number y) :: rest) := by
    intro written rest
    rw [Piece.write, Piece.write, Piece.ofValue, Piece.ofValue, h]
  exact ⟨rfl, hwrite "" [], hwrite, rfl, fun _ => rfl⟩

theorem Indistinguishable.of_identity
    (hone : ∀ i, a.identity? = some i → b.identity? = some i → a = b)
    (h : a.strictEqual b = true) : a.Indistinguishable b := by
  rcases eq_or_zeros hone h with rfl | ⟨x, y, rfl, rfl, hx, hy⟩
  · exact .refl a
  · exact .number (Number.display_eq_of_isZero hx hy)

theorem Indistinguishable.of_strictEqual (ha : a.Filed c) (hb : b.Filed c)
    (h : a.strictEqual b = true) : a.Indistinguishable b :=
  .of_identity (fun _ => ha.eq hb) h

end Value

/-! ## Moments -/

/-- What is evaluated to a new value from the one moment is not strictly equal to what is evaluated
to one from the other. -/
def Moment.Apart (limit : Nat) (m m' : Moment) : Prop :=
  ∀ v v', m.Makes limit v → m'.Makes limit v' → v.strictEqual v' = false

theorem Moment.Apart.of_identity_ne {limit : Nat} {m m' : Moment}
    (h : ∀ v v', m.Makes limit v → m'.Makes limit v' → v.identity? ≠ v'.identity?) :
    m.Apart limit m' := by
  intro v v' hv hv'
  rw [Bool.eq_false_iff]
  exact fun heq => h v v' hv hv' (Value.identity?_eq_of_strictEqual heq)

/-- The values that are held at some of the moments: those of variables, results, and parts of
values that are held. -/
inductive Held (moments : List Moment) : Value → Prop
  | bound {m : Moment} {frame : Nat} {x : String} {v : Value} (here : m ∈ moments)
      (binding : (x, v) ∈ m.state.store.bindings frame) : Held moments v
  | result {v : Value} {s : State} {p : Stack}
      (here : (⟨.done (.ok v) s, p⟩ : Moment) ∈ moments) : Held moments v
  | part {u v : Value} (whole : Held moments v) (part : u ∈ v.parts) : Held moments u

theorem Held.filed {moments : List Moment} {c : List Value} {s : State} {v : Value}
    (hshown : ∀ m ∈ moments, m.Shown c) (hstate : s.Filed c) (h : Held moments v) :
    v.Filed c := by
  induction h with
  | bound here binding => exact (hshown _ here).bound _ _ binding
  | result here => exact (hshown _ here).result _ _ _ rfl
  | part _ hpart ih => exact hstate.part ih hpart

/-! ## Sessions -/

namespace Session

/-- The moment at which a program begins. -/
def beginning (session : Session) (body : List Stmt) : Moment :=
  .start (.program body session.scope) session.state

/-- The first moments of a source that is run in the session; none if it is not a program. -/
def moments (session : Session) (n : Nat) (file source : String) : List Moment :=
  (Program.ofSource file source).toOption.elim [] fun program =>
    (session.beginning program.body).trace (Eval.body session.callLimit) n

/-- What may become of a session, with all moments of the sources that have been run in it. -/
inductive Chronicle (first : Session) : List Moment → Session → Prop
  | start : Chronicle first [] first
  | run {past : List Moment} {session session' : Session} {steps : Nat} {file source : String}
      {outcome : Except Diagnostic Value} (before : Chronicle first past session)
      (step : session.run steps file source = some (outcome, session')) :
      Chronicle first (past ++ session.moments steps file source) session'
  | renew {past : List Moment} {session : Session} (before : Chronicle first past session) :
      Chronicle first past session.renew
  | builtins {past : List Moment} {session : Session} (before : Chronicle first past session) :
      Chronicle first past session.withBuiltins
  | host {past : List Moment} {session : Session} (before : Chronicle first past session) :
      Chronicle first past session.withHost

/-- The books of a session are in order: there is one catalogue for its state and all moments so
far, all that was made is listed, and nothing was made twice. -/
structure Books (limit : Nat) (past : List Moment) (c : List Value) (session : Session) :
    Prop where
  callLimit : session.callLimit = limit
  state : session.state.Filed c
  shown : ∀ m ∈ past, m.Shown c
  made : ∀ m ∈ past, ∀ v, m.Makes limit v → ∃ i < c.length, v.identity? = some i
  apart : past.Pairwise (Moment.Apart limit)

variable {limit n steps : Nat} {past : List Moment} {c : List Value} {session session' : Session}
  {file source : String} {program : Program} {outcome : Except Diagnostic Value}

/-! ### Native functions and new scopes -/

/-- A value is built with the next identity. -/
theorem filed_new {s : State} {v : Value} (h : s.Filed c) (hv : v.identity? = some s.nextIdentity)
    (hbuilt : v.Composed c) : ∃ c₁, c <+: c₁ ∧ s.freshIdentity.2.Filed c₁ ∧ v.Filed c₁ :=
  ⟨c ++ [v], List.prefix_append _ _, h.fresh hbuilt, .new (hv.trans (congrArg some h.next))⟩

theorem filed_defineNative (session : Session) (h : session.state.Filed c) (native : Native) :
    ∃ c₁, c <+: c₁ ∧ (session.defineNative native).state.Filed c₁ := by
  obtain ⟨c₁, hle, hfresh, hnative⟩ :=
    filed_new (v := .native _ native) h rfl (.simple rfl rfl)
  exact ⟨c₁, hle, hfresh.declare hnative⟩

theorem filed_natives (natives : List Native) (h : session.state.Filed c) :
    ∃ c₁, c <+: c₁ ∧ (natives.foldl defineNative session).state.Filed c₁ := by
  induction natives generalizing session c with
  | nil => exact ⟨c, List.prefix_refl c, h⟩
  | cons native _ ih =>
    obtain ⟨c₁, hle, hdefined⟩ := filed_defineNative session h native
    obtain ⟨c₂, hle', hmore⟩ := ih hdefined
    exact ⟨c₂, hle.trans hle', hmore⟩

theorem filed_builtins (h : session.state.Filed c) :
    ∃ c₁, c <+: c₁ ∧ session.withBuiltins.state.Filed c₁ := by
  obtain ⟨c₁, hle₁, h₁, hwrite⟩ := filed_new (v := .native _ .write) h rfl (.simple rfl rfl)
  obtain ⟨c₂, hle₂, h₂, hwriteLine⟩ :=
    filed_new (v := .native _ .writeLine) h₁ rfl (.simple rfl rfl)
  have hparts := List.forall_mem_cons.mpr
    ⟨hwrite.mono hle₂, List.forall_mem_cons.mpr ⟨hwriteLine, List.forall_mem_nil _⟩⟩
  have hkeys : [Native.name .write, Native.name .writeLine].Nodup := by decide
  obtain ⟨c₃, hle₃, h₃, hlog⟩ := filed_new
    (v := .object _ [(Native.name .write, _), (Native.name .writeLine, _)]) h₂ rfl ⟨hparts, hkeys⟩
  obtain ⟨c₄, hle₄, h₄⟩ := filed_defineNative ⟨session.callLimit, session.scope, _⟩
    (h₃.declare hlog) .assert
  exact ⟨c₄, hle₁.trans (hle₂.trans (hle₃.trans hle₄)), h₄⟩

/-- Whatever happens to the state, what is listed stays so. -/
theorem Books.of_state {c₁ : List Value} (h : Books limit past c session) (hle : c <+: c₁)
    (hlimit : session'.callLimit = session.callLimit) (hstate : session'.state.Filed c₁) :
    Books limit past c₁ session' where
  callLimit := hlimit.trans h.callLimit
  state := hstate
  shown m hm := (h.shown m hm).mono hle
  made m hm v hv := by
    obtain ⟨i, hi, hidentity⟩ := h.made m hm v hv
    exact ⟨i, Nat.lt_of_lt_of_le hi hle.length_le, hidentity⟩
  apart := h.apart

/-! ### Sources -/

theorem moments_of_ofSource (h : Program.ofSource file source = .ok program) :
    session.moments n file source =
      (session.beginning program.body).trace (Eval.body session.callLimit) n := by
  rw [moments, h]
  rfl

theorem moments_of_error {d : Diagnostic} (h : Program.ofSource file source = .error d) :
    session.moments n file source = [] := by
  rw [moments, h]
  rfl

/-- A program begins with the catalogue of the session. -/
theorem files_beginning (h : session.state.Filed c) (body : List Stmt) :
    Moment.Files c (session.beginning body) :=
  .mk (.call (List.prefix_refl c) h trivial fun _ _ _ hout => hout) .nothing

/-- What is made from a moment of a run is apart from what was made before, and from what is made
from other moments of the run. -/
theorem Books.apart_append (h : Books limit past c session) (body : List Stmt) :
    (past ++ (session.beginning body).trace (Eval.body limit) n).Pairwise
      (Moment.Apart limit) := by
  have hfiles := files_beginning h.state body
  refine List.pairwise_append.mpr ⟨h.apart, ?_, fun m hm m' hm' => ?_⟩
  · refine Routine.Configuration.pairwise_trace fun i x hx d y hy => ?_
    obtain ⟨c₁, hfiles'⟩ := hfiles.of_after hx
    exact .of_identity_ne fun v v' hv hv' => hv.identity_ne hfiles' hy hv'
  · obtain ⟨i, -, hi⟩ := Routine.Configuration.mem_trace.mp hm'
    refine .of_identity_ne fun v v' hv hv' heq => ?_
    obtain ⟨j, hj, hidentity⟩ := h.made m hm v hv
    have hle : session.state.nextIdentity ≤ j := hv'.le_identity hfiles hi (heq ▸ hidentity)
    rw [h.state.next] at hle
    omega

/-- Where the last moment of a run has its catalogue, all moments so far have it. -/
theorem Books.shown_append (h : Books limit past c session) {body : List Stmt} {k : Nat}
    {last : Moment} (hlast : (session.beginning body).after (Eval.body limit) k = some last)
    (hall : ∀ i < n, ∀ m, (session.beginning body).after (Eval.body limit) i = some m → i ≤ k) :
    ∃ c₁, c <+: c₁ ∧ last.state.Filed c₁ ∧
      ∀ m ∈ past ++ (session.beginning body).trace (Eval.body limit) n, m.Shown c₁ := by
  obtain ⟨c₁, hle, hstate, hshown⟩ := (files_beginning h.state body).after hlast
  refine ⟨c₁, hle, hstate, fun m hm => ?_⟩
  rcases List.mem_append.mp hm with hm | hm
  · exact (h.shown m hm).mono hle
  · obtain ⟨i, hi, hafter⟩ := Routine.Configuration.mem_trace.mp hm
    exact (hshown i (hall i hi m hafter) m hafter).1

theorem Books.run (h : Books limit past c session)
    (hrun : session.run steps file source = some (outcome, session')) :
    ∃ c₁, Books limit (past ++ session.moments steps file source) c₁ session' := by
  cases hprogram : Program.ofSource file source with
  | error d =>
    rw [Session.run, hprogram] at hrun
    cases hrun
    rw [moments_of_error hprogram, List.append_nil]
    exact ⟨c, h⟩
  | ok program =>
    rw [run_eq_evaluate hprogram] at hrun
    obtain ⟨out, state, htask, hr⟩ := evaluate_eq_some_iff.mp hrun
    cases hr
    obtain rfl := h.callLimit
    rw [moments_of_ofSource hprogram]
    obtain ⟨k, hk, hlast⟩ := Routine.run_eq_some_iff.mp htask
    have hfiles := files_beginning h.state program.body
    have hover : (⟨.done out state, .nothing⟩ : Moment).next (Eval.body session.callLimit) = none :=
      rfl
    obtain ⟨c₁, hle, hstate, hshown⟩ := h.shown_append (n := steps) hlast
      fun i _ m hm => Routine.Configuration.le_of_over hlast hover hm
    have hbooks : Books _ past c₁ { session with state } := h.of_state hle rfl hstate
    refine ⟨c₁, rfl, hstate, hshown, fun m hm v hv => ?_, h.apart_append program.body⟩
    rcases List.mem_append.mp hm with hm | hm
    · exact hbooks.made m hm v hv
    · obtain ⟨i, -, hafter⟩ := Routine.Configuration.mem_trace.mp hm
      obtain ⟨j, hj, hidentity⟩ := hv.identity_lt hfiles hafter hlast hover
      exact ⟨j, hstate.next ▸ hj, hidentity⟩

/-- **The books of every session are in order.** -/
theorem Chronicle.books {callLimit : Nat} {output : Output}
    (h : (bare callLimit output).Chronicle past session) :
    ∃ c, Books callLimit past c session := by
  induction h with
  | start =>
    have hempty : (State.initial output).Filed [] :=
      ⟨rfl, List.forall_mem_nil _, fun _ _ hp => nomatch hp⟩
    exact ⟨[], rfl, hempty.allocate (List.forall_mem_nil _), List.forall_mem_nil _,
      List.forall_mem_nil _, .nil⟩
  | run _ step ih =>
    obtain ⟨c, hbooks⟩ := ih
    exact hbooks.run step
  | renew _ ih =>
    obtain ⟨c, hbooks⟩ := ih
    exact ⟨c, hbooks.of_state (List.prefix_refl c) rfl
      (hbooks.state.allocate (List.forall_mem_nil _))⟩
  | builtins _ ih =>
    obtain ⟨c, hbooks⟩ := ih
    obtain ⟨c₁, hle, hstate⟩ := filed_builtins hbooks.state
    exact ⟨c₁, hbooks.of_state hle (steady_builtins _).callLimit hstate⟩
  | host _ ih =>
    obtain ⟨c, hbooks⟩ := ih
    obtain ⟨c₁, hle, hstate⟩ := filed_natives _ hbooks.state
    exact ⟨c₁, hbooks.of_state hle (steady_natives _ _).callLimit hstate⟩

/-- While a source is run, there is still one catalogue for all moments so far. -/
theorem Books.shown_moments (h : Books limit past c session) (n : Nat) (file source : String) :
    ∃ c₁ s, State.Filed c₁ s ∧ ∀ m ∈ past ++ session.moments n file source, m.Shown c₁ := by
  cases hprogram : Program.ofSource file source with
  | error d =>
    rw [moments_of_error hprogram, List.append_nil]
    exact ⟨c, session.state, h.state, h.shown⟩
  | ok program =>
    obtain rfl := h.callLimit
    rw [moments_of_ofSource hprogram]
    obtain ⟨k, last, hlast, hall⟩ := Routine.Configuration.exists_last
      (Eval.body session.callLimit) (session.beginning program.body) n
    obtain ⟨c₁, -, hstate, hshown⟩ := h.shown_append hlast hall
    exact ⟨c₁, last.state, hstate, hshown⟩

/-- The values that are held while a source is run are listed together with all those before. -/
theorem Books.filed (h : Books limit past c session) (n : Nat) (file source : String) :
    (∃ c₁, ∀ v, Held (past ++ session.moments n file source) v → v.Filed c₁) ∧
      (past ++ session.moments n file source).Pairwise (Moment.Apart limit) := by
  obtain ⟨c₁, s, hstate, hshown⟩ := h.shown_moments n file source
  refine ⟨⟨c₁, fun v hv => hv.filed hshown hstate⟩, ?_⟩
  cases hprogram : Program.ofSource file source with
  | error d =>
    rw [moments_of_error hprogram, List.append_nil]
    exact h.apart
  | ok program =>
    obtain rfl := h.callLimit
    rw [moments_of_ofSource hprogram]
    exact h.apart_append program.body

/-- **Strictly equal values cannot be told apart.**  In a session, of any sources and with any
native functions, take all values that are held at any moment: in variables, as results, or as parts
of other values.  Those that are strictly equal are of one type, shown alike at the top and inside
others, alike as truth values, and have the same members.  And of the array literals, object
literals, function expressions and function declarations that are evaluated, from whatever moments
of the session, no two give strictly equal values. -/
theorem Chronicle.strictEqual_indistinguishable {callLimit : Nat} {output : Output}
    (h : (bare callLimit output).Chronicle past session) (n : Nat) (file source : String) :
    (∀ a b, Held (past ++ session.moments n file source) a →
      Held (past ++ session.moments n file source) b → a.strictEqual b = true →
      a.Indistinguishable b) ∧
    (past ++ session.moments n file source).Pairwise (Moment.Apart callLimit) := by
  obtain ⟨c, hbooks⟩ := h.books
  obtain ⟨⟨c₁, hfiled⟩, hapart⟩ := hbooks.filed n file source
  exact ⟨fun a b ha hb => .of_strictEqual (hfiled a ha) (hfiled b hb), hapart⟩

theorem scan_brackets : Lexeme.scan "[]" = .ok
    [⟨.symbol .leftBracket, ⟨⟨0, 0, 0⟩, ⟨1, 0, 1⟩⟩⟩,
     ⟨.symbol .rightBracket, ⟨⟨1, 0, 1⟩, ⟨2, 0, 2⟩⟩⟩, ⟨.endOfFile, ⟨⟨2, 0, 2⟩, ⟨2, 0, 2⟩⟩⟩] := by
  have hsource : "[]".toList = ['[', ']'] := rfl
  have hleft : Lexeme.munch '[' [']'] = .ok ⟨.symbol .leftBracket, ['['], [']']⟩ := rfl
  have hright : Lexeme.munch ']' [] = .ok ⟨.symbol .rightBracket, [']'], []⟩ := rfl
  rw [Lexeme.scan, hsource, Lexeme.scanFrom_munch rfl hleft, Lexeme.scanFrom_munch rfl hright,
    Lexeme.scanFrom]
  rfl

theorem scan_negations : Lexeme.scan "[- -null]" = .ok
    [⟨.symbol .leftBracket, ⟨⟨0, 0, 0⟩, ⟨1, 0, 1⟩⟩⟩, ⟨.symbol .minus, ⟨⟨1, 0, 1⟩, ⟨2, 0, 2⟩⟩⟩,
     ⟨.symbol .minus, ⟨⟨3, 0, 3⟩, ⟨4, 0, 4⟩⟩⟩, ⟨.identifier "null", ⟨⟨4, 0, 4⟩, ⟨8, 0, 8⟩⟩⟩,
     ⟨.symbol .rightBracket, ⟨⟨8, 0, 8⟩, ⟨9, 0, 9⟩⟩⟩, ⟨.endOfFile, ⟨⟨9, 0, 9⟩, ⟨9, 0, 9⟩⟩⟩] := by
  have hsource : "[- -null]".toList = ['[', '-', ' ', '-', 'n', 'u', 'l', 'l', ']'] := rfl
  have hleft : Lexeme.munch '[' ['-', ' ', '-', 'n', 'u', 'l', 'l', ']'] =
      .ok ⟨.symbol .leftBracket, ['['], ['-', ' ', '-', 'n', 'u', 'l', 'l', ']']⟩ := rfl
  have houter : Lexeme.munch '-' [' ', '-', 'n', 'u', 'l', 'l', ']'] =
      .ok ⟨.symbol .minus, ['-'], [' ', '-', 'n', 'u', 'l', 'l', ']']⟩ := rfl
  have hinner : Lexeme.munch '-' ['n', 'u', 'l', 'l', ']'] =
      .ok ⟨.symbol .minus, ['-'], ['n', 'u', 'l', 'l', ']']⟩ := rfl
  have hnull : Lexeme.munch 'n' ['u', 'l', 'l', ']'] =
      .ok ⟨.identifier "null", ['n', 'u', 'l', 'l'], [']']⟩ := rfl
  have hright : Lexeme.munch ']' [] = .ok ⟨.symbol .rightBracket, [']'], []⟩ := rfl
  rw [Lexeme.scan, hsource, Lexeme.scanFrom_munch rfl hleft, Lexeme.scanFrom_munch rfl houter,
    Lexeme.scanFrom_space rfl, Lexeme.scanFrom_munch rfl hinner, Lexeme.scanFrom_munch rfl hnull,
    Lexeme.scanFrom_munch rfl hright, Lexeme.scanFrom]
  rfl

/-- A source builds an empty array. -/
theorem makes_brackets (session : Session) :
    (∃ session', session.run 20 "first" "[]" =
        some (.ok (.array session.state.nextIdentity []), session') ∧
      session'.callLimit = session.callLimit ∧
      session'.state.nextIdentity = session.state.nextIdentity + 1) ∧
    ∃ m ∈ session.moments 20 "first" "[]",
      m.Makes session.callLimit (.array session.state.nextIdentity []) := by
  have hprogram : Program.ofSource "first" "[]" = .ok _ :=
    Program.ofSource_eq_ok_iff.mpr ⟨_, scan_brackets, rfl⟩
  rw [run_eq_evaluate hprogram, moments_of_ofSource hprogram]
  exact ⟨⟨_, rfl, rfl, rfl⟩, _, Routine.Configuration.mem_trace.mpr ⟨2, by decide, rfl⟩,
    _, List.mem_singleton.mpr rfl, rfl, 20, _, rfl⟩

/-- Another one builds an array of a zero, and comes by the negative zero on the way. -/
theorem makes_negations (session : Session) (past : List Moment) :
    Held (past ++ session.moments 20 "second" "[- -null]") (.number .zero) ∧
    Held (past ++ session.moments 20 "second" "[- -null]") (.number (Number.neg .zero)) ∧
    ∃ m ∈ session.moments 20 "second" "[- -null]",
      m.Makes session.callLimit (.array session.state.nextIdentity [.number .zero]) := by
  have hprogram : Program.ofSource "second" "[- -null]" = .ok _ :=
    Program.ofSource_eq_ok_iff.mpr ⟨_, scan_negations, rfl⟩
  rw [moments_of_ofSource hprogram]
  refine ⟨?_, ?_, _, Routine.Configuration.mem_trace.mpr ⟨2, by decide, rfl⟩,
    _, List.mem_singleton.mpr rfl, rfl, 20, _, rfl⟩
  · exact .result (List.mem_append_right _
      (Routine.Configuration.mem_trace.mpr ⟨8, by decide, rfl⟩))
  · exact .result (List.mem_append_right _
      (Routine.Configuration.mem_trace.mpr ⟨7, by decide, rfl⟩))

/-- The two zeros and the two arrays of such a session. -/
theorem Chronicle.strictEqual_indistinguishable_zeros :
    ∃ past session, (bare 1 .unbounded).Chronicle past session ∧
      Held (past ++ session.moments 20 "second" "[- -null]") (.number .zero) ∧
      Held (past ++ session.moments 20 "second" "[- -null]") (.number (Number.neg .zero)) ∧
      (Value.number .zero).Indistinguishable (.number (Number.neg .zero)) ∧
      ∃ m ∈ past, ∃ m' ∈ session.moments 20 "second" "[- -null]",
        m.Makes 1 (.array 0 []) ∧ m'.Makes 1 (.array 1 [.number .zero]) ∧
        (Value.array 0 []).strictEqual (.array 1 [.number .zero]) = false := by
  obtain ⟨⟨session, hrun, hlimit, hnext⟩, m, hm, hmakes⟩ := makes_brackets (bare 1 .unbounded)
  have hchronicle := Chronicle.run .start hrun
  obtain ⟨hzero, hnegative, m', hm', hmakes'⟩ :=
    makes_negations session ([] ++ (bare 1 .unbounded).moments 20 "first" "[]")
  rw [hlimit, hnext] at hmakes'
  obtain ⟨hequal, hapart⟩ := strictEqual_indistinguishable hchronicle 20 "second" "[- -null]"
  have hdistinct := (List.pairwise_append.mp hapart).2.2 m hm m' hm'
  exact ⟨_, session, hchronicle, hzero, hnegative, hequal _ _ hzero hnegative rfl, m, hm, m', hm',
    hmakes, hmakes', hdistinct _ _ hmakes hmakes'⟩

end Session

end Script
