import Script.Proofs.Comparison
import Script.Proofs.Identity.Contents

/-!
# Loose equality

`looseEqual` takes both booleans for numbers first and then looks at the kinds of the two values.
The rules of the language are put another way: the kinds are looked at first, and a boolean defers
the comparison to one of other values, with the number in its place (`verdict`).  The rules are in
an order, they overlap, and they look at the left value before the right one.  Still each comparison
comes to an end, and to what `looseEqual` says (`settled_iff`).

From there on only `looseEqual` matters.  It is symmetric (`looseEqual_comm`), it does not
distinguish a boolean from its number (`looseEqual_withoutBoolean`), and between values of one type
it is strict equality (`looseEqual_of_typeName`).
-/

namespace Script.Value

variable {a b a' b' : Value} {equal : Bool} {k : Nat}

/-- What the rules say about two values. -/
inductive Verdict where
  | decided (equal : Bool)
  /-- Two other values are to be compared instead. -/
  | deferred (a b : Value)

/-- The rules of loose equality.  The first one that fits the kinds of the two values counts. -/
def verdict : Value → Value → Verdict
  | null, null | null, undefined | undefined, null | undefined, undefined => .decided true
  | boolean p, b => .deferred (number (boolean p).toNumber) b
  | a, boolean q => .deferred a (number (boolean q).toNumber)
  | number n, string s => .decided (readsAs s n)
  | string s, number n => .decided (readsAs s n)
  | a, b => .decided (a.strictEqual b)

/-- The comparison of two values comes to an answer, having been deferred `k` times. -/
inductive Settled : Value → Value → Bool → Nat → Prop
  | decided {a b : Value} {equal : Bool} (h : verdict a b = .decided equal) : Settled a b equal 0
  | deferred {a b a' b' : Value} {equal : Bool} {k : Nat} (h : verdict a b = .deferred a' b')
      (rest : Settled a' b' equal k) : Settled a b equal (k + 1)

def isBoolean : Value → Bool
  | boolean _ => true
  | number _ | string _ | null | undefined | array _ _ | object _ _ | function _ _ _ _
  | native _ _ => false

/-! ## Strict equality -/

theorem strictEqual_comm (a b : Value) : a.strictEqual b = b.strictEqual a :=
  Bool.eq_iff_iff.mpr ⟨strictEqual_symm, strictEqual_symm⟩

theorem typeName_eq_of_strictEqual (h : a.strictEqual b = true) : a.typeName = b.typeName := by
  cases a <;> cases b <;> first | rfl | cases h

/-! ## Booleans as numbers -/

theorem withoutBoolean_boolean (p : Bool) :
    (boolean p).withoutBoolean = number (boolean p).toNumber := by
  cases p <;> rfl

theorem withoutBoolean_withoutBoolean (a : Value) :
    a.withoutBoolean.withoutBoolean = a.withoutBoolean := by
  cases a <;> rfl

theorem isNullish_withoutBoolean (a : Value) : a.withoutBoolean.isNullish = a.isNullish := by
  cases a <;> rfl

theorem looseEqual_withoutBoolean (a b : Value) :
    a.withoutBoolean.looseEqual b.withoutBoolean = a.looseEqual b := by
  rw [looseEqual, looseEqual, isNullish_withoutBoolean, isNullish_withoutBoolean,
    withoutBoolean_withoutBoolean, withoutBoolean_withoutBoolean]

theorem looseEqual_withoutBoolean_left (a b : Value) :
    a.withoutBoolean.looseEqual b = a.looseEqual b := by
  rw [← looseEqual_withoutBoolean a.withoutBoolean, withoutBoolean_withoutBoolean,
    looseEqual_withoutBoolean]

theorem looseEqual_comm (a b : Value) : a.looseEqual b = b.looseEqual a := by
  rw [looseEqual, looseEqual, Bool.and_comm]
  split
  · rfl
  · generalize a.withoutBoolean = x, b.withoutBoolean = y
    -- A text and a number are compared in the same way in either order.
    cases x <;> cases y <;> first | rfl | exact strictEqual_comm _ _

theorem looseEqual_boolean_left (p : Bool) (b : Value) :
    (boolean p).looseEqual b = (number (boolean p).toNumber).looseEqual b := by
  rw [← withoutBoolean_boolean, looseEqual_withoutBoolean_left]

theorem looseEqual_boolean_right (a : Value) (q : Bool) :
    a.looseEqual (boolean q) = a.looseEqual (number (boolean q).toNumber) := by
  rw [looseEqual_comm, looseEqual_boolean_left, looseEqual_comm]

/-- The number that a boolean stands for is zero or one. -/
theorem rational?_toNumber_boolean (p : Bool) :
    (boolean p).toNumber.rational? = some (if p then 1 else 0) := by
  cases p with
  | false => exact Number.rational?_eq_zero_iff.mpr rfl
  | true =>
    have hexponent : Number.one.exponentField = 1023 := rfl
    have hfraction : Number.one.fractionField = 0 := rfl
    have hsign : ¬2 ^ 63 ≤ Number.one.bits.toNat := by decide
    show Number.one.rational? = _
    simp only [Number.rational?, hexponent, hfraction, if_neg hsign]
    norm_num

/-- **Between values of one type loose equality is strict.** -/
theorem looseEqual_of_typeName (h : a.typeName = b.typeName) :
    a.looseEqual b = a.strictEqual b := by
  cases a with
  | boolean p =>
    cases b with
    | boolean q => cases p <;> cases q <;> rfl
    | _ => exact absurd h (of_decide_eq_false rfl)
  | _ => cases b <;> first | exact absurd h (of_decide_eq_false rfl) | rfl

theorem looseEqual_of_strictEqual (h : a.strictEqual b = true) : a.looseEqual b = true :=
  (looseEqual_of_typeName (typeName_eq_of_strictEqual h)).trans h

/-! ## The rules -/

/-- A comparison is decided where there are no booleans. -/
theorem looseEqual_of_decided (h : verdict a b = .decided equal) :
    a.looseEqual b = equal ∧ [a, b].countP isBoolean = 0 := by
  cases a <;> cases b <;> cases h <;> exact ⟨rfl, rfl⟩

/-- A comparison is deferred to one with a boolean less. -/
theorem looseEqual_of_deferred (h : verdict a b = .deferred a' b') :
    a.looseEqual b = a'.looseEqual b' ∧
      [a, b].countP isBoolean = [a', b'].countP isBoolean + 1 := by
  refine ⟨?_, ?_⟩
  · unfold verdict at h
    split at h <;> cases h
    · exact looseEqual_boolean_left _ _
    · exact looseEqual_boolean_right _ _
  · cases a <;> cases b <;> cases h <;> rfl

/-- Every comparison comes to an end, by induction on the booleans that are left. -/
theorem settled (a b : Value) : Settled a b (a.looseEqual b) ([a, b].countP isBoolean) := by
  cases h : verdict a b with
  | decided equal =>
    obtain ⟨hequal, hcount⟩ := looseEqual_of_decided h
    rw [hequal, hcount]
    exact .decided h
  | deferred a' b' =>
    obtain ⟨hequal, hcount⟩ := looseEqual_of_deferred h
    rw [hequal, hcount]
    exact .deferred h (settled a' b')
termination_by [a, b].countP isBoolean
decreasing_by exact Nat.lt_of_lt_of_eq (Nat.lt_succ_self _) hcount.symm

/-- **A comparison by the rules ends with what `looseEqual` says,** and is deferred once for each
boolean. -/
theorem settled_iff :
    Settled a b equal k ↔ equal = a.looseEqual b ∧ k = [a, b].countP isBoolean := by
  constructor
  · intro h
    induction h with
    | decided h =>
      obtain ⟨hequal, hcount⟩ := looseEqual_of_decided h
      exact ⟨hequal.symm, hcount.symm⟩
    | deferred h _ ih =>
      obtain ⟨hequal, hcount⟩ := looseEqual_of_deferred h
      exact ⟨ih.1.trans hequal.symm, (congrArg (· + 1) ih.2).trans hcount.symm⟩
  · rintro ⟨rfl, rfl⟩
    exact settled a b

/-- **Strict and loose equality fit together.**  Comparing two values by the rules always comes to
an end, after a boolean has been replaced at most twice, and the answer is that of `looseEqual`.
This is symmetric, it holds where strict equality does, and so no two values are both `==` and `!=`;
between values of one type the two equalities are the same; and a boolean may be replaced by the
number zero or one that it stands for, on either side. -/
theorem equalities_coherent (a b : Value) :
    (∀ equal k, Settled a b equal k ↔
      equal = a.looseEqual b ∧ k = [a, b].countP isBoolean) ∧
    a.looseEqual b = b.looseEqual a ∧
    (a.strictEqual b = true → a.looseEqual b = true) ∧
    ¬(Relates .equal a b ∧ Relates .notEqual a b) ∧
    (a.typeName = b.typeName → a.looseEqual b = a.strictEqual b) ∧
    ∀ p : Bool,
      (boolean p).toNumber.rational? = some (if p then 1 else 0) ∧
      (boolean p).looseEqual b = (number (boolean p).toNumber).looseEqual b ∧
      a.looseEqual (boolean p) = a.looseEqual (number (boolean p).toNumber) := by
  refine ⟨fun _ _ => settled_iff, looseEqual_comm a b, looseEqual_of_strictEqual, ?_,
    looseEqual_of_typeName, fun p => ⟨rational?_toNumber_boolean p, looseEqual_boolean_left p b,
      looseEqual_boolean_right a p⟩⟩
  rintro ⟨hequal, hunequal⟩
  have hstrict : a.strictEqual b = true := boolean.inj hequal
  have hloose : (!a.looseEqual b) = true := boolean.inj hunequal
  rw [looseEqual_of_strictEqual hstrict] at hloose
  cases hloose

/-- A boolean is loosely equal to a text that reads as its number, in both orders and after the
boolean has been replaced; the two zeros are equal in either way; and a NaN is not equal to itself
in either way. -/
theorem equalities_coherent_coerced :
    (Settled (string "1") (boolean true) true 1 ∧ Settled (boolean true) (string "1") true 1) ∧
    (number .zero).strictEqual (number Number.zero.neg) = true ∧
    (number .zero).looseEqual (number Number.zero.neg) = true ∧
    (number .nan).looseEqual (number .nan) = false := by
  have hreads : (string "1").looseEqual (boolean true) = true := by decide +kernel
  have hzeros : (number .zero).strictEqual (number Number.zero.neg) = true := by decide
  obtain ⟨hleft, hcomm, -⟩ := equalities_coherent (string "1") (boolean true)
  obtain ⟨hright, -⟩ := equalities_coherent (boolean true) (string "1")
  obtain ⟨-, -, hstrict, -⟩ := equalities_coherent (number .zero) (number Number.zero.neg)
  obtain ⟨-, -, -, -, htype, -⟩ := equalities_coherent (number .nan) (number .nan)
  exact ⟨⟨(hleft _ _).mpr ⟨hreads.symm, rfl⟩, (hright _ _).mpr ⟨hreads.symm.trans hcomm, rfl⟩⟩,
    hzeros, hstrict hzeros, (htype rfl).trans (by decide)⟩

end Script.Value
