import Mathlib.Tactic.NormNum
import Script.Proofs.Number.Exact
import Script.Proofs.Number.Order
import Script.Proofs.Text.ByteOrder
import Script.Value.Operators

/-!
# The relational operators

All four operators ask `compare?`, which knows of an order between two numbers other than NaN,
between two strings and between two booleans (`Comparable`), and of no other.  Three facts about it
make the operators agree with one another: exchanged operands give the answer turned round
(`compare?_swap`), the values it finds equal are those that `==` does (`compare?_eq_iff`), and what
comes before is transitive (`compare?_lt_trans`).
-/

namespace Script.Value

variable {a b c : Value} {x y : Number}

/-- There is an order between the two values. -/
inductive Comparable : Value → Value → Prop
  | numbers {x y : Number} (left : x.isNaN = false) (right : y.isNaN = false) :
      Comparable (number x) (number y)
  | strings (s t : String) : Comparable (string s) (string t)
  | booleans (p q : Bool) : Comparable (boolean p) (boolean q)

/-- The operator gives `true` for the two values. -/
def Relates (op : BinaryOp) (a b : Value) : Prop := binary op a b = boolean true

/-! ## How values compare -/

theorem Comparable.symm (h : Comparable a b) : Comparable b a := by
  cases h with
  | numbers left right => exact .numbers right left
  | strings s t => exact .strings t s
  | booleans p q => exact .booleans q p

theorem Comparable.exists_compare? (h : Comparable a b) : ∃ o, a.compare? b = some o := by
  cases h with
  | numbers left right => exact ⟨_, Number.compare?_eq_some_iff.mpr ⟨left, right, rfl⟩⟩
  | strings s t => exact ⟨_, rfl⟩
  | booleans p q => exact ⟨_, rfl⟩

theorem comparable_of_compare? {o : Ordering} (h : a.compare? b = some o) : Comparable a b := by
  unfold compare? at h
  split at h
  · obtain ⟨hx, hy, -⟩ := Number.compare?_eq_some_iff.mp h
    exact .numbers hx hy
  · exact .strings _ _
  · exact .booleans _ _
  · cases h

theorem compare?_eq_none (h : ¬Comparable a b) : a.compare? b = none :=
  Option.eq_none_iff_forall_ne_some.mpr fun _ ho => h (comparable_of_compare? ho)

theorem compare?_swap (a b : Value) : b.compare? a = (a.compare? b).map Ordering.swap := by
  by_cases h : Comparable a b
  · cases h with
    | numbers => exact Number.compare?_swap _ _
    | strings => exact congrArg some Std.OrientedOrd.eq_swap
    | booleans => exact congrArg some Std.OrientedOrd.eq_swap
  · rw [compare?_eq_none h, compare?_eq_none (mt Comparable.symm h)]
    rfl

theorem compare?_eq_iff (h : Comparable a b) :
    a.compare? b = some .eq ↔ a.strictEqual b = true := by
  cases h with
  | numbers => exact Number.eq_iff_compare?.symm
  | strings => exact Option.some_inj.trans (Std.compare_eq_iff_eq.trans decide_eq_true_iff.symm)
  | booleans => exact Option.some_inj.trans (Std.compare_eq_iff_eq.trans decide_eq_true_iff.symm)

theorem compare?_lt_trans (h : a.compare? b = some .lt) (h' : b.compare? c = some .lt) :
    a.compare? c = some .lt := by
  -- The value in the middle is of the kind of both others.
  cases comparable_of_compare? h with
  | numbers =>
    cases comparable_of_compare? h' with
    | numbers => exact Number.compare?_lt_trans h h'
  | strings =>
    cases comparable_of_compare? h' with
    | strings =>
      exact congrArg some (Std.TransCmp.lt_trans (Option.some_inj.mp h) (Option.some_inj.mp h'))
  | booleans =>
    cases comparable_of_compare? h' with
    | booleans =>
      exact congrArg some (Std.TransCmp.lt_trans (Option.some_inj.mp h) (Option.some_inj.mp h'))

/-! ## What the operators give -/

/-- An operator and another that accepts what the first does, the other way round. -/
theorem ordered_swap (a b : Value) {accept accept' : Ordering → Bool}
    (h : ∀ o, accept' o.swap = accept o) : ordered a b accept = ordered b a accept' := by
  rw [ordered, ordered, compare?_swap a b, Option.any_map]
  exact congrArg (fun f => boolean ((a.compare? b).any f)) (funext fun o => (h o).symm)

theorem binary_of_compare? {o : Ordering} (h : a.compare? b = some o) :
    binary .less a b = boolean o.isLT ∧ binary .equal a b = boolean o.isEq ∧
      binary .greater a b = boolean o.isGT ∧ binary .lessEqual a b = boolean o.isLE := by
  have hequal : a.strictEqual b = o.isEq := by
    have hiff := compare?_eq_iff (comparable_of_compare? h)
    rw [h, Option.some_inj, ← Ordering.isEq_iff_eq_eq] at hiff
    exact Bool.eq_iff_iff.mpr hiff.symm
  simp only [binary, ordered, h, hequal, Option.any_some, and_self]

/-- **Values without an order are in no relation.** -/
theorem binary_of_not_comparable (h : ¬Comparable a b) :
    ∀ op ∈ [BinaryOp.less, .greater, .lessEqual, .greaterEqual],
      binary op a b = boolean false := by
  have hnone : ∀ accept, ordered a b accept = boolean false := by
    intro accept
    rw [ordered, compare?_eq_none h]
    rfl
  simp only [List.forall_mem_cons, List.not_mem_nil, false_implies, implies_true, and_true]
  exact ⟨hnone _, hnone _, hnone _, hnone _⟩

theorem relates_less_iff : Relates .less a b ↔ a.compare? b = some .lt := by
  simp only [Relates, binary, ordered, boolean.injEq, Option.any_eq_true, Ordering.isLT_iff_eq_lt,
    exists_eq_right]

/-- **One value is before another, equal to it or behind it,** and no two of these. -/
theorem Comparable.trichotomy (h : Comparable a b) :
    ∃ o ∈ [BinaryOp.less, .equal, .greater],
      ∀ op ∈ [BinaryOp.less, .equal, .greater], binary op a b = boolean (op = o) := by
  obtain ⟨o, ho⟩ := h.exists_compare?
  obtain ⟨hless, hequal, hgreater, -⟩ := binary_of_compare? ho
  simp only [List.forall_mem_cons, List.not_mem_nil, false_implies, implies_true, and_true, hless,
    hequal, hgreater]
  cases o with
  | lt => exact ⟨.less, by decide, rfl, rfl, rfl⟩
  | eq => exact ⟨.equal, by decide, rfl, rfl, rfl⟩
  | gt => exact ⟨.greater, by decide, rfl, rfl, rfl⟩

theorem relates_lessEqual_iff :
    Relates .lessEqual a b ↔ Relates .less a b ∨ Comparable a b ∧ Relates .equal a b := by
  by_cases h : Comparable a b
  · obtain ⟨o, ho⟩ := h.exists_compare?
    obtain ⟨hless, hequal, -, hle⟩ := binary_of_compare? ho
    simp only [Relates, hless, hequal, hle, h, true_and, boolean.injEq]
    cases o <;> decide
  · have hnone := binary_of_not_comparable h
    simp only [Relates, hnone .less (by decide), hnone .lessEqual (by decide), h, false_and,
      or_false]

theorem relates_less_string_iff {s t : String} : Relates .less (string s) (string t) ↔ s < t :=
  relates_less_iff.trans (Option.some_inj.trans compare_lt_iff_lt)

theorem relates_less_number_iff (hx : x.isNaN = false) (hy : y.isNaN = false) :
    Relates .less (number x) (number y) ↔ x.key < y.key :=
  relates_less_iff.trans (Number.compare?_eq_lt_iff hx hy)

/-- **The relational operators agree with one another.**  Exchanging the operands exchanges `<`
with `>` and `<=` with `>=`; `<=` is `<` or, between values that have an order, `==`; of `<`, `==`
and `>` exactly one gives `true` for such values, and all four operators give `false` for others;
and `<` is transitive.  Strings are ordered by the code points of their characters, which is the
order of their bytes, and a string is behind what it begins with.  Numbers are ordered by their
exact values, between the two infinities. -/
theorem relational_coherent :
    (∀ a b : Value,
      binary .less a b = binary .greater b a ∧ binary .lessEqual a b = binary .greaterEqual b a ∧
      (Relates .lessEqual a b ↔ Relates .less a b ∨ Comparable a b ∧ Relates .equal a b) ∧
      (Comparable a b → ∃ o ∈ [BinaryOp.less, .equal, .greater],
        ∀ op ∈ [BinaryOp.less, .equal, .greater], binary op a b = boolean (op = o)) ∧
      (¬Comparable a b → ∀ op ∈ [BinaryOp.less, .greater, .lessEqual, .greaterEqual],
        binary op a b = boolean false)) ∧
    (∀ a b c : Value, Relates .less a b → Relates .less b c → Relates .less a c) ∧
    (∀ s t : String,
      (Relates .less (string s) (string t) ↔
        s.toList.map Char.toNat < t.toList.map Char.toNat) ∧
      (Relates .less (string s) (string t) ↔ s.toUTF8.data.toList < t.toUTF8.data.toList) ∧
      (s.toList <+: t.toList → s ≠ t → Relates .less (string s) (string t))) ∧
    (∀ (x y : Number) (p q : ℚ), x.rational? = some p → y.rational? = some q →
      (Relates .less (number x) (number y) ↔ p < q)) ∧
    (∀ x : Number, x.isFinite = true → Relates .less (number .negativeInfinity) (number x) ∧
      Relates .less (number x) (number .infinity)) := by
  refine ⟨fun a b => ⟨?_, ?_, relates_lessEqual_iff, Comparable.trichotomy,
    binary_of_not_comparable⟩, fun a b c hab hbc => ?_, fun s t => ⟨?_, ?_, fun h hne => ?_⟩,
    fun x y p q hx hy => ?_, fun x hx => ?_⟩
  · exact ordered_swap a b fun o => by cases o <;> rfl
  · exact ordered_swap a b fun o => by cases o <;> rfl
  · exact relates_less_iff.mpr
      (compare?_lt_trans (relates_less_iff.mp hab) (relates_less_iff.mp hbc))
  · exact relates_less_string_iff.trans Text.codePoints_lt_iff.symm
  · exact relates_less_string_iff.trans Text.toUTF8_lt_iff.symm
  · exact relates_less_string_iff.mpr (Text.lt_of_isPrefix h hne)
  · have hxnan := Number.isNaN_of_isFinite (Number.isFinite_of_rational? hx)
    have hynan := Number.isNaN_of_isFinite (Number.isFinite_of_rational? hy)
    exact (relates_less_number_iff hxnan hynan).trans (Number.key_lt_iff hx hy)
  · have hnan := Number.isNaN_of_isFinite hx
    exact ⟨(relates_less_number_iff rfl hnan).mpr (Number.negativeInfinity_key_lt hx),
      (relates_less_number_iff hnan rfl).mpr (Number.key_lt_infinity hx)⟩

/-- Characters of one, two, three and four bytes, one after the other; a text and one that it
begins; the two zeros, a NaN with itself, a number below zero and one below infinity. -/
theorem relational_coherent_scalars :
    Relates .less (string "z") (string "é") ∧ Relates .less (string "é") (string "\uffff") ∧
    Relates .less (string "\uffff") (string "😀") ∧ Relates .less (string "z") (string "\uffff") ∧
    Relates .less (string "é") (string "éz") ∧
    (∃ o ∈ [BinaryOp.less, .equal, .greater], ∀ op ∈ [BinaryOp.less, .equal, .greater],
      binary op (number .zero) (number Number.zero.neg) = boolean (op = o)) ∧
    binary .lessEqual (number .nan) (number .nan) = boolean false ∧
    Relates .less (number ⟨0xC000000000000000⟩) (number Number.zero.neg) ∧
    Relates .less (number .one) (number .infinity) := by
  have htwo : Number.rational? ⟨0xC000000000000000⟩ = some (-2 : ℚ) := by
    have hexponent : Number.exponentField ⟨0xC000000000000000⟩ = 1024 := rfl
    have hfraction : Number.fractionField ⟨0xC000000000000000⟩ = 0 := rfl
    have hsign : 2 ^ 63 ≤ (0xC000000000000000 : UInt64).toNat := by decide
    simp only [Number.rational?, hexponent, hfraction, if_pos hsign]
    norm_num
  have hzero : Number.zero.neg.rational? = some ((0 : ℕ) : ℚ) :=
    Number.rational?_eq_zero_iff.mpr rfl
  have hnan : ¬Comparable (number .nan) (number .nan) := by
    rintro ⟨left, -⟩
    exact absurd left (by decide)
  obtain ⟨hpair, htrans, hstrings, hnumbers, hinfinite⟩ := relational_coherent
  have hfirst : Relates .less (string "z") (string "é") := (hstrings _ _).1.mpr (by decide)
  have hsecond : Relates .less (string "é") (string "\uffff") := (hstrings _ _).1.mpr (by decide)
  refine ⟨hfirst, hsecond, (hstrings _ _).2.1.mpr ?_, htrans _ _ _ hfirst hsecond,
    (hstrings _ _).2.2 ?_ ?_, (hpair _ _).2.2.2.1 (.numbers rfl rfl), (hpair _ _).2.2.2.2 hnan _ ?_,
    (hnumbers _ _ _ _ htwo hzero).mpr ?_, (hinfinite _ rfl).2⟩
  · decide
  · decide
  · decide
  · decide
  · norm_num

end Script.Value
