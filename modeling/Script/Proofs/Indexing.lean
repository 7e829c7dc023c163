import Mathlib.Tactic.NormNum
import Script.Proofs.Number.Exact
import Script.Value.Operators

/-!
# Indexing is exact

Arrays and strings are read by index.  A number is an index by its exact value alone: it reads the
element that is counted by it, and if it counts none, for whatever reason, the member is
`undefined`.  `Value.elements?` says what the indices of a value count.
-/

namespace Script.Value

variable {target : Value} {vs : List Value}

/-- What the indices of a value count: the elements of an array, or the characters of a string, each
of them as a string. -/
def elements? : Value → Option (List Value)
  | array _ vs => some vs
  | string s => some (s.toList.map fun c => string (String.singleton c))
  | _ => none

theorem member?_number (h : target.elements? = some vs) (x : Number) :
    target.member? (number x) = some ((x.toIndex?.bind fun i => vs[i]?).getD undefined) := by
  cases target with
  | array identity elements =>
    cases h
    rfl
  | string s =>
    cases h
    have hmember : (string s).member? (number x) = some (((x.toIndex?.bind fun i =>
        s.toList[i]?).map fun c => string (String.singleton c)).getD undefined) := rfl
    rw [hmember, Option.map_bind]
    simp only [Function.comp_def, List.getElem?_map]
  | _ => cases h

theorem member?_length (h : target.elements? = some vs) :
    target.member? (string "length") = some (number (.ofLength vs.length)) := by
  cases target with
  | array identity elements =>
    cases h
    rfl
  | string s =>
    cases h
    rw [List.length_map]
    rfl
  | _ => cases h

/-- **An index reads what it counts, and nothing else does.**  Of an array or a string that is not
too long for its length to be a number, a key that is exactly the number `i` reads the element that
is counted by `i`; any other number reads `undefined`; and the length is exact.  The numbers that
are indices are told apart by what they count, but for the two zeros, which both count the first
element. -/
theorem member?_exact :
    (∀ (target : Value) (vs : List Value), target.elements? = some vs →
      vs.length ≤ Number.maxSafe →
      (∀ (x : Number) (i : Nat) (v : Value), x.rational? = some (i : ℚ) → vs[i]? = some v →
        target.member? (number x) = some v) ∧
      (∀ x : Number, (∀ i < vs.length, x.rational? ≠ some (i : ℚ)) →
        target.member? (number x) = some undefined) ∧
      ∃ n : Number, target.member? (string "length") = some (number n) ∧
        n.rational? = some (vs.length : ℚ)) ∧
    (∀ (x : Number) (i : Nat),
      x.toIndex? = some i ↔ x.rational? = some (i : ℚ) ∧ i ≤ Number.maxSafe) ∧
    (∀ i ≤ Number.maxSafe, (Number.ofLength i).toIndex? = some i) ∧
    (∀ x : Number, x.toIndex? = some 0 ↔ x = .zero ∨ x = .neg .zero) ∧
    (∀ (x y : Number) (i : Nat), x.toIndex? = some i → y.toIndex? = some i →
      x = y ∨ i = 0) := by
  refine ⟨fun target vs h hlength => ⟨fun x i v hx hv => ?_, fun x hx => ?_, ?_⟩,
    fun x i => Number.toIndex?_eq_some_iff,
    fun i hi => Number.toIndex?_eq_some_iff.mpr ⟨Number.rational?_ofLength hi, hi⟩,
    fun x => ?_, fun x y i hx hy => ?_⟩
  · have hlt : i < vs.length := (List.getElem?_eq_some_iff.mp hv).1
    have hindex : x.toIndex? = some i :=
      Number.toIndex?_eq_some_iff.mpr ⟨hx, Nat.le_of_lt (Nat.lt_of_lt_of_le hlt hlength)⟩
    rw [member?_number h, hindex, Option.bind_some, hv, Option.getD_some]
  · rw [member?_number h]
    cases hindex : x.toIndex? with
    | none => rfl
    | some i =>
      have hle : vs.length ≤ i :=
        Nat.le_of_not_lt fun hlt => hx i hlt (Number.toIndex?_eq_some_iff.mp hindex).1
      rw [Option.bind_some, List.getElem?_eq_none hle, Option.getD_none]
  · exact ⟨_, member?_length h, Number.rational?_ofLength hlength⟩
  · rw [Number.toIndex?_eq_some_iff, Number.rational?_eq_zero_iff, Number.isZero_iff_eq]
    exact and_iff_left (Nat.zero_le _)
  · obtain ⟨hx, -⟩ := Number.toIndex?_eq_some_iff.mp hx
    obtain ⟨hy, -⟩ := Number.toIndex?_eq_some_iff.mp hy
    refine (Number.eq_or_isZero_of_rational? hx hy).imp id fun hzero => ?_
    rw [Number.rational?_eq_zero_iff.mpr hzero.1, Option.some_inj, Nat.cast_inj] at hx
    exact hx.symm

/-- Of a text with characters of one, two and four bytes: two is the third character, the negative
zero the first, and one and a half is none. -/
theorem member?_exact_characters :
    (string "aé😀").member? (number ⟨0x4000000000000000⟩) = some (string "😀") ∧
    (string "aé😀").member? (number ⟨0x8000000000000000⟩) = some (string "a") ∧
    (string "aé😀").member? (number ⟨0x3ff8000000000000⟩) = some undefined ∧
    (∃ n : Number, (string "aé😀").member? (string "length") = some (number n) ∧
      n.rational? = some 3) ∧
    Number.ofLength 2 = ⟨0x4000000000000000⟩ := by
  have helements : (string "aé😀").elements? =
      some [string "a", string "é", string "😀"] := rfl
  have hlength : [string "a", string "é", string "😀"].length ≤ Number.maxSafe := by decide
  have htwo : Number.rational? ⟨0x4000000000000000⟩ = some ((2 : ℕ) : ℚ) := by
    have hexponent : Number.exponentField ⟨0x4000000000000000⟩ = 1024 := rfl
    have hfraction : Number.fractionField ⟨0x4000000000000000⟩ = 0 := rfl
    have hsign : ¬ 2 ^ 63 ≤ (0x4000000000000000 : UInt64).toNat := by decide
    simp only [Number.rational?, hexponent, hfraction, if_neg hsign]
    norm_num
  have hzero : Number.rational? ⟨0x8000000000000000⟩ = some ((0 : ℕ) : ℚ) :=
    Number.rational?_eq_zero_iff.mpr rfl
  have hhalf : Number.rational? ⟨0x3ff8000000000000⟩ = some (3 / 2 : ℚ) := by
    have hexponent : Number.exponentField ⟨0x3ff8000000000000⟩ = 1023 := rfl
    have hfraction : Number.fractionField ⟨0x3ff8000000000000⟩ = 2 ^ 51 := rfl
    have hsign : ¬ 2 ^ 63 ≤ (0x3ff8000000000000 : UInt64).toNat := by decide
    simp only [Number.rational?, hexponent, hfraction, if_neg hsign]
    norm_num
  obtain ⟨hread, hnone, n, hn, hcount⟩ := member?_exact.1 _ _ helements hlength
  refine ⟨hread _ 2 _ htwo rfl, hread _ 0 _ hzero rfl, hnone _ fun i _ => ?_, ⟨n, hn, ?_⟩, ?_⟩
  · rw [hhalf, Ne, Option.some_inj, div_eq_iff two_ne_zero]
    norm_cast
    omega
  · exact hcount
  · have hsafe : 2 ≤ Number.maxSafe := by decide
    exact (member?_exact.2.2.2.2 _ _ 2 (member?_exact.2.2.1 2 hsafe)
      ((member?_exact.2.1 _ 2).mpr ⟨htwo, hsafe⟩)).resolve_right two_ne_zero

end Script.Value
