import Mathlib.Algebra.Order.Field.Basic
import Mathlib.Data.Rat.Cast.Order
import Mathlib.Tactic.Ring
import Script.Number.Index
import Script.Proofs.Number.ReadBack

/-!
# The exact value of a number

The 64 bits of a number are a sign, an exponent and a fraction, and the standard says which rational
number a finite one stands for (`rational?`).  `scaled`, with which all exact arithmetic is done, is
that value in units of `2 ^ -1074` (`rational?_of_isFinite`).  It grows with the magnitude bits, so
the key of a number orders it by its exact value (`key_lt_iff`), and two numbers of one exact value
are the same but for the zeros (`eq_or_isZero_of_rational?`).  The index that a number denotes is
its exact value (`toIndex?_eq_some_iff`), and a length is a number that has it for its exact value
(`rational?_ofLength`).
-/

namespace Script.Number

variable {x y : Number} {i n : Nat}

/-- The exponent, as it stands in the bits. -/
def exponentField (x : Number) : Nat := x.bits.toNat / 2 ^ 52 % 2 ^ 11

/-- The fraction, as it stands in the bits. -/
def fractionField (x : Number) : Nat := x.bits.toNat % 2 ^ 52

/-- The rational number that a number stands for, by the fields of its bits.  The exponent 2047 is
that of the infinities and of NaN, which stand for none. -/
def rational? (x : Number) : Option ℚ :=
  if x.exponentField = 2047 then none
  else
    let size : ℚ :=
      if x.exponentField = 0 then x.fractionField * 2 ^ (-1074 : ℤ)
      else (2 ^ 52 + x.fractionField) * 2 ^ ((x.exponentField : ℤ) - 1075)
    some (if 2 ^ 63 ≤ x.bits.toNat then -size else size)

/-! ## In units of the least positive number -/

theorem magnitude_div (x : Number) : x.magnitude / fractionSize = x.exponentField := by
  simp only [magnitude, signBit, fractionSize, exponentField]
  omega

theorem magnitude_mod (x : Number) : x.magnitude % fractionSize = x.fractionField := by
  simp only [magnitude, signBit, fractionSize, fractionField]
  omega

theorem isFinite_iff_exponentField : x.isFinite = true ↔ x.exponentField ≠ 2047 := by
  rw [isFinite_iff, ← magnitude_div]
  simp only [magnitude, infiniteMagnitude, signBit, fractionSize]
  omega

theorem unitsPerOne_eq : unitsPerOne = Nat.pow 2 1074 := by
  unfold unitsPerOne
  rfl

theorem unitsPerOne_pos : 0 < unitsPerOne := by
  have hpos : ∀ n, 0 < Nat.pow 2 n := fun n => Nat.two_pow_pos n
  rw [unitsPerOne_eq]
  exact hpos 1074

theorem unitsPerOne_ne_zero : (unitsPerOne : ℚ) ≠ 0 :=
  Nat.cast_ne_zero.mpr (Nat.ne_of_gt unitsPerOne_pos)

/-- The absolute value over a power of two, by the fields of the bits. -/
theorem scaled_div_two_pow (x : Number) (n : Nat) :
    (x.scaled / (2 ^ n : ℕ) : ℚ) =
      (if x.exponentField = 0 then x.fractionField * 2 ^ (-n : ℤ)
      else (2 ^ 52 + x.fractionField) * 2 ^ ((x.exponentField : ℤ) - (n + 1 : ℕ)) : ℚ) := by
  rw [scaled, magnitude_div, magnitude_mod]
  split_ifs with hexponent
  · rw [Nat.cast_pow, zpow_neg, zpow_natCast, div_eq_mul_inv]
    rfl
  · obtain ⟨e, he⟩ := Nat.exists_eq_succ_of_ne_zero hexponent
    have hpower : (2 : ℚ) ^ ((x.exponentField : ℤ) - (n + 1 : ℕ)) = 2 ^ e / 2 ^ n := by
      rw [he, ← zpow_natCast, ← zpow_natCast, ← zpow_sub₀ two_ne_zero]
      congr 1
      push_cast
      ring
    rw [hpower, he]
    simp only [fractionSize, Nat.succ_eq_add_one, Nat.add_sub_cancel, Nat.pow_eq]
    push_cast
    ring

/-- How many units of `2 ^ -1074` a finite number is, with its sign. -/
def units (x : Number) : ℤ := if x.isNegative then -(x.scaled : ℤ) else x.scaled

-- The exponent is a variable here, since `2 ^ 1074` would be computed.
theorem rational?_of_unitsPerOne {n : Nat} (hunits : unitsPerOne = Nat.pow 2 n) (hn : n = 1074)
    (h : x.isFinite = true) : x.rational? = some (x.units / unitsPerOne : ℚ) := by
  have hsize := x.scaled_div_two_pow n
  have hpower : 2 ^ n = unitsPerOne := hunits.symm
  have hleast : -(n : ℤ) = -1074 := by omega
  have hother : ((n + 1 : ℕ) : ℤ) = 1075 := by omega
  have hsign : 2 ^ 63 ≤ x.bits.toNat ↔ x.isNegative = true := isNegative_iff.symm
  rw [hpower, hleast, hother] at hsize
  rw [rational?, if_neg (isFinite_iff_exponentField.mp h), ← hsize, units]
  simp only [hsign]
  split_ifs
  · rw [Int.cast_neg, neg_div, Int.cast_natCast]
  · rw [Int.cast_natCast]

/-- **A finite number stands for so many units.** -/
theorem rational?_of_isFinite (h : x.isFinite = true) :
    x.rational? = some (x.units / unitsPerOne : ℚ) :=
  rational?_of_unitsPerOne unitsPerOne_eq rfl h

theorem rational?_eq_none_iff : x.rational? = none ↔ x.isFinite = false := by
  rw [← Bool.not_eq_true, isFinite_iff_exponentField, rational?]
  split_ifs with h <;> simp [h]

theorem isFinite_of_rational? {q : ℚ} (h : x.rational? = some q) : x.isFinite = true := by
  by_contra hne
  rw [rational?_eq_none_iff.mpr (Bool.eq_false_iff.mpr hne)] at h
  cases h

theorem isNaN_of_isFinite (h : x.isFinite = true) : x.isNaN = false :=
  decide_eq_false (Nat.not_lt.mpr (isFinite_iff.mp h).le)

theorem isZero_iff : x.isZero = true ↔ x.magnitude = 0 := decide_eq_true_iff

theorem scaled_eq_zero_iff : x.scaled = 0 ↔ x.isZero = true := by
  constructor
  · intro h
    by_contra hne
    exact scaled_ne_zero (Bool.eq_false_iff.mpr hne) h
  · intro h
    rw [scaled, isZero_iff.mp h]
    rfl

/-! ## Order -/

theorem scaled_lt_two_pow (x : Number) : x.scaled < fractionSize * 2 ^ x.exponentField := by
  have hfraction : x.fractionField < fractionSize := Nat.mod_lt _ (by decide)
  rw [scaled, magnitude_div, magnitude_mod]
  split_ifs with hexponent
  · rw [hexponent]
    exact hfraction
  · obtain ⟨e, he⟩ := Nat.exists_eq_succ_of_ne_zero hexponent
    rw [he, Nat.succ_sub_one, Nat.pow_succ', ← Nat.mul_assoc, Nat.mul_comm fractionSize]
    exact Nat.mul_lt_mul_of_pos_right (by omega) (Nat.two_pow_pos e)

theorem two_pow_le_scaled {e : Nat} (h : e < x.exponentField) :
    fractionSize * 2 ^ e ≤ x.scaled := by
  rw [scaled, magnitude_div, if_neg (Nat.ne_zero_of_lt h)]
  exact Nat.mul_le_mul (Nat.le_add_right _ _)
    (Nat.pow_le_pow_right Nat.two_pos (Nat.le_sub_one_of_lt h))

/-- The absolute value grows with the magnitude bits.  A greater exponent is worth more than any
fraction. -/
theorem scaled_lt (h : x.magnitude < y.magnitude) : x.scaled < y.scaled := by
  rcases Nat.lt_or_eq_of_le (Nat.div_le_div_right h.le) with hlt | heq
  · rw [magnitude_div, magnitude_div] at hlt
    exact Nat.lt_of_lt_of_le x.scaled_lt_two_pow (two_pow_le_scaled hlt)
  · have hfraction : x.magnitude % fractionSize < y.magnitude % fractionSize := by
      rw [fractionSize] at heq ⊢
      omega
    rw [scaled, scaled, heq]
    split_ifs
    · exact hfraction
    · exact Nat.mul_lt_mul_of_pos_right (Nat.add_lt_add_left hfraction _) (Nat.two_pow_pos _)

theorem scaled_lt_iff : x.scaled < y.scaled ↔ x.magnitude < y.magnitude := by
  constructor
  · intro h
    rcases Nat.lt_trichotomy x.magnitude y.magnitude with hlt | heq | hgt
    · exact hlt
    · rw [scaled, scaled, heq] at h
      exact absurd h (Nat.lt_irrefl _)
    · exact absurd h (scaled_lt hgt).asymm
  · exact scaled_lt

theorem units_lt_iff : x.units < y.units ↔ x.key < y.key := by
  have hxy := scaled_lt_iff (x := x) (y := y)
  have hyx := scaled_lt_iff (x := y) (y := x)
  have hx := scaled_eq_zero_iff.trans (isZero_iff (x := x))
  have hy := scaled_eq_zero_iff.trans (isZero_iff (x := y))
  rw [units, units, key, key]
  split_ifs <;> omega

/-- **Numbers are ordered as their exact values are.** -/
theorem key_lt_iff {p q : ℚ} (hx : x.rational? = some p) (hy : y.rational? = some q) :
    x.key < y.key ↔ p < q := by
  rw [rational?_of_isFinite (isFinite_of_rational? hx), Option.some_inj] at hx
  rw [rational?_of_isFinite (isFinite_of_rational? hy), Option.some_inj] at hy
  rw [← hx, ← hy, div_lt_div_iff_of_pos_right (Nat.cast_pos.mpr unitsPerOne_pos), Int.cast_lt,
    units_lt_iff]

theorem key_lt_infinity (h : x.isFinite = true) : x.key < infinity.key := by
  have hlt := isFinite_iff.mp h
  have hkey : infinity.key = infiniteMagnitude := rfl
  rw [hkey, key]
  split <;> omega

theorem negativeInfinity_key_lt (h : x.isFinite = true) : negativeInfinity.key < x.key := by
  have hlt := isFinite_iff.mp h
  have hkey : negativeInfinity.key = -infiniteMagnitude := rfl
  rw [hkey, key]
  split <;> omega

/-! ## Numbers of one exact value -/

theorem magnitude_of_scaled (h : x.scaled = y.scaled) : x.magnitude = y.magnitude := by
  rcases Nat.lt_trichotomy x.magnitude y.magnitude with hlt | heq | hgt
  · exact absurd h (scaled_lt hlt).ne
  · exact heq
  · exact absurd h (scaled_lt hgt).ne'

theorem scaled_of_units (h : x.units = y.units) :
    x.scaled = y.scaled ∧ (x.scaled = 0 ∨ x.isNegative = y.isNegative) := by
  simp only [units] at h
  split_ifs at h with hx hy hy
  · exact ⟨by omega, .inr (hx.trans hy.symm)⟩
  · exact ⟨by omega, .inl (by omega)⟩
  · exact ⟨by omega, .inl (by omega)⟩
  · exact ⟨by omega, .inr ((Bool.eq_false_iff.mpr hx).trans (Bool.eq_false_iff.mpr hy).symm)⟩

/-- **Numbers of one exact value are the same,** unless they are the two zeros. -/
theorem eq_or_isZero_of_rational? {q : ℚ} (hx : x.rational? = some q) (hy : y.rational? = some q) :
    x = y ∨ x.isZero = true ∧ y.isZero = true := by
  have hxf := isFinite_of_rational? hx
  have hyf := isFinite_of_rational? hy
  have hunits := hx.trans hy.symm
  rw [rational?_of_isFinite hxf, rational?_of_isFinite hyf, Option.some_inj,
    div_left_inj' unitsPerOne_ne_zero, Int.cast_inj] at hunits
  obtain ⟨hscaled, hzero | hsign⟩ := scaled_of_units hunits
  · exact .inr ⟨scaled_eq_zero_iff.mp hzero, scaled_eq_zero_iff.mp (hscaled ▸ hzero)⟩
  · left
    rw [← ofMagnitude_self hxf, ← ofMagnitude_self hyf, hsign, magnitude_of_scaled hscaled]

/-- The two zeros. -/
theorem isZero_iff_eq : x.isZero = true ↔ x = zero ∨ x = zero.neg := by
  rw [isZero_iff]
  constructor
  · intro h
    have hlt := x.bits.toNat_lt
    rw [magnitude, signBit] at h
    by_cases hzero : x.bits.toNat = 0
    · exact .inl (ext_toNat hzero)
    · refine .inr (ext_toNat (show x.bits.toNat = 0x8000000000000000 from ?_))
      omega
  · rintro (rfl | rfl) <;> rfl

/-! ## Natural numbers -/

theorem rational?_eq_natCast_iff : x.rational? = some (i : ℚ) ↔
    x.isFinite = true ∧ (x.isNegative = true → x.isZero = true) ∧ x.scaled = i * unitsPerOne := by
  cases hfinite : x.isFinite with
  | false => simp [rational?_eq_none_iff.mpr hfinite]
  | true =>
    have hvalue : (x.units / unitsPerOne : ℚ) = i ↔ x.units = (i * unitsPerOne : ℕ) := by
      rw [div_eq_iff unitsPerOne_ne_zero]
      exact_mod_cast Iff.rfl
    rw [rational?_of_isFinite hfinite, Option.some_inj, hvalue, ← scaled_eq_zero_iff, units]
    generalize i * unitsPerOne = m
    split_ifs with hnegative
    · simp only [hnegative, true_and, forall_const]
      omega
    · simp only [hnegative, true_and, Bool.false_eq_true, false_implies]
      omega

theorem rational?_eq_zero_iff : x.rational? = some ((0 : ℕ) : ℚ) ↔ x.isZero = true := by
  rw [rational?_eq_natCast_iff, Nat.zero_mul, scaled_eq_zero_iff]
  constructor
  · exact fun h => h.2.2
  · intro h
    have hfinite : x.isFinite = true := by
      rw [isFinite_iff, isZero_iff.mp h]
      decide
    exact ⟨hfinite, fun _ => h, h⟩

/-- **The index that a number denotes is its exact value.** -/
theorem toIndex?_eq_some_iff :
    x.toIndex? = some i ↔ x.rational? = some (i : ℚ) ∧ i ≤ maxSafe := by
  have hwhole : x.scaled = i * unitsPerOne ↔
      x.scaled % unitsPerOne = 0 ∧ x.scaled / unitsPerOne = i := by
    constructor
    · intro h
      rw [h]
      exact ⟨Nat.mul_mod_left _ _, Nat.mul_div_cancel _ unitsPerOne_pos⟩
    · rintro ⟨hmod, rfl⟩
      exact (Nat.div_mul_cancel (Nat.dvd_of_mod_eq_zero hmod)).symm
  rw [rational?_eq_natCast_iff, toIndex?, Option.ite_none_right_eq_some, Option.some_inj, hwhole]
  constructor
  · rintro ⟨⟨hfinite, hsign, hmod, hle⟩, hi⟩
    exact ⟨⟨hfinite, hsign, hmod, hi⟩, hi ▸ hle⟩
  · rintro ⟨⟨hfinite, hsign, hmod, hi⟩, hle⟩
    exact ⟨⟨hfinite, hsign, hmod, hi.symm ▸ hle⟩, hi⟩

/-- A significand of 53 bits above an exponent. -/
theorem scaled_ofMagnitude (negative : Bool) {k m : Nat} (hleast : fractionSize ≤ m)
    (hmost : m < 2 * fractionSize) (hfinite : k * fractionSize + m < infiniteMagnitude) :
    (ofMagnitude negative (k * fractionSize + m)).scaled = m * 2 ^ k := by
  have hpos : 0 < fractionSize := by decide
  have hm : k * fractionSize + m = m - fractionSize + fractionSize * (k + 1) := by
    rw [Nat.mul_succ, Nat.mul_comm k]
    omega
  have hlt : m - fractionSize < fractionSize := by omega
  rw [scaled, magnitude_ofMagnitude, Nat.min_eq_left hfinite.le, hm, Nat.add_mul_div_left _ _ hpos,
    Nat.add_mul_mod_self_left, Nat.div_eq_of_lt hlt, Nat.mod_eq_of_lt hlt, Nat.zero_add,
    if_neg (Nat.succ_ne_zero k), Nat.add_sub_cancel, Nat.add_sub_of_le hleast]
  rfl

/-- A natural number of at most 53 bits, shifted until it has 53, is the significand of a number. -/
theorem exists_scaled_of_pow {u : Nat} (hunits : unitsPerOne = Nat.pow 2 u) (hleast : 52 ≤ u)
    (hmost : u ≤ 1074) (hn : n ≠ 0) (hle : n ≤ maxSafe) :
    ∃ x : Number, x.isFinite = true ∧ x.isNegative = false ∧ x.scaled = n * unitsPerOne := by
  have hlog : n.log2 < 53 := (Nat.log2_lt hn).mpr (Nat.lt_of_le_of_lt hle (by decide))
  obtain ⟨d, hd⟩ := Nat.exists_eq_add_of_le (Nat.le_of_lt_succ hlog)
  obtain ⟨k, hk⟩ := Nat.exists_eq_add_of_le (show d ≤ u by omega)
  have hsize : fractionSize = 2 ^ n.log2 * 2 ^ d := by
    rw [← Nat.pow_add, ← hd]
    rfl
  have hsignificand : fractionSize ≤ n * 2 ^ d := by
    rw [hsize]
    exact Nat.mul_le_mul_right _ (Nat.log2_self_le hn)
  have hbound : n * 2 ^ d < 2 * fractionSize := by
    rw [hsize, ← Nat.mul_assoc, Nat.mul_comm 2, ← Nat.pow_succ]
    exact Nat.mul_lt_mul_of_pos_right Nat.lt_log2_self (Nat.two_pow_pos d)
  have hfinite : k * fractionSize + n * 2 ^ d < infiniteMagnitude := by
    simp only [infiniteMagnitude, fractionSize] at hbound ⊢
    omega
  refine ⟨ofMagnitude false (k * fractionSize + n * 2 ^ d), ?_, isNegative_ofMagnitude _ _, ?_⟩
  · rw [isFinite_iff, magnitude_ofMagnitude, Nat.min_eq_left hfinite.le]
    exact hfinite
  · rw [scaled_ofMagnitude false hsignificand hbound hfinite, hunits, hk, Nat.mul_assoc,
      ← Nat.pow_add, Nat.pow_eq]

theorem exists_scaled (h : n ≤ maxSafe) :
    ∃ x : Number, x.isFinite = true ∧ x.isNegative = false ∧ x.scaled = n * unitsPerOne := by
  by_cases hn : n = 0
  · subst hn
    exact ⟨zero, rfl, rfl, (Nat.zero_mul _).symm⟩
  · exact exists_scaled_of_pow unitsPerOne_eq (by decide) (by decide) hn h

/-- **A length is not rounded,** as long as it is at most `maxSafe`. -/
theorem rational?_ofLength (h : n ≤ maxSafe) : (ofLength n).rational? = some (n : ℚ) := by
  obtain ⟨x, hfinite, hsign, hscaled⟩ := exists_scaled h
  have hself : ofLength n = x := by
    rw [ofLength, Nat.min_eq_left h, ofNat,
      ofRatio_of_scaled false Nat.one_pos (hscaled.symm.trans (Nat.mul_one _).symm), ← hsign,
      ofMagnitude_self hfinite]
  rw [hself, rational?_eq_natCast_iff, hsign]
  exact ⟨hfinite, fun h => absurd h Bool.false_ne_true, hscaled⟩

end Script.Number
