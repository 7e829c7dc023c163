import Mathlib.Algebra.Group.Nat.Defs
import Script.Number.Written
import Script.Proofs.Lexer.Spelling

/-!
# Numbers read back

The digits that a finite number is written with spell its absolute value: read as a numeral they
round to the number again.  Two facts carry this.  A fraction that is a number is not rounded
(`ofRatio_of_scaled`), so the decimal with all digits of a number reads back, and with it whatever
the search for a shorter one comes to (`readsBack_shortest`).  And the positional form of a decimal
is a numeral for it (`spells_positional`), wherever the point stands.
-/

namespace Script

namespace Number

/-! ## Signs and magnitudes -/

theorem ext_toNat {x y : Number} (h : x.bits.toNat = y.bits.toNat) : x = y := by
  cases x
  cases y
  exact congrArg mk (UInt64.toNat_inj.mp h)

theorem toNat_ofMagnitude (negative : Bool) (m : Nat) : (ofMagnitude negative m).bits.toNat =
    (if negative then signBit else 0) + min m infiniteMagnitude := by
  rw [ofMagnitude, UInt64.toNat_ofNat']
  apply Nat.mod_eq_of_lt
  simp only [signBit, infiniteMagnitude, fractionSize]
  split <;> omega

theorem magnitude_ofMagnitude (negative : Bool) (m : Nat) :
    (ofMagnitude negative m).magnitude = min m infiniteMagnitude := by
  rw [magnitude, toNat_ofMagnitude]
  simp only [signBit, infiniteMagnitude, fractionSize]
  split <;> omega

theorem isNegative_iff {x : Number} : x.isNegative = true ↔ signBit ≤ x.bits.toNat :=
  decide_eq_true_iff

theorem isNegative_ofMagnitude (negative : Bool) (m : Nat) :
    (ofMagnitude negative m).isNegative = negative := by
  rw [Bool.eq_iff_iff, isNegative_iff, toNat_ofMagnitude]
  have hlt : infiniteMagnitude < signBit := by decide
  cases negative with
  | false =>
    simp only [Bool.false_eq_true, if_false, iff_false]
    omega
  | true =>
    simp only [if_true, iff_true]
    omega

theorem isFinite_iff {x : Number} : x.isFinite = true ↔ x.magnitude < infiniteMagnitude :=
  decide_eq_true_iff

/-- A finite number is made of its sign and its magnitude. -/
theorem ofMagnitude_self {x : Number} (h : x.isFinite = true) :
    ofMagnitude x.isNegative x.magnitude = x := by
  apply ext_toNat
  have hlt := x.bits.toNat_lt
  have hle : x.magnitude ≤ infiniteMagnitude := Nat.le_of_lt (isFinite_iff.mp h)
  rw [toNat_ofMagnitude, Nat.min_eq_left hle]
  simp only [isNegative_iff, magnitude, signBit]
  split <;> omega

/-- Setting a bit above all others adds it. -/
theorem xor_two_pow {a i : Nat} (h : a < 2 ^ i) : a ^^^ 2 ^ i = 2 ^ i + a := by
  have hdiv : (a ^^^ 2 ^ i) / 2 ^ i = 1 := by
    rw [Nat.xor_div_two_pow, Nat.div_eq_of_lt h, Nat.div_self (Nat.two_pow_pos i), Nat.zero_xor]
  have hmod : (a ^^^ 2 ^ i) % 2 ^ i = a := by
    rw [Nat.xor_mod_two_pow, Nat.mod_self, Nat.xor_zero, Nat.mod_eq_of_lt h]
  rw [← Nat.div_add_mod (a ^^^ 2 ^ i) (2 ^ i), hdiv, hmod, Nat.mul_one]

theorem neg_ofMagnitude (m : Nat) : (ofMagnitude false m).neg = ofMagnitude true m := by
  apply ext_toNat
  have hlt : (ofMagnitude false m).bits.toNat < 2 ^ 63 := by
    rw [toNat_ofMagnitude, if_neg Bool.false_ne_true]
    simp only [infiniteMagnitude, fractionSize]
    omega
  rw [neg, UInt64.toNat_xor]
  refine (xor_two_pow hlt).trans ?_
  rw [toNat_ofMagnitude, toNat_ofMagnitude, if_neg Bool.false_ne_true, if_pos rfl, Nat.zero_add]
  rfl

/-- The number without its sign. -/
def absolute (x : Number) : Number := ofMagnitude false x.magnitude

theorem absolute_ofMagnitude (negative : Bool) (m : Nat) :
    (ofMagnitude negative m).absolute = ofMagnitude false m := by
  apply ext_toNat
  rw [absolute, toNat_ofMagnitude, toNat_ofMagnitude, magnitude_ofMagnitude, Nat.min_assoc,
    Nat.min_self]

theorem magnitude_absolute {x : Number} (h : x.isFinite = true) :
    x.absolute.magnitude = x.magnitude := by
  rw [absolute, magnitude_ofMagnitude, Nat.min_eq_left (Nat.le_of_lt (isFinite_iff.mp h))]

theorem isFinite_absolute {x : Number} (h : x.isFinite = true) : x.absolute.isFinite = true := by
  rw [isFinite_iff, magnitude_absolute h]
  exact isFinite_iff.mp h

/-- Numbers with the same key are equal. -/
theorem eq_of_key {x y : Number} (hx : x.isFinite = true) (hy : y.isFinite = true)
    (h : x.key = y.key) : x.eq y = true := by
  rw [isFinite_iff] at hx hy
  have hnan : (x.isNaN || y.isNaN) = false := by
    rw [Bool.or_eq_false_iff, isNaN, isNaN, decide_eq_false_iff_not, decide_eq_false_iff_not]
    omega
  rw [eq, compare?, hnan, h]
  simp

/-- A number that is not below zero is equal to its absolute value. -/
theorem absolute_eq {x : Number} (h : x.isFinite = true)
    (hsign : ¬ (x.isNegative = true ∧ x.isZero = false)) : x.absolute.eq x = true := by
  apply eq_of_key (isFinite_absolute h) h
  rw [key, key, magnitude_absolute h, absolute, isNegative_ofMagnitude, if_neg Bool.false_ne_true]
  split
  · next hneg =>
    have hzero : x.magnitude = 0 := by simpa [isZero, hneg] using hsign
    rw [hzero]
    rfl
  · rfl

/-- A number below zero is the absolute value with the other sign. -/
theorem neg_absolute {x : Number} (h : x.isFinite = true) (hneg : x.isNegative = true) :
    x.absolute.neg = x := by
  rw [absolute, neg_ofMagnitude, ← hneg, ofMagnitude_self h]

/-! ## Exact fractions -/

theorem roundDiv_mul {q b : Nat} (h : 0 < b) : roundDiv (q * b) b = q := by
  simp only [roundDiv, Nat.mul_div_cancel q h, Nat.mul_mod_left, Nat.mul_zero, if_pos h]

/-- A significand of 53 bits decides the logarithm. -/
theorem log2_significand {m e : Nat} (hleast : 2 ^ 52 ≤ m) (hmost : m < 2 ^ 53) :
    (m * 2 ^ e).log2 = 52 + e := by
  have hpos := Nat.two_pow_pos e
  have hne : m * 2 ^ e ≠ 0 := Nat.mul_ne_zero (by omega) (Nat.ne_of_gt hpos)
  refine (Nat.log2_eq_iff hne).mpr ⟨?_, ?_⟩
  · rw [Nat.pow_add]
    exact Nat.mul_le_mul_right _ hleast
  · rw [Nat.add_right_comm, Nat.pow_add]
    exact Nat.mul_lt_mul_of_pos_right hmost hpos

/-- The significand of a finite number and the power of two behind it: the power is the number of
low bits that go when 53 are left, and both together make up the magnitude. -/
theorem scaled_split (x : Number) : ∃ significand,
    x.scaled = significand * 2 ^ (x.scaled.log2 - 52) ∧
      (x.scaled.log2 - 52) * fractionSize + significand = x.magnitude := by
  have hfraction : x.magnitude % fractionSize < fractionSize := Nat.mod_lt _ (by decide)
  have hparts := Nat.div_add_mod x.magnitude fractionSize
  by_cases hexponent : x.magnitude / fractionSize = 0
  · -- Below the least normal number no bits go.
    have hscaled : x.scaled = x.magnitude % fractionSize := if_pos hexponent
    have hlog : x.scaled.log2 - 52 = 0 := by
      by_cases hzero : x.scaled = 0
      · rw [hzero, Nat.log2_zero]
      · have hlt : x.scaled.log2 < 52 := (Nat.log2_lt hzero).mpr (hscaled ▸ hfraction)
        omega
    refine ⟨x.scaled, by rw [hlog, Nat.pow_zero, Nat.mul_one], ?_⟩
    rw [hexponent, Nat.mul_zero] at hparts
    rw [hlog, Nat.zero_mul, hscaled, hparts]
  · -- The leading bit, which the fraction leaves out, counts as one more in the exponent.
    obtain ⟨e, he⟩ := Nat.exists_eq_succ_of_ne_zero hexponent
    have hscaled : x.scaled = (fractionSize + x.magnitude % fractionSize) * 2 ^ e := by
      rw [scaled, if_neg hexponent, he]
      rfl
    have hlog : x.scaled.log2 = 52 + e := by
      rw [hscaled]
      refine log2_significand (Nat.le_add_right fractionSize _) ?_
      exact Nat.add_lt_add_left hfraction fractionSize
    have hk : x.scaled.log2 - 52 = e := by omega
    rw [hk]
    refine ⟨_, hscaled, ?_⟩
    rw [he, Nat.mul_succ] at hparts
    rw [← Nat.add_assoc, Nat.mul_comm e]
    exact hparts

/-- **A fraction that is a number is not rounded.** -/
theorem ofRatio_of_scaled {a b : Nat} {x : Number} (negative : Bool) (hb : 0 < b)
    (h : a * unitsPerOne = x.scaled * b) :
    ofRatio negative a b = ofMagnitude negative x.magnitude := by
  obtain ⟨significand, hsplit, hmagnitude⟩ := x.scaled_split
  rw [ofRatio, h, Nat.mul_div_cancel _ hb, ← hmagnitude]
  have hexact : x.scaled * b = significand * (b * Nat.pow 2 (x.scaled.log2 - 52)) := by
    calc x.scaled * b = significand * 2 ^ (x.scaled.log2 - 52) * b := by rw [← hsplit]
      _ = significand * (2 ^ (x.scaled.log2 - 52) * b) := Nat.mul_assoc _ _ _
      _ = significand * (b * Nat.pow 2 (x.scaled.log2 - 52)) := by
        rw [Nat.mul_comm _ b]
        rfl
  have hpos : 0 < b * Nat.pow 2 (x.scaled.log2 - 52) := Nat.mul_pos hb (Nat.two_pow_pos _)
  rw [hexact, roundDiv_mul hpos]

/-! ## Decimals -/

/-- Without its sign a decimal reads as the absolute value. -/
theorem absolute_ofDecimal (negative : Bool) (c : Nat) (e : Int) :
    (ofDecimal negative c e).absolute = ofDecimal false c e := by
  unfold ofDecimal
  split_ifs <;> exact absolute_ofMagnitude negative _

/-- A finite number over a power of two is a decimal over the same power of ten. -/
theorem ofDecimal_of_scaled {x : Number} {n : Nat} (h : x.isFinite = true) (hne : x.scaled ≠ 0)
    (hn : 0 < n) (hunits : unitsPerOne = Nat.pow 2 n) :
    ofDecimal x.isNegative (x.scaled * Nat.pow 5 n) (-(n : Int)) = x := by
  simp only [Nat.pow_eq] at hunits ⊢
  have hpos : 0 < x.scaled := Nat.pos_of_ne_zero hne
  have hcoefficient : x.scaled * 5 ^ n ≠ 0 :=
    Nat.ne_of_gt (Nat.mul_pos hpos (Nat.pow_pos (by decide)))
  have hlog : n ≤ (x.scaled * 5 ^ n).log2 := by
    rw [Nat.le_log2 hcoefficient]
    calc 2 ^ n ≤ 5 ^ n := Nat.pow_le_pow_left (by decide) n
      _ ≤ x.scaled * 5 ^ n := Nat.le_mul_of_pos_left _ hpos
  have hexact : x.scaled * 5 ^ n * unitsPerOne = x.scaled * 10 ^ n := by
    rw [hunits, Nat.mul_assoc, ← Nat.mul_pow]
  have hpower : (- -(n : Int)).toNat = n := by omega
  rw [ofDecimal, if_neg hcoefficient, if_neg (by omega), if_neg (by omega), if_neg (by omega),
    hpower]
  exact (ofRatio_of_scaled x.isNegative (Nat.pow_pos (by decide)) hexact).trans
    (ofMagnitude_self h)

/-- The decimal with all digits of a finite number reads back. -/
theorem readsBack_exactDecimal {x : Number} (h : x.isFinite = true) (hne : x.scaled ≠ 0) :
    x.ReadsBack x.exactDecimal := by
  have hunits : unitsPerOne = Nat.pow 2 1074 := by
    unfold unitsPerOne
    rfl
  have hread := ofDecimal_of_scaled h hne (by decide) hunits
  dsimp only [ReadsBack, exactDecimal]
  exact hread

/-- However long the search goes on, what it comes to reads back. -/
theorem readsBack_searchShortest {x : Number} (hexact : x.ReadsBack x.exactDecimal) (tries : Nat)
    (exponent : Int) : x.ReadsBack (x.searchShortest tries exponent) := by
  induction tries generalizing exponent with
  | zero => exact hexact
  | succ tries ih =>
    simp only [searchShortest]
    split_ifs with hlower hupper hupper
    · exact hupper.1
    · exact hlower
    · exact hupper
    · exact ih (exponent - 1)

theorem scaled_ne_zero {x : Number} (h : x.isZero = false) : x.scaled ≠ 0 := by
  obtain ⟨significand, hsplit, hmagnitude⟩ := x.scaled_split
  intro hzero
  have hnonzero : x.magnitude ≠ 0 := of_decide_eq_false h
  rw [hzero, Nat.log2_zero] at hsplit hmagnitude
  omega

theorem readsBack_shortest {x : Number} (h : x.isFinite = true) (hne : x.isZero = false) :
    x.ReadsBack x.shortest :=
  readsBack_searchShortest (readsBack_exactDecimal h (scaled_ne_zero hne)) _ _

/-- Zeros behind the digits of a finite number are as good as a power of ten. -/
theorem ofDecimal_shift {c : Nat} {e : Int} (h : (ofDecimal false c e).isFinite = true)
    (he : 0 ≤ e) : ofDecimal false (c * 10 ^ e.toNat) 0 = ofDecimal false c e := by
  by_cases hc : c = 0
  · rw [hc, Nat.zero_mul, ofDecimal, ofDecimal, if_pos rfl, if_pos rfl]
  have hmost : ¬ 400 < e := by
    intro hlt
    rw [ofDecimal, if_neg hc, if_pos hlt] at h
    revert h
    decide
  have hpower : c * 10 ^ e.toNat ≠ 0 := Nat.mul_ne_zero hc (Nat.ne_of_gt (Nat.pow_pos (by decide)))
  rw [ofDecimal, if_neg hpower, if_neg (by decide), if_neg (by omega), if_pos (Int.le_refl 0),
    ofDecimal, if_neg hc, if_neg hmost, if_neg (by omega), if_pos he]
  exact congrArg (ofRatio false · 1) (Nat.mul_one _)

end Number

/-! ## Positional digits -/

theorem appendDigits_append (n : Nat) (cs ds : List Char) :
    appendDigits n (cs ++ ds) = appendDigits (appendDigits n cs) ds :=
  List.foldl_append

theorem appendDigits_zeros (n k : Nat) :
    appendDigits n (List.replicate k '0') = n * 10 ^ k := by
  induction k generalizing n with
  | zero => exact (Nat.mul_one n).symm
  | succ k ih =>
    rw [List.replicate_succ, appendDigits, List.foldl_cons]
    refine (ih (10 * n)).trans ?_
    rw [Nat.mul_comm 10, Nat.mul_assoc, Nat.pow_succ']

/-- The digits of a number stand for it. -/
theorem appendDigits_toDigits (c : Nat) : appendDigits 0 (Nat.toDigits 10 c) = c :=
  Nat.ofDigitChars_toDigits (by decide) (by decide)

theorem isDigit_of_mem_zeros {k : Nat} {d : Char} (h : d ∈ List.replicate k '0') :
    d.isDigit = true := by
  rw [List.eq_of_mem_replicate h]
  rfl

namespace Decimal

theorem isDigit_of_mem_digits {d : Decimal} {c : Char} (h : c ∈ d.digits) : c.isDigit = true :=
  Nat.isDigit_of_mem_toDigits (by decide) (by decide) h

/-- Digits around a point read as a decimal with as many places as there are behind it. -/
theorem value_numeral {whole fraction : List Char} {c : Nat}
    (h : appendDigits 0 (whole ++ fraction) = c) :
    Numeral.value ⟨false, whole, fraction, 0⟩ = .ofDecimal false c (-(fraction.length : Int)) := by
  rw [Numeral.value, digitsValue_eq, h, Int.zero_sub]

/-- **The positional form of a decimal is a numeral for it,** unless it is too large for a finite
number. -/
theorem spells_positional {d : Decimal}
    (h : (Number.ofDecimal false d.coefficient d.exponent).isFinite = true) :
    Lexeme.Spells (.number (.ofDecimal false d.coefficient d.exponent)) d.positional := by
  have hdigits : ∀ c ∈ d.digits, c.isDigit = true := fun _ => isDigit_of_mem_digits
  have hvalue : appendDigits 0 d.digits = d.coefficient := appendDigits_toDigits _
  have hne : d.digits ≠ [] := Nat.toDigits_ne_nil
  simp only [positional]
  split_ifs with hwhole hlong
  · -- Zeros up to the point.
    have hzeros : appendDigits 0 ((d.digits ++ List.replicate d.exponent.toNat '0') ++ []) =
        d.coefficient * 10 ^ d.exponent.toNat := by
      rw [List.append_nil, appendDigits_append, hvalue, appendDigits_zeros]
    have hread := (value_numeral hzeros).trans (Number.ofDecimal_shift h hwhole)
    rw [← hread]
    refine .whole (fun c hc => ?_) (List.append_ne_nil_of_left_ne_nil hne _)
    rcases List.mem_append.mp hc with hc | hc
    · exact hdigits c hc
    · exact isDigit_of_mem_zeros hc
  · -- The point stands among the digits.
    have hsplit : appendDigits 0 (d.digits.take (d.digits.length - (-d.exponent).toNat) ++
        d.digits.drop (d.digits.length - (-d.exponent).toNat)) = d.coefficient := by
      rw [List.take_append_drop, hvalue]
    have hplaces : -((d.digits.drop (d.digits.length - (-d.exponent).toNat)).length : Int) =
        d.exponent := by
      rw [List.length_drop]
      omega
    have hread := value_numeral hsplit
    rw [hplaces] at hread
    rw [← hread]
    refine .decimal (fun c hc => hdigits c (List.mem_of_mem_take hc)) (fun hnil => ?_)
      fun c hc => hdigits c (List.mem_of_mem_drop hc)
    have hlength := congrArg List.length hnil
    rw [List.length_take, List.length_nil] at hlength
    omega
  · -- Zeros behind the point.
    have hzeros : appendDigits 0 (['0'] ++ (List.replicate ((-d.exponent).toNat - d.digits.length)
        '0' ++ d.digits)) = d.coefficient := by
      rw [appendDigits_append, appendDigits_append, appendDigits_zeros]
      exact (congrArg (appendDigits · d.digits) (Nat.zero_mul _)).trans hvalue
    have hplaces : -((List.replicate ((-d.exponent).toNat - d.digits.length) '0' ++
        d.digits).length : Int) = d.exponent := by
      rw [List.length_append, List.length_replicate]
      omega
    have hread := value_numeral hzeros
    rw [hplaces] at hread
    rw [← hread]
    have hzero : ∀ c ∈ ['0'], c.isDigit = true := fun c hc => isDigit_of_mem_zeros (k := 1) hc
    refine .decimal hzero (List.cons_ne_nil _ _) fun c hc => ?_
    rcases List.mem_append.mp hc with hc | hc
    · exact isDigit_of_mem_zeros hc
    · exact hdigits c hc

end Decimal

namespace Number

theorem digits_value (d : Decimal) : Style.value.digits d = d.positional := by
  simp [Style.value, Style.digits]

/-- The digits of a finite number, which a sign goes before if it is below zero. -/
theorem toList_display {x : Number} (h : x.isFinite = true) : x.display.toList =
    (if x.isNegative = true ∧ x.isZero = false then ['-'] else []) ++
      (if x.isZero then Decimal.mk 0 0 else x.shortest).positional := by
  rw [isFinite_iff] at h
  have hnan : ¬ x.isNaN = true := by
    rw [isNaN, decide_eq_true_iff]
    omega
  have hinfinite : ¬ x.isInfinite = true := by
    rw [isInfinite, decide_eq_true_iff]
    omega
  rw [display, written, String.toList_ofList, writtenChars, if_neg hnan]
  have hsign : (x.isNegative = true ∧ (Style.value.signedZero = true ∨ ¬ x.isZero = true)) ↔
      (x.isNegative = true ∧ x.isZero = false) := by
    simp [Style.value]
  simp only [if_neg hinfinite, digits_value, hsign, apply_ite Decimal.positional]

/-- **The digits that a finite number is written with spell its absolute value.** -/
theorem spells_display {x : Number} (h : x.isFinite = true) : ∃ ds,
    Lexeme.Spells (.number x.absolute) ds ∧
      x.display.toList = (if x.isNegative = true ∧ x.isZero = false then ['-'] else []) ++ ds := by
  have hread : ∀ d : Decimal, d = (if x.isZero then ⟨0, 0⟩ else x.shortest) →
      ofDecimal false d.coefficient d.exponent = x.absolute := by
    intro d hd
    by_cases hzero : x.isZero = true
    · rw [if_pos hzero] at hd
      rw [hd, absolute, of_decide_eq_true hzero, ofDecimal, if_pos rfl]
    · rw [if_neg hzero] at hd
      rw [hd, ← absolute_ofDecimal x.isNegative,
        readsBack_shortest h (Bool.eq_false_iff.mpr hzero)]
  generalize hd : (if x.isZero then Decimal.mk 0 0 else x.shortest) = d at hread
  have hdisplay := toList_display h
  rw [hd] at hdisplay
  refine ⟨d.positional, ?_, hdisplay⟩
  have hvalue := hread d rfl
  rw [← hvalue]
  exact Decimal.spells_positional (hvalue ▸ isFinite_absolute h)

end Number

end Script
