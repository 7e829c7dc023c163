import Mathlib.Data.List.DropRight
import Script.Proofs.Lexer.Boundary
import Script.Proofs.Number.ReadBack

/-!
# Number literals are numerals

A number token is spelled with digits and at most one point.  Such a text is always a numeral, once
a point at its end is taken off, and the token holds the value of that numeral (`Spells.read?`):
reading a literal cannot fail.  The other way round, a text of this shape that reads as a number
spells the token for it (`IsDecimal.spells`), and the tokens of all finite numbers with a clear sign
show as such a text (`Number.isDecimal_written`).
-/

namespace Script

/-- Digits, or digits on both sides of a point. -/
inductive IsDecimal : List Char → Prop
  | whole {ds : List Char} (digits : ∀ d ∈ ds, d.isDigit = true) (nonempty : ds ≠ []) : IsDecimal ds
  | point {ds fs : List Char} (digits : ∀ d ∈ ds, d.isDigit = true) (nonempty : ds ≠ [])
      (fraction : ∀ d ∈ fs, d.isDigit = true) (places : fs ≠ []) : IsDecimal (ds ++ '.' :: fs)

namespace Numeral

variable {ds fs : List Char}

/-- A digit is no sign. -/
theorem sign_of_digit {c : Char} (h : c.isDigit = true) (cs : List Char) :
    sign (c :: cs) = (false, c :: cs) := by
  unfold sign
  split
  · next heq =>
    cases heq
    cases h
  · next heq =>
    cases heq
    cases h
  · rfl

/-- Digits in front are the whole part; what is behind them decides about the rest. -/
theorem read?_append (digits : ∀ d ∈ ds, d.isDigit = true) (nonempty : ds ≠ []) (rest : List Char)
    (hstop : ∀ d ∈ rest.head?, d.isDigit = false) :
    read? (ds ++ rest) = (exponentPart? (fractionPart rest).2).map fun exponent =>
      ⟨false, ds, (fractionPart rest).1, exponent⟩ := by
  have hsign : sign (ds ++ rest) = (false, ds ++ rest) := by
    obtain ⟨c, cs, rfl⟩ := List.exists_cons_of_ne_nil nonempty
    exact sign_of_digit (digits c List.mem_cons_self) _
  simp only [read?, hsign, Lexeme.takeWhile_append_of_stop digits hstop,
    Lexeme.dropWhile_append_of_stop digits hstop, nonempty, false_and, if_false]

theorem read?_whole (digits : ∀ d ∈ ds, d.isDigit = true) (nonempty : ds ≠ []) :
    read? ds = some ⟨false, ds, [], 0⟩ := by
  have hread := read?_append digits nonempty [] nofun
  rwa [List.append_nil] at hread

theorem read?_point (digits : ∀ d ∈ ds, d.isDigit = true) (nonempty : ds ≠ [])
    (fraction : ∀ d ∈ fs, d.isDigit = true) :
    read? (ds ++ '.' :: fs) = some ⟨false, ds, fs, 0⟩ := by
  have hpart : fractionPart ('.' :: fs) = (fs, []) := by
    rw [fractionPart, List.takeWhile_eq_self_iff.mpr fraction,
      List.dropWhile_eq_nil_iff.mpr fraction]
  rw [read?_append digits nonempty _ (by rintro d ⟨⟩; rfl), hpart]
  rfl

end Numeral

/-- A text that ends with digits does not end with a point. -/
theorem rdropWhile_digits (cs : List Char) {ds : List Char} (digits : ∀ d ∈ ds, d.isDigit = true)
    (nonempty : ds ≠ []) : (cs ++ ds).rdropWhile (· = '.') = cs ++ ds := by
  rw [List.rdropWhile_eq_self_iff]
  intro hne hpoint
  have hdigit := digits _ (List.getLast_mem nonempty)
  rw [List.getLast_append_of_ne_nil hne nonempty] at hpoint
  rw [of_decide_eq_true hpoint] at hdigit
  cases hdigit

theorem IsDecimal.rdropWhile {text : List Char} (h : IsDecimal text) :
    text.rdropWhile (· = '.') = text := by
  cases h with
  | whole digits nonempty => exact rdropWhile_digits [] digits nonempty
  | @point ds fs digits nonempty fraction places =>
    have htrim := rdropWhile_digits (ds ++ ['.']) fraction places
    rwa [List.append_assoc, List.singleton_append] at htrim

/-- **Reading a number literal cannot fail.**  A point at the end of the literal aside, it is a
numeral for the number of the token. -/
theorem Lexeme.Spells.read? {value : Number} {text : List Char}
    (h : Lexeme.Spells (.number value) text) :
    (Numeral.read? (text.rdropWhile (· = '.'))).map Numeral.value = some value := by
  cases h with
  | whole digits nonempty =>
    rw [(IsDecimal.whole digits nonempty).rdropWhile, Numeral.read?_whole digits nonempty]
    rfl
  | @decimal ds fs digits nonempty fraction =>
    by_cases hfs : fs = []
    · -- Nothing behind the point: it goes, and the digits before it are the literal.
      subst hfs
      rw [List.rdropWhile_concat_pos _ _ _ rfl, (IsDecimal.whole digits nonempty).rdropWhile,
        Numeral.read?_whole digits nonempty]
      rfl
    · rw [(IsDecimal.point digits nonempty fraction hfs).rdropWhile,
        Numeral.read?_point digits nonempty fraction]
      rfl

/-- A decimal text spells the number that it reads as. -/
theorem IsDecimal.spells {value : Number} {text : List Char} (h : IsDecimal text)
    (hread : (Numeral.read? text).map Numeral.value = some value) :
    Lexeme.Spells (.number value) text := by
  cases h with
  | whole digits nonempty =>
    rw [Numeral.read?_whole digits nonempty] at hread
    cases hread
    exact .whole digits nonempty
  | point digits nonempty fraction places =>
    rw [Numeral.read?_point digits nonempty fraction] at hread
    cases hread
    exact .decimal digits nonempty fraction

/-! ## Numbers that show as decimals -/

theorem Decimal.isDecimal_positional (d : Decimal) : IsDecimal d.positional := by
  have hdigits : ∀ c ∈ d.digits, c.isDigit = true := fun _ => isDigit_of_mem_digits
  have hne : d.digits ≠ [] := Nat.toDigits_ne_nil
  simp only [positional]
  split_ifs with hwhole hlong
  · refine .whole (fun c hc => ?_) (List.append_ne_nil_of_left_ne_nil hne _)
    rcases List.mem_append.mp hc with hc | hc
    · exact hdigits c hc
    · exact isDigit_of_mem_zeros hc
  · refine .point (fun c hc => hdigits c (List.mem_of_mem_take hc)) ?_
      (fun c hc => hdigits c (List.mem_of_mem_drop hc)) ?_
    · rw [← List.length_pos_iff, List.length_take]
      omega
    · rw [← List.length_pos_iff, List.length_drop]
      omega
  · refine .point (fun c hc => isDigit_of_mem_zeros (k := 1) hc) (List.cons_ne_nil '0' [])
      (fun c hc => ?_) (List.append_ne_nil_of_right_ne_nil _ hne)
    rcases List.mem_append.mp hc with hc | hc
    · exact isDigit_of_mem_zeros hc
    · exact hdigits c hc

namespace Number

variable {x : Number}

/-- Without a sign a token shows a finite number as a value shows it. -/
theorem written_token_eq_display (h : x.isFinite = true) (hsign : x.isNegative = false) :
    x.written .token = x.display := by
  rw [isFinite_iff] at h
  have hinfinite : ¬ x.isInfinite = true := by
    rw [isInfinite, decide_eq_true_iff]
    omega
  have hdigits : ∀ d, Style.token.digits d = Style.value.digits d := fun _ => rfl
  simp only [display, written, writtenChars, hsign, Bool.false_eq_true, false_and, if_false,
    if_neg hinfinite, hdigits]

theorem not_signed (hsign : x.isNegative = false) :
    ¬ (x.isNegative = true ∧ x.isZero = false) := by
  rw [hsign]
  exact fun hneg => Bool.false_ne_true hneg.1

/-- A finite number with a clear sign shows as digits alone. -/
theorem toList_display_of_unsigned (h : x.isFinite = true) (hsign : x.isNegative = false) :
    x.display.toList = (if x.isZero then Decimal.mk 0 0 else x.shortest).positional := by
  rw [toList_display h, if_neg (not_signed hsign), List.nil_append]

/-- What a finite number with a clear sign shows as spells the number. -/
theorem spells_display_of_unsigned (h : x.isFinite = true) (hsign : x.isNegative = false) :
    Lexeme.Spells (.number x) x.display.toList := by
  obtain ⟨ds, hspells, hdisplay⟩ := spells_display h
  have hself : x.absolute = x := by
    rw [absolute, ← hsign, ofMagnitude_self h]
  rw [if_neg (not_signed hsign), List.nil_append] at hdisplay
  rwa [hdisplay, ← hself]

/-- **The token of a finite number with a clear sign shows as a decimal text for the number.** -/
theorem isDecimal_written (h : x.isFinite = true) (hsign : x.isNegative = false) :
    IsDecimal (x.written .token).toList ∧
      (Numeral.read? (x.written .token).toList).map Numeral.value = some x := by
  have hdecimal : IsDecimal x.display.toList := by
    rw [toList_display_of_unsigned h hsign]
    exact Decimal.isDecimal_positional _
  have hread := (spells_display_of_unsigned h hsign).read?
  rw [hdecimal.rdropWhile] at hread
  rw [written_token_eq_display h hsign]
  exact ⟨hdecimal, hread⟩

end Number

end Script
