import Script.Number.Rounding
import Script.Text.Blank

/-!
# Numerals

A numeral is the text of a number taken apart: a sign, the digits before and after the point, and
a power of ten.  Number literals and texts that stand for a number are read the same way, through
the value of a numeral.
-/

namespace Script

/-- Reads decimal digits from left to right, behind others that stand for `n`. -/
def appendDigits (n : Nat) (cs : List Char) : Nat :=
  cs.foldl (fun n c => 10 * n + (c.toNat - 48)) n

/-- The natural number that a list of decimal digits stands for, found from its two halves as many
times over as `depth` says.  Few products of large numbers cost less than many steps on one. -/
def halvedValue : (depth : Nat) → List Char → Nat
  | 0, cs => appendDigits 0 cs
  | depth + 1, cs =>
    let size := cs.length / 2
    halvedValue depth (cs.take size) * Nat.pow 10 (cs.length - size) +
      halvedValue depth (cs.drop size)

/-- The natural number that a list of decimal digits stands for.  Lists of fewer than 128 digits
are read in one go. -/
def digitsValue (cs : List Char) : Nat := halvedValue (cs.length / 64).log2 cs

theorem appendDigits_eq (n : Nat) (cs : List Char) :
    appendDigits n cs = n * Nat.pow 10 cs.length + appendDigits 0 cs := by
  induction cs generalizing n with
  | nil => simp [appendDigits]
  | cons c cs ih =>
    have step (m : Nat) :
        appendDigits m (c :: cs) = appendDigits (10 * m + (c.toNat - 48)) cs := rfl
    have power : Nat.pow 10 (c :: cs).length = Nat.pow 10 cs.length * 10 := rfl
    rw [step, step, ih, ih (10 * 0 + (c.toNat - 48)), power, Nat.mul_zero, Nat.zero_add,
      Nat.add_mul, Nat.add_assoc, Nat.mul_comm 10 n, Nat.mul_assoc, Nat.mul_comm 10]

theorem halvedValue_eq (depth : Nat) (cs : List Char) :
    halvedValue depth cs = appendDigits 0 cs := by
  induction depth generalizing cs with
  | zero => rfl
  | succ depth ih =>
    have split : appendDigits 0 cs =
        appendDigits (appendDigits 0 (cs.take (cs.length / 2))) (cs.drop (cs.length / 2)) := by
      rw [appendDigits, appendDigits, appendDigits, ← List.foldl_append, List.take_append_drop]
    rw [halvedValue, ih, ih, split, appendDigits_eq (appendDigits 0 (cs.take (cs.length / 2))),
      List.length_drop]

/-- However a list is halved, its value is that of reading it from left to right. -/
theorem digitsValue_eq (cs : List Char) : digitsValue cs = appendDigits 0 cs :=
  halvedValue_eq _ cs

/-- A decimal numeral. -/
structure Numeral where
  negative : Bool
  /-- The digits before the point. -/
  whole : List Char
  /-- The digits after the point. -/
  fraction : List Char
  /-- The power of ten to multiply by. -/
  exponent : Int
deriving DecidableEq, Repr

namespace Numeral

/-- The number nearest to what the numeral says. -/
def value (n : Numeral) : Number :=
  .ofDecimal n.negative (digitsValue (n.whole ++ n.fraction)) (n.exponent - n.fraction.length)

/-- Takes a sign off the front; without one the text is positive. -/
def sign : List Char → Bool × List Char
  | '-' :: cs => (true, cs)
  | '+' :: cs => (false, cs)
  | cs => (false, cs)

/-- The digits behind a point, if there is one, and what follows them. -/
def fractionPart : List Char → List Char × List Char
  | '.' :: cs => (cs.takeWhile Char.isDigit, cs.dropWhile Char.isDigit)
  | cs => ([], cs)

/-- The size of an exponent.  Once it has reached `2 ^ 16` further digits do not count. -/
def exponentSize (cs : List Char) : Nat :=
  cs.foldl (fun n c => if n < 0x10000 then 10 * n + (c.toNat - 48) else n) 0

/-- The exponent that ends a numeral: nothing, or an `e` with a signed number behind it. -/
def exponentPart? : List Char → Option Int
  | [] => some 0
  | c :: cs =>
    let (negative, ds) := sign cs
    if (c = 'e' ∨ c = 'E') ∧ ds ≠ [] ∧ ds.all Char.isDigit then
      some (if negative then -(exponentSize ds : Int) else exponentSize ds)
    else none

/-- Reads a numeral.  There must be a digit before or after the point. -/
def read? (cs : List Char) : Option Numeral :=
  let (negative, body) := sign cs
  let whole := body.takeWhile Char.isDigit
  let (fraction, rest) := fractionPart (body.dropWhile Char.isDigit)
  if whole = [] ∧ fraction = [] then none
  else (exponentPart? rest).map fun exponent => ⟨negative, whole, fraction, exponent⟩

end Numeral

/-- The number that a text stands for: the blanks around it do not count, nothing at all is zero,
and the infinities have names. -/
def Number.ofText? (text : String) : Option Number :=
  let cs := Text.trim text.toList
  if cs = [] then some zero
  else if cs = "Infinity".toList ∨ cs = "+Infinity".toList then some infinity
  else if cs = "-Infinity".toList then some negativeInfinity
  else (Numeral.read? cs).map Numeral.value

end Script
