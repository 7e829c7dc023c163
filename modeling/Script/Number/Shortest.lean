import Script.Number.Rounding

/-!
# The shortest decimal that reads back

A number is written with the fewest decimal digits that round to it again.  The search goes through
ever finer decimal grids; on each it tries the two neighbours of the number, and the first grid
with a neighbour that reads back wins.  When both read back the nearer one is taken, and the upper
one if they are equally near.
-/

namespace Script

/-- The decimal `coefficient * 10 ^ exponent`. -/
structure Decimal where
  coefficient : Nat
  exponent : Int
deriving DecidableEq, Repr

namespace Number

/-- The decimal reads back as the number, whose sign it is given. -/
def ReadsBack (x : Number) (d : Decimal) : Prop :=
  ofDecimal x.isNegative d.coefficient d.exponent = x

instance (x : Number) (d : Decimal) : Decidable (x.ReadsBack d) :=
  inferInstanceAs (Decidable (_ = _))

/-- The absolute value of a finite number as a decimal, with every digit it has. -/
def exactDecimal (x : Number) : Decimal := ⟨x.scaled * Nat.pow 5 1074, -1074⟩

/-- The absolute value of a finite number over `10 ^ exponent`, as numerator and denominator. -/
def overPowerOfTen (x : Number) (exponent : Int) : Nat × Nat :=
  if 0 ≤ exponent then (x.scaled, unitsPerOne * Nat.pow 10 exponent.toNat)
  else (x.scaled * Nat.pow 10 (-exponent).toNat, unitsPerOne)

/-- Tries the grids of `10 ^ exponent`, `10 ^ (exponent - 1)` and so on.  Seventeen digits are
always enough, so the number of tries runs out only if it is chosen too small. -/
def searchShortest (x : Number) : (tries : Nat) → (exponent : Int) → Decimal
  | 0, _ => x.exactDecimal
  | tries + 1, exponent =>
    let (a, b) := x.overPowerOfTen exponent
    let lower : Decimal := ⟨a / b, exponent⟩
    let upper : Decimal := ⟨a / b + 1, exponent⟩
    if x.ReadsBack lower then
      if x.ReadsBack upper ∧ b ≤ 2 * (a % b) then upper else lower
    else if x.ReadsBack upper then upper
    else x.searchShortest tries (exponent - 1)

/-- The shortest decimal that reads back as the absolute value of a finite number other than zero.
The search starts at a power of ten above the number: `30103 / 100000` is the decimal logarithm of
two. -/
def shortest (x : Number) : Decimal :=
  let binary := (x.scaled.log2 : Int) + 1 - 1074
  x.searchShortest 20 ((binary * 30103).fdiv 100000 + 1)

end Number

end Script
