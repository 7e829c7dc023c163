import Script.Number.Rounding

/-!
# Numbers as indices and lengths

Up to `2 ^ 53 - 1` every natural number is a number of its own, so that a number can stand for an
index and a length for a number without a loss.
-/

namespace Script.Number

/-- The greatest natural number that no other rounds to, `2 ^ 53 - 1`. -/
def maxSafe : Nat := 0x1fffffffffffff

/-- The index that a number denotes, if it is a natural number up to `maxSafe`.  Both zeros denote
zero. -/
def toIndex? (x : Number) : Option Nat :=
  let whole := x.scaled / unitsPerOne
  if x.isFinite ∧ (x.isNegative → x.isZero) ∧ x.scaled % unitsPerOne = 0 ∧ whole ≤ maxSafe then
    some whole
  else none

/-- The number for a length, which stops at `maxSafe`. -/
def ofLength (n : Nat) : Number := ofNat (min n maxSafe)

end Script.Number
