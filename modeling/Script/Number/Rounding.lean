import Script.Number.Basic

/-!
# Rounding to the nearest number

`ofRatio` takes an exact fraction to the nearest number, a tie going to the one whose last bit is
zero.  Reading a decimal numeral, taking a natural number for a number and the exact remainder of
a division are all cases of it.
-/

namespace Script

/-- The quotient rounded to the nearest natural number, a half going to the even one. -/
def roundDiv (a b : Nat) : Nat :=
  let q := a / b
  let r := a % b
  if 2 * r < b then q
  else if b < 2 * r then q + 1
  else if q % 2 = 0 then q else q + 1

namespace Number

/-- The number nearest to `a / b`.  In units of `2 ^ -1074` the fraction is `a * 2 ^ 1074 / b`; `k`
is how many low bits of that must go for 53 to be left.  A significand that rounds up to `2 ^ 53`
carries into the exponent, as the magnitude bits do by themselves. -/
def ofRatio (negative : Bool) (a b : Nat) : Number :=
  let n := a * unitsPerOne
  let k := (n / b).log2 - 52
  ofMagnitude negative (k * fractionSize + roundDiv n (b * Nat.pow 2 k))

/-- The number nearest to a natural number. -/
def ofNat (n : Nat) : Number := ofRatio false n 1

/-- The number nearest to `coefficient * 10 ^ exponent`.  The first two cases lie so far outside the
range of the numbers that the power of ten need not be formed. -/
def ofDecimal (negative : Bool) (coefficient : Nat) (exponent : Int) : Number :=
  if coefficient = 0 then ofMagnitude negative 0
  else if 400 < exponent then ofMagnitude negative infiniteMagnitude
  else if exponent < -(400 + (coefficient.log2 : Int)) then ofMagnitude negative 0
  else if 0 ≤ exponent then ofRatio negative (coefficient * Nat.pow 10 exponent.toNat) 1
  else ofRatio negative coefficient (Nat.pow 10 (-exponent).toNat)

/-- The remainder of the division truncated toward zero: exact, and with the sign of the
dividend. -/
def rem (x y : Number) : Number :=
  if x.isNaN || y.isNaN || x.isInfinite || y.isZero then nan
  else if y.isInfinite then x
  else ofRatio x.isNegative (x.scaled % y.scaled) unitsPerOne

end Number

end Script
