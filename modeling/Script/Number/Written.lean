import Script.Number.Shortest

/-!
# How numbers are written

One printer, and three styles for it.  A value shows its numbers positionally, whatever their size,
and both zeros as `0`; a token shows the same digits but tells the zeros apart and has other names
for what is not finite; the dump of a syntax tree always shows a fraction, and an exponent for
numbers that are very large or very small.
-/

namespace Script

namespace Decimal

/-- The digits of the coefficient. -/
def digits (d : Decimal) : List Char := Nat.toDigits 10 d.coefficient

/-- The decimal lies between `10 ^ (scale - 1)` and `10 ^ scale`. -/
def scale (d : Decimal) : Int := d.digits.length + d.exponent

/-- Without an exponent: zeros fill the place up to the point. -/
def positional (d : Decimal) : List Char :=
  if 0 ≤ d.exponent then d.digits ++ List.replicate d.exponent.toNat '0'
  else
    let places := (-d.exponent).toNat
    if places < d.digits.length then
      d.digits.take (d.digits.length - places) ++
        '.' :: d.digits.drop (d.digits.length - places)
    else
      '0' :: '.' :: (List.replicate (places - d.digits.length) '0' ++ d.digits)

/-- One digit before the point, and the power of ten behind. -/
def scientific (d : Decimal) : List Char :=
  let fraction := match d.digits.tail with
    | [] => []
    | ds => '.' :: ds
  d.digits.take 1 ++ fraction ++ 'e' :: (toString (d.scale - 1)).toList

end Decimal

namespace Number

/-- A style of writing numbers. -/
structure Style where
  /-- The name of infinity. -/
  infinity : String
  /-- The negative zero keeps its sign. -/
  signedZero : Bool
  /-- A whole number is written with a fraction of zero. -/
  fraction : Bool
  /-- The scales that are written positionally, from the least to the greatest; all of them if
  there is no such range. -/
  positional : Option (Int × Int)

/-- Values: `0`, `-0.5`, `1000000000000000000000`. -/
def Style.value : Style := ⟨"Infinity", false, false, none⟩

/-- Tokens: as values, but with `-0`, `inf` and `-inf`. -/
def Style.token : Style := ⟨"inf", true, false, none⟩

/-- Dumps: `1.0`, `0.0001`, `1e-5`, `1e16`. -/
def Style.dump : Style := ⟨"inf", true, true, some (-3, 16)⟩

/-- The digits of a decimal in the given style. -/
def Style.digits (style : Style) (d : Decimal) : List Char :=
  let positional := match style.positional with
    | none => true
    | some (least, greatest) => decide (least ≤ d.scale ∧ d.scale ≤ greatest)
  if positional then
    d.positional ++ (if style.fraction ∧ 0 ≤ d.exponent then ['.', '0'] else [])
  else d.scientific

/-- The text of a number, as characters. -/
def writtenChars (style : Style) (x : Number) : List Char :=
  if x.isNaN then "NaN".toList
  else
    let sign := if x.isNegative ∧ (style.signedZero ∨ ¬ x.isZero) then ['-'] else []
    sign ++
      if x.isInfinite then style.infinity.toList
      else if x.isZero then style.digits ⟨0, 0⟩
      else style.digits x.shortest

/-- The text of a number. -/
def written (style : Style) (x : Number) : String := String.ofList (x.writtenChars style)

/-- The text of a number as a value. -/
def display (x : Number) : String := x.written .value

end Number

end Script
