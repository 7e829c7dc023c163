/-!
# Numbers

The numbers of the language are the IEEE 754 binary64 values, held as their 64 bits.  Everything
that is exact is decided on the bits: which numbers are finite, how two of them compare, what
remains after division.  `scaled` is the key to that: a finite number is `scaled / 2 ^ 1074` up to
its sign, with `scaled` a natural number, so that exact arithmetic is arithmetic on `Nat`.
Addition, subtraction, multiplication and division round, and are the machine's.
-/

namespace Script

/-- A binary64 number, by its bit pattern. -/
structure Number where
  bits : UInt64
deriving DecidableEq, Repr

namespace Number

/-- The sign bit, `2 ^ 63`. -/
def signBit : Nat := 0x8000000000000000

/-- The size of the fraction field, `2 ^ 52`; also the leading bit that a significand leaves out. -/
def fractionSize : Nat := 0x10000000000000

/-- How many units of `2 ^ -1074` make one. -/
def unitsPerOne : Nat := Nat.pow 2 1074

/-- The magnitude bits of an infinity. -/
def infiniteMagnitude : Nat := 2047 * fractionSize

/-- All bits but the sign. -/
def magnitude (x : Number) : Nat := x.bits.toNat % signBit

/-- The sign bit is set: the number is below zero, or it is the negative zero. -/
def isNegative (x : Number) : Bool := signBit ≤ x.bits.toNat

def isNaN (x : Number) : Bool := infiniteMagnitude < x.magnitude

def isInfinite (x : Number) : Bool := x.magnitude = infiniteMagnitude

def isFinite (x : Number) : Bool := x.magnitude < infiniteMagnitude

/-- Either of the two zeros. -/
def isZero (x : Number) : Bool := x.magnitude = 0

/-- The number with the given sign and magnitude bits; magnitudes past infinity become infinity. -/
def ofMagnitude (negative : Bool) (m : Nat) : Number :=
  ⟨UInt64.ofNat ((if negative then signBit else 0) + min m infiniteMagnitude)⟩

def zero : Number := ⟨0⟩

def one : Number := ⟨0x3ff0000000000000⟩

def infinity : Number := ofMagnitude false infiniteMagnitude

def negativeInfinity : Number := ofMagnitude true infiniteMagnitude

def nan : Number := ⟨0x7ff8000000000000⟩

/-- The absolute value of a finite number in units of `2 ^ -1074`, the least positive number. -/
def scaled (x : Number) : Nat :=
  let exponent := x.magnitude / fractionSize
  let fraction := x.magnitude % fractionSize
  if exponent = 0 then fraction else (fractionSize + fraction) * Nat.pow 2 (exponent - 1)

/-! ## Order

The magnitude bits grow with the absolute value, so the sign and the magnitude together are a key
that orders the numbers.  Both zeros have the key zero, and a NaN is not ordered at all. -/

/-- The signed magnitude. -/
def key (x : Number) : Int :=
  if x.isNegative then -(x.magnitude : Int) else x.magnitude

/-- How two numbers compare, if neither is a NaN. -/
def compare? (x y : Number) : Option Ordering :=
  if x.isNaN || y.isNaN then none else some (Ord.compare x.key y.key)

/-- Equality of numbers: the zeros are equal, and a NaN equals nothing. -/
def eq (x y : Number) : Bool := x.compare? y == some .eq

/-! ## Arithmetic -/

def toFloat (x : Number) : Float := Float.ofBits x.bits

def ofFloat (x : Float) : Number := ⟨x.toBits⟩

def add (x y : Number) : Number := ofFloat (x.toFloat + y.toFloat)

def sub (x y : Number) : Number := ofFloat (x.toFloat - y.toFloat)

def mul (x y : Number) : Number := ofFloat (x.toFloat * y.toFloat)

def div (x y : Number) : Number := ofFloat (x.toFloat / y.toFloat)

/-- The number with the other sign. -/
def neg (x : Number) : Number := ⟨x.bits ^^^ 0x8000000000000000⟩

end Number

end Script
