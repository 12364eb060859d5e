/-!
# Double-precision numbers without NaN

A `Double` is a bit pattern of the 64-bit binary format that is not a NaN. Its sign, exponent field
and fraction are read off the pattern as natural numbers, so everything said about a `Double` is
arithmetic on `Nat`. Two doubles are the same number when their patterns agree or both are zeros.
-/

set_option autoImplicit false
set_option relaxedAutoImplicit false

namespace ObjectSelect

namespace Double

/-- The exponent field of a bit pattern. -/
def exponentField (bits : UInt64) : Nat :=
  bits.toNat / Nat.pow 2 52 % Nat.pow 2 11

/-- The fraction field of a bit pattern. -/
def fractionField (bits : UInt64) : Nat :=
  bits.toNat % Nat.pow 2 52

/-- Patterns with the largest exponent and a nonzero fraction stand for no number. -/
def isNaN (bits : UInt64) : Bool :=
  exponentField bits = 2047 && fractionField bits != 0

end Double

/-- A number of the 64-bit binary format, infinities included. -/
structure Double where
  bits : UInt64
  isNaN_eq_false : Double.isNaN bits = false

namespace Double

/-- The number with a given bit pattern; `none` for a NaN. -/
def ofBits? (bits : UInt64) : Option Double :=
  if h : isNaN bits = false then some ⟨bits, h⟩ else none

/-- Whether the sign bit is set. -/
def isNegative (x : Double) : Bool :=
  Nat.pow 2 63 ≤ x.bits.toNat

/-- Whether the number is an infinity. -/
def isInfinite (x : Double) : Bool :=
  exponentField x.bits = 2047

/-- The mantissa `m` of the absolute value `m * 2 ^ x.power`, for a finite number. -/
def mantissa (x : Double) : Nat :=
  if exponentField x.bits = 0 then fractionField x.bits else Nat.pow 2 52 + fractionField x.bits

/-- The power of two by which the mantissa is scaled. -/
def power (x : Double) : Int :=
  (max (exponentField x.bits) 1 : Nat) - 1075

/-- Whether the number is one of the two zeros. -/
def isZero (x : Double) : Bool :=
  exponentField x.bits = 0 && fractionField x.bits = 0

/-- Equality of numbers: positive and negative zero are the same number. -/
def same (x y : Double) : Bool :=
  x.bits == y.bits || (x.isZero && y.isZero)

instance : BEq Double := ⟨same⟩

end Double

end ObjectSelect
