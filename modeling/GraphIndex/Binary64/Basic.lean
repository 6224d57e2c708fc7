/-
**Binary64 numbers.**  Double-precision numbers of the IEEE 754 standard, kept as their 64 bits.

A word holds a sign, eleven bits of exponent and fifty-two bits of fraction.  Everything here is
computed on the bits, in exact arithmetic: the value of a finite number is the rational
`significand · 2 ^ scale`, and a rational is rounded to the nearest number, a tie going to the
even neighbour.  Two notions of equality are kept apart: `=` compares bits, and `ieeeEq` is the
comparison of the standard, under which a NaN differs from itself and the two zeros agree.

Main definitions:

* `Binary64` — the type;
* `Binary64.isNaN`, `Binary64.isInfinite`, `Binary64.isFinite`, `Binary64.isZero` — the classes;
* `Binary64.toRat` — the exact value of a finite number;
* `Binary64.ieeeEq` — equality of the standard;
* `Binary64.nearest` — rounding of a non-negative rational.
-/

set_option autoImplicit false

namespace GraphIndex

/-- A double-precision number, given by its bits. -/
structure Binary64 where
  /-- Sign, exponent and fraction, from the highest bit down. -/
  bits : UInt64
  deriving DecidableEq, Inhabited, Repr

namespace Binary64

/-! ### Fields and classes -/

/-- The weight of the sign bit. -/
def signWeight : Nat :=
  0x8000000000000000

/-- The weight of the lowest bit of the exponent field. -/
def exponentWeight : Nat :=
  0x10000000000000

/-- The bits without the sign. -/
def magnitude (x : Binary64) : Nat :=
  x.bits.toNat % signWeight

/-- The sign bit is set. -/
def isNegative (x : Binary64) : Bool :=
  decide (signWeight ≤ x.bits.toNat)

/-- The magnitude of the two infinities: all exponent bits set and no fraction. -/
def infiniteMagnitude : Nat :=
  0x7ff0000000000000

/-- A magnitude above infinity is no number. -/
def isNaN (x : Binary64) : Bool :=
  decide (infiniteMagnitude < x.magnitude)

/-- The number is one of the two infinities. -/
def isInfinite (x : Binary64) : Bool :=
  decide (x.magnitude = infiniteMagnitude)

/-- The number has a rational value. -/
def isFinite (x : Binary64) : Bool :=
  decide (x.magnitude < infiniteMagnitude)

/-- The number is one of the two zeros. -/
def isZero (x : Binary64) : Bool :=
  decide (x.magnitude = 0)

/-- The number with the given sign and magnitude. -/
def ofMagnitude (negative : Bool) (magnitude : Nat) : Binary64 :=
  ⟨UInt64.ofNat (magnitude + if negative then signWeight else 0)⟩

/-- The zero without a sign. -/
def zero : Binary64 :=
  ⟨0⟩

/-- The NaN that stands for all of them: quiet, without sign or payload. -/
def quietNaN : Binary64 :=
  ⟨0x7ff8000000000000⟩

/-- The number with its sign bit flipped. -/
def neg (x : Binary64) : Binary64 :=
  ofMagnitude (!x.isNegative) x.magnitude

/-! ### Values -/

/-- The exponent field. -/
def exponentField (x : Binary64) : Nat :=
  x.magnitude / exponentWeight

/-- The fraction field. -/
def fractionField (x : Binary64) : Nat :=
  x.magnitude % exponentWeight

/-- The integer that is scaled by a power of two: a normal number has a leading bit above its
fraction, a subnormal one has none. -/
def significand (x : Binary64) : Nat :=
  if x.exponentField = 0 then x.fractionField else exponentWeight + x.fractionField

/-- The power of two that scales the significand. -/
def scale (x : Binary64) : Int :=
  (max x.exponentField 1 : Nat) - 1075

/-- The value of a finite number without its sign. -/
def absRat (x : Binary64) : Rat :=
  (x.significand : Rat) * (2 : Rat) ^ x.scale

/-- The value of a finite number. -/
def toRat (x : Binary64) : Rat :=
  if x.isNegative then -x.absRat else x.absRat

/-- Equality of the standard: no NaN equals anything, and the two zeros are equal. -/
def ieeeEq (x y : Binary64) : Bool :=
  !x.isNaN && !y.isNaN && (x.bits == y.bits || (x.isZero && y.isZero))

/-! ### Rounding -/

/-- The integer nearest to a non-negative rational, the even one of two. -/
def roundHalfEven (r : Rat) : Nat :=
  let floor := r.floor.toNat
  let excess := r - (floor : Rat)
  if excess < 1 / 2 ∨ (excess = 1 / 2 ∧ floor % 2 = 0) then floor else floor + 1

/-- The exponent of the largest power of two that is no larger than a positive rational. -/
def floorLog2 (r : Rat) : Int :=
  let guess : Int := (r.num.toNat.log2 : Int) - (r.den.log2 : Int)
  if (2 : Rat) ^ guess ≤ r then guess else guess - 1

/-- The scale of the numbers around a positive rational: fifty-two bits follow its leading one,
down to the scale of the subnormal numbers. -/
def scaleAround (r : Rat) : Int :=
  max (floorLog2 r - 52) (-1074)

/-- The number nearest to a non-negative rational, the even one of two; what lies beyond the
largest number by half a step or more becomes infinite.  The magnitude counts the numbers from
zero up, so that a carry out of the significand needs no case of its own. -/
def nearest (r : Rat) : Binary64 :=
  if r ≤ 0 then zero
  else
    let scale := scaleAround r
    let magnitude := (scale + 1074).toNat * exponentWeight + roundHalfEven (r / (2 : Rat) ^ scale)
    ofMagnitude false (min magnitude infiniteMagnitude)

end Binary64

end GraphIndex
