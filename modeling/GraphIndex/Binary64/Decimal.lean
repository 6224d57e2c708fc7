/-
**Shortest decimals.**  The decimal by which a binary64 number is written, and the number for which
a decimal is read.

A number is written with the fewest digits from which rounding to nearest gives it back.  On the
grid of decimals with a given number of digits only the two neighbours of the number can do so;
the grids are tried from one digit up, and of two neighbours that both qualify the nearer one is
taken.  If they are equally near, the layout decides.

A decimal is read as the number nearest to its exact value, the even one of two.  Decimals whose
first digit stands far beyond the range of the numbers are answered without computing their value.

Main definitions:

* `Decimal` — a significand and a power of ten;
* `Binary64.shortest` — the decimal by which a finite number is written, given the choice between
  equally near ones;
* `Binary64.numeral`, `Binary64.text` — its numeral and its text in a given layout;
* `Binary64.ofDecimal` — the number nearest to a decimal;
* `Binary64.ofNumeral?` — reading a numeral, which fails beyond the largest number.
-/
import GraphIndex.Binary64.Basic
import GraphIndex.Numeral

set_option autoImplicit false

namespace GraphIndex

/-- The decimal `significand · 10 ^ exponent`. -/
structure Decimal where
  /-- The digits, read as an integer. -/
  significand : Nat
  /-- The power of ten that scales them. -/
  exponent : Int
  deriving DecidableEq, Repr

namespace Decimal

/-- The value of a decimal. -/
def toRat (d : Decimal) : Rat :=
  (d.significand : Rat) * (10 : Rat) ^ d.exponent

/-- The number of digits before the point, or the negative number of zeros between the point and
the first digit. -/
def places (d : Decimal) : Int :=
  (Nat.toDigits 10 d.significand).length + d.exponent

/-- Zeros at the end of the significand move into the exponent. -/
def trim (d : Decimal) : Decimal :=
  if _h : d.significand ≠ 0 ∧ d.significand % 10 = 0 then
    trim ⟨d.significand / 10, d.exponent + 1⟩
  else d
termination_by d.significand
decreasing_by omega

end Decimal

namespace Binary64

/-! ### Writing -/

/-- The exponent of the largest power of ten that is no larger than a positive rational. -/
def floorLog10 (r : Rat) : Int :=
  let places (n : Nat) : Int := (Nat.toDigits 10 n).length
  let guess := places r.num.toNat - places r.den
  if (10 : Rat) ^ guess ≤ r then guess else guess - 1

/-- Rounding a decimal to nearest gives the magnitude of `x`. -/
def readsBack (x : Binary64) (d : Decimal) : Bool :=
  decide ((nearest d.toRat).magnitude = x.magnitude)

/-- The decimal `below` is taken rather than the next one on its grid, `above`. -/
def prefersBelow (x : Binary64) (tie : Tie) (below above : Decimal) : Bool :=
  let excess := x.absRat - below.toRat
  let lack := above.toRat - x.absRat
  match tie with
  | .up => decide (excess < lack)
  | .even => decide (excess < lack ∨ (excess = lack ∧ below.significand % 2 = 0))

/-- The neighbour of `x` among the multiples of `10 ^ k` that reads back as `x`, if one does. -/
def neighbour? (x : Binary64) (tie : Tie) (k : Int) : Option Decimal :=
  let below : Decimal := ⟨(x.absRat / (10 : Rat) ^ k).floor.toNat, k⟩
  let above : Decimal := ⟨below.significand + 1, k⟩
  match x.readsBack below, x.readsBack above with
  | true, true => some (if x.prefersBelow tie below above then below else above)
  | true, false => some below
  | false, true => some above
  | false, false => none

/-- The exact value of a finite number as a decimal. -/
def exact (x : Binary64) : Decimal :=
  if 0 ≤ x.scale then ⟨x.significand * Nat.pow 2 x.scale.toNat, 0⟩
  else ⟨x.significand * Nat.pow 5 (-x.scale).toNat, x.scale⟩

/-- The decimal with the fewest digits that reads back as the magnitude of a finite number; it
has seventeen digits at most. -/
def shortest (x : Binary64) (tie : Tie) : Decimal :=
  if x.isZero then ⟨0, 0⟩
  else
    let top := floorLog10 x.absRat
    (((List.range 17).findSome? fun (n : Nat) => x.neighbour? tie (top - n)).getD x.exact).trim

/-- The numeral of a finite number. -/
def numeral (l : Layout) (x : Binary64) : Numeral :=
  let d := x.shortest l.tie
  let ds := Numeral.digitsOf d.significand
  l.numeral x.isNegative ds (if x.isZero then 1 else (ds.length : Int) + d.exponent)

/-- The text of a number. -/
def text (l : Layout) (x : Binary64) : String :=
  if x.isNaN then "NaN"
  else if x.isInfinite then (if x.isNegative then "-inf" else "inf")
  else (x.numeral l).text

/-! ### Reading -/

/-- A decimal with more digits than this before its point lies beyond all finite numbers. -/
def mostPlaces : Int :=
  310

/-- A decimal with so many zeros between its point and its first digit is nearest to zero. -/
def mostZeros : Int :=
  330

/-- The number nearest to a decimal. -/
def ofDecimal (d : Decimal) : Binary64 :=
  let point := d.places
  if d.significand = 0 ∨ point < -mostZeros then zero
  else if mostPlaces < point then ofMagnitude false infiniteMagnitude
  else nearest d.toRat

/-- The number read for a numeral; fails if it is not finite. -/
def ofNumeral? (n : Numeral) : Option Binary64 :=
  let (significand, exponent) := n.scaled
  let x := ofDecimal ⟨significand, exponent⟩
  if x.isFinite then some (if n.negative then x.neg else x) else none

end Binary64

end GraphIndex
