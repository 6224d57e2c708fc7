/-
**Decimal numerals.**  A number as it is written: a sign, the digits before the point, the digits
after it, and a power of ten.

The same type stands between numbers and text in both directions.  A writer chooses a numeral for
a number and spells it out with `Numeral.text`; a reader takes the digits apart and asks for the
integer or the scaled significand that they stand for.

Main definitions:

* `Numeral` — the type;
* `Numeral.text` — its spelling;
* `Numeral.integer?` — the integer that a numeral without point and exponent stands for;
* `Numeral.scaled` — the integer that the digits form, and the power of ten that scales it;
* `Layout`, `Layout.numeral` — where a string of digits gets its point and when it gets an
  exponent.
-/

set_option autoImplicit false

namespace GraphIndex

/-- The number that a list of digits stands for, the highest digit first. -/
def ofDigits (ds : List Nat) : Nat :=
  ds.foldl (fun n d => 10 * n + d) 0

/-- A number as it is written in decimal. -/
structure Numeral where
  /-- A minus sign stands in front. -/
  negative : Bool
  /-- The digits before the point. -/
  whole : List Nat
  /-- The digits after the point; without any there is no point. -/
  fraction : List Nat
  /-- The power of ten that is written after the digits. -/
  exponent : Option Int
  deriving DecidableEq, Inhabited, Repr

namespace Numeral

/-! ### Spelling -/

/-- The spelling of a list of digits. -/
def spell (ds : List Nat) : String :=
  String.ofList (ds.map Nat.digitChar)

/-- A numeral as text. -/
def text (n : Numeral) : String :=
  (if n.negative then "-" else "") ++ spell n.whole
    ++ (if n.fraction.isEmpty then "" else "." ++ spell n.fraction)
    ++ (match n.exponent with
        | none => ""
        | some e => "e" ++ toString e)

/-- The decimal digits of a number. -/
def digitsOf (n : Nat) : List Nat :=
  (Nat.toDigits 10 n).map fun c => c.toNat - '0'.toNat

/-- The numeral of an integer. -/
def ofInt (n : Int) : Numeral where
  negative := decide (n < 0)
  whole := digitsOf n.natAbs
  fraction := []
  exponent := none

/-! ### Meaning -/

/-- The integer that a numeral stands for when it has neither point nor exponent.  A zero with a
sign is left to the numbers that have one. -/
def integer? (n : Numeral) : Option Int :=
  if n.fraction.isEmpty && n.exponent.isNone && !(n.negative && ofDigits n.whole == 0) then
    some (if n.negative then -(ofDigits n.whole : Int) else ofDigits n.whole)
  else none

/-- The digits after the point, without zeros at their end. -/
def trimmedFraction (n : Numeral) : List Nat :=
  (n.fraction.reverse.dropWhile (· == 0)).reverse

/-- The digits from the first one that is not zero on, without zeros at the end of the fraction. -/
def significantDigits (n : Numeral) : List Nat :=
  (n.whole ++ n.trimmedFraction).dropWhile (· == 0)

/-- How many significant digits are looked at one by one.  No number half-way between two
neighbouring double-precision numbers has more of them. -/
def digitLimit : Nat :=
  768

/-- The integer that the significant digits form, and the power of ten that scales it.  If there are
more digits than the limit, a one stands for all that follow: the number is a little above what the
digits before say. -/
def scaled (n : Numeral) : Nat × Int :=
  let exponent := n.exponent.getD 0 - (n.trimmedFraction.length : Int)
  let surplus := n.significantDigits.length - digitLimit
  if surplus = 0 then (ofDigits n.significantDigits, exponent)
  else (ofDigits (n.significantDigits.take digitLimit ++ [1]), exponent + (surplus - 1 : Nat))

end Numeral

/-! ### Layouts -/

/-- Which of two equally near decimals stands for a number. -/
inductive Tie where
  /-- The larger one. -/
  | up
  /-- The one whose last digit is even. -/
  | even
  deriving DecidableEq, Repr

/-- How a number is written.  A number `0.d₁d₂… · 10 ^ p` has its point at position `p`. -/
structure Layout where
  /-- Points further to the left than this are written with an exponent. -/
  lowest : Option Int
  /-- Points further to the right than this are written with an exponent. -/
  highest : Option Int
  /-- A number written without exponent always shows a digit after the point. -/
  showsFraction : Bool
  /-- The choice between two decimals that are equally near. -/
  tie : Tie

namespace Layout

/-- A point at the given position is written without exponent. -/
def isPositional (l : Layout) (point : Int) : Bool :=
  l.lowest.all (· ≤ point) && l.highest.all (point ≤ ·)

/-- The numeral of the digits `ds` with the point at the given position.  Places between the
digits and the point are filled with zeros. -/
def numeral (l : Layout) (negative : Bool) (ds : List Nat) (point : Int) : Numeral :=
  if l.isPositional point then
    let shifted := List.replicate (-point).toNat 0 ++ ds
    let whole := shifted.take point.toNat ++ List.replicate (point.toNat - ds.length) 0
    let fraction := shifted.drop point.toNat
    { negative
      whole := if whole.isEmpty then [0] else whole
      fraction := if fraction.isEmpty && l.showsFraction then [0] else fraction
      exponent := none }
  else
    { negative
      whole := ds.take 1
      fraction := ds.drop 1
      exponent := some (point - 1) }

end Layout

end GraphIndex
