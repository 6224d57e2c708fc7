/-
**A text layer with shortest decimals.**  A double-precision number is written with the fewest digits
that read back as it, and a numeral is read as the number nearest to it.

A NaN or an infinity has no numeral and is written as `null`.

Main definitions:

* `Layout.json` — how a document shows a double-precision number;
* `Json.Codec.shortest` — the text layer.
-/
import GraphIndex.Binary64.Decimal
import GraphIndex.Json.Codec
import GraphIndex.Json.Reader

set_option autoImplicit false

namespace GraphIndex

/-- A number from `10 ^ -5` up to but not including `10 ^ 16` is written with a point and without
exponent, any other one with an exponent.  Of two equally near decimals the even one is taken. -/
def Layout.json : Layout :=
  ⟨some (-4), some 16, true, .even⟩

/-- Numbers are written with the fewest digits and read as the nearest ones. -/
def Json.Codec.shortest : Codec where
  render := Json.render
  ofString? := Json.ofString?
  ofFloat x := if x.isFinite then .number (x.numeral .json) else .null
  float? := Binary64.ofNumeral?

end GraphIndex
