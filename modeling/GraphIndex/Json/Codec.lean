/-
**The text layer of documents.**  What a program that stores documents takes from elsewhere: the text
of a document, the document of a text, and how a double-precision number stands in a document.

An integer stands in a document as its digits, without point and exponent.  Which numeral a
double-precision number has, and which number a numeral is read as, is left to the text layer.

Main definitions:

* `Json.Codec` — the functions of a text layer.
-/
import GraphIndex.Binary64.Basic
import GraphIndex.Json.Basic

set_option autoImplicit false

namespace GraphIndex

/-- The functions of a text layer. -/
structure Json.Codec where
  /-- The text of a document. -/
  render : Json → String
  /-- The document that a text is, if it is one. -/
  ofString? : String → Option Json
  /-- The document of a double-precision number. -/
  ofFloat : Binary64 → Json
  /-- The double-precision number that a numeral is read as; fails if there is none. -/
  float? : Numeral → Option Binary64

end GraphIndex
