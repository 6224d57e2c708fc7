/-
**Property values as JSON.**  How a value is written in a document and which documents are values.

Most kinds have a document of their own shape.  Bytes are written as a list of small integers.  An
integer without point and exponent that fits into 64 bits is read as an integer, and every other
number as a double-precision one, if the text layer has one for it.  How such a number is written is
up to the text layer as well.

Main definitions:

* `Value.toJson` — the document of a value;
* `Value.ofJson?` — the value of a document, if it has one.
-/
import GraphIndex.Json.Codec
import GraphIndex.Value.Basic

set_option autoImplicit false

namespace GraphIndex

/-- The integer of 64 bits with the given value. -/
def int64OfInt? (n : Int) : Option Int64 :=
  if Int64.minValue.toInt ≤ n ∧ n ≤ Int64.maxValue.toInt then some (Int64.ofInt n) else none

/-- The word of 64 bits with the given value. -/
def uint64OfInt? (n : Int) : Option UInt64 :=
  if 0 ≤ n ∧ n < UInt64.size then some (UInt64.ofNat n.toNat) else none

/-- The byte with the given value. -/
def byteOfInt? (n : Int) : Option UInt8 :=
  if 0 ≤ n ∧ n < UInt8.size then some (UInt8.ofNat n.toNat) else none

/-- The integer that a document is. -/
def Json.integer? : Json → Option Int
  | .number n => n.integer?
  | _ => none

namespace Value

variable (c : Json.Codec)

/-- The document of a value. -/
def toJson : Value → Json
  | null => .null
  | bool b => .bool b
  | int n => .ofInt n.toInt
  | float x => c.ofFloat x
  | string s => .text s
  | bytes bs => .array (bs.map fun b => .ofNat b.toNat)

/-- The value of a numeral: an integer if it can be one. -/
def ofNumeral? (n : Numeral) : Option Value :=
  match n.integer?.bind int64OfInt? with
  | some i => some (int i)
  | none => (c.float? n).map float

/-- The value of a document. -/
def ofJson? : Json → Option Value
  | .null => some null
  | .bool b => some (bool b)
  | .number n => ofNumeral? c n
  | .text s => some (string s)
  | .array items => (items.mapM fun (item : Json) => item.integer?.bind byteOfInt?).map bytes
  | .object _ => none
  | .garbled => none

end Value

end GraphIndex
