/-
**Property values as text.**  The two ways in which a value is written for people.

`display` writes the value alone, as a label would show it.  `inspect` writes its kind too, quotes
strings and lists the bytes of a byte string, so that different values have different texts, the
payload of a NaN apart.

Main definitions:

* `Value.display`, `Value.inspect` — the two texts of a value;
* `ValueKey.inspect` — the text of a key;
* `Layout.plain`, `Layout.inspected` — how the two write a double-precision number.
-/
import GraphIndex.Binary64.Decimal
import GraphIndex.Text.Composite
import GraphIndex.Text.Quoted
import GraphIndex.Value.Basic

set_option autoImplicit false

namespace GraphIndex

/-- A number is written without exponent, and an integral one without point.  Of two equally near
decimals the larger one is taken. -/
def Layout.plain : Layout :=
  ⟨none, none, false, .up⟩

/-- A number from `10 ^ -4` up to but not including `10 ^ 16` is written with a point and without
exponent, any other one with an exponent.  Of two equally near decimals the larger one is taken. -/
def Layout.inspected : Layout :=
  ⟨some (-3), some 16, true, .up⟩

namespace Value

/-- A value as a label shows it. -/
def display : Value → String
  | null => "null"
  | bool b => Text.ofBool b
  | int n => toString n.toInt
  | float x => x.text .plain
  | string s => s
  | bytes bs => "bytes(len=" ++ toString bs.length ++ ")"

/-- A value with its kind. -/
def inspect : Value → String
  | null => "Null"
  | bool b => Text.tagged "Bool" (Text.ofBool b)
  | int n => Text.tagged "Int" (toString n.toInt)
  | float x => Text.tagged "Float" (x.text .inspected)
  | string s => Text.tagged "Str" (Text.quoted s)
  | bytes bs => Text.tagged "Bytes" (Text.bracketed (bs.map fun b => toString b.toNat))

end Value

/-- A key with its kind; a number shows its bits. -/
def ValueKey.inspect : ValueKey → String
  | .bool b => Text.tagged "Bool" (Text.ofBool b)
  | .int n => Text.tagged "Int" (toString n.toInt)
  | .float bits => Text.tagged "Float" (toString bits.toNat)
  | .string s => Text.tagged "Str" (Text.quoted s)
  | .bytes bs => Text.tagged "Bytes" (Text.bracketed (bs.map fun b => toString b.toNat))

end GraphIndex
