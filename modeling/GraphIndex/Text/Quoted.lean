/-
**Quoted text.**  A string between quotes, with the characters escaped that could not be told
apart inside them.

Quotes and backslashes get a backslash in front, four control characters have a letter or digit of
their own, and any other character without a shape is spelled out by its number in braces.  A
single quote stands as it is.

Main definitions:

* `Text.quoted` — a string between quotes.
-/
import GraphIndex.Text.Shapeless

set_option autoImplicit false

namespace GraphIndex

namespace Text

/-- A number in hexadecimal digits. -/
def hexadecimal (n : Nat) : String :=
  String.ofList (Nat.toDigits 16 n)

/-- A character inside quotes. -/
def escape (c : Char) : String :=
  if c = '\x00' then "\\0"
  else if c = '\t' then "\\t"
  else if c = '\n' then "\\n"
  else if c = '\r' then "\\r"
  else if c = '"' then "\\\""
  else if c = '\\' then "\\\\"
  else if isShapeless c then "\\u\x7b" ++ hexadecimal c.toNat ++ "\x7d"
  else c.toString

/-- A string between quotes. -/
def quoted (s : String) : String :=
  "\"" ++ String.join (s.toList.map escape) ++ "\""

end Text

end GraphIndex
