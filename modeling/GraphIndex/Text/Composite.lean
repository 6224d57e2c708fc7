/-
**Texts of composite things.**  Lists, tagged contents and records, as they are shown to people.

Main definitions:

* `Text.bracketed`, `Text.braced` — lists in square brackets and in braces;
* `Text.tagged` — a word with its content in parentheses;
* `Text.record` — a name with fields in braces.
-/

set_option autoImplicit false

namespace GraphIndex

namespace Text

/-- The texts of several things in square brackets. -/
def bracketed (items : List String) : String :=
  "[" ++ String.intercalate ", " items ++ "]"

/-- The texts of several things in braces. -/
def braced (items : List String) : String :=
  "\x7b" ++ String.intercalate ", " items ++ "\x7d"

/-- A word with its content in parentheses. -/
def tagged (word content : String) : String :=
  word ++ "(" ++ content ++ ")"

/-- The text of a record: its name, and its fields with their texts in braces. -/
def record (name : String) (fields : List (String × String)) : String :=
  name ++ " \x7b " ++ String.intercalate ", " (fields.map fun (k, v) => k ++ ": " ++ v) ++ " \x7d"

/-- The word for a truth value. -/
def ofBool (b : Bool) : String :=
  if b then "true" else "false"

end Text

end GraphIndex
