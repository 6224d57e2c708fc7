/-
**JSON documents.**  The values of the data format, and their text.

Numbers keep the digits they are written with: what number they stand for is decided by whoever
asks for one, because an integer and a number with a point are different answers.  A string whose
escapes do not form Unicode text has no value, but the text around it is still well formed;
`garbled` stands for such a string and for an object with such a member name.

Main definitions:

* `Json` — the type;
* `Json.render` — the text of a document, without blanks.
-/
import GraphIndex.Numeral

set_option autoImplicit false

namespace GraphIndex

/-- A JSON document. -/
inductive Json where
  | null
  | bool (b : Bool)
  /-- A number, as it is written. -/
  | number (n : Numeral)
  | text (s : String)
  | array (items : List Json)
  /-- Named documents, in the order in which they are written. -/
  | object (members : List (String × Json))
  /-- A string that is no Unicode text, or an object with a member of such a name. -/
  | garbled
  deriving Inhabited

namespace Json

/-! ### Text -/

/-- The two lowest hexadecimal digits of a number. -/
def hexByte (n : Nat) : String :=
  String.ofList [Nat.digitChar (n / 16 % 16), Nat.digitChar (n % 16)]

/-- A character inside a quoted string: quotes, backslashes and control characters are escaped. -/
def escape (c : Char) : String :=
  if c = '"' then "\\\""
  else if c = '\\' then "\\\\"
  else if c.toNat < 32 then "\\u00" ++ hexByte c.toNat
  else c.toString

/-- A quoted string. -/
def quote (s : String) : String :=
  "\"" ++ String.join (s.toList.map escape) ++ "\""

mutual

/-- The text of a document. -/
def render : Json → String
  | null => "null"
  | bool b => if b then "true" else "false"
  | number n => n.text
  | text s => quote s
  | array items => "[" ++ String.intercalate "," (renderItems items) ++ "]"
  | object members => "\x7b" ++ String.intercalate "," (renderMembers members) ++ "\x7d"
  | garbled => "null"

/-- The texts of several documents. -/
def renderItems : List Json → List String
  | [] => []
  | item :: items => render item :: renderItems items

/-- The texts of several members of an object. -/
def renderMembers : List (String × Json) → List String
  | [] => []
  | (name, value) :: members => (quote name ++ ":" ++ render value) :: renderMembers members

end

/-! ### Building documents -/

/-- The document of an integer. -/
def ofInt (n : Int) : Json :=
  number (Numeral.ofInt n)

/-- The document of a natural number. -/
def ofNat (n : Nat) : Json :=
  ofInt n

/-- The value of the last member with the given name. -/
def member? (name : String) : List (String × Json) → Option Json
  | [] => none
  | (other, value) :: members =>
      match member? name members with
      | some later => some later
      | none => if other = name then some value else none

end Json

end GraphIndex
