/-
**Reading JSON text.**  A document is read token by token, with the arrays and objects that are
still open held in a list.

Reading is a fold: `Reader.accept?` takes one token, and the tokens of a whole text take the reader
from `Reader.start` to a complete document or to a failure.  So nothing here recurses on the depth
of a document.

Main definitions:

* `Json.Reader` — what has been read so far and what may come next;
* `Json.Reader.accept?` — one more token;
* `Json.ofString?` — the document that a text is, if it is one.
-/
import GraphIndex.Json.Token

set_option autoImplicit false

namespace GraphIndex

namespace Json

/-- An array or object that is still open, with what it holds so far, the latest first. -/
inductive Frame where
  /-- An open array. -/
  | array (items : List Json)
  /-- An open object and the name of the member that is being read. -/
  | object (members : List (Option String × Json)) (name : Option String)

/-- What may come next. -/
inductive Phase where
  /-- A document. -/
  | value
  /-- The first item of an array, or its end. -/
  | firstItem
  /-- The name of the first member of an object, or its end. -/
  | firstName
  /-- The name of a member. -/
  | name
  /-- The mark between a name and its value. -/
  | colon
  /-- A comma, or the end of what is open. -/
  | next
  /-- Nothing: the document is complete. -/
  | complete (document : Json)

/-- The state of reading. -/
structure Reader where
  /-- What is still open, the innermost first. -/
  frames : List Frame
  /-- What may come next. -/
  phase : Phase

/-- The object of the members read, the latest first. -/
def objectOf (members : List (Option String × Json)) : Json :=
  match members.reverse.mapM fun (name, value) => name.map fun n => (n, value) with
  | some named => object named
  | none => garbled

namespace Reader

/-- Nothing has been read. -/
def start : Reader :=
  ⟨[], .value⟩

/-- A document has been read inside the given frames. -/
def finish (frames : List Frame) (document : Json) : Reader :=
  match frames with
  | [] => ⟨[], .complete document⟩
  | .array items :: outer => ⟨.array (document :: items) :: outer, .next⟩
  | .object members name :: outer => ⟨.object ((name, document) :: members) none :: outer, .next⟩

/-- The token at which a document begins. -/
def begin? (frames : List Frame) : Token → Option Reader
  | .openArray => some ⟨.array [] :: frames, .firstItem⟩
  | .openObject => some ⟨.object [] none :: frames, .firstName⟩
  | .null => some (finish frames null)
  | .bool b => some (finish frames (bool b))
  | .number n => some (finish frames (number n))
  | .text (some s) => some (finish frames (text s))
  | .text none => some (finish frames garbled)
  | _ => none

/-- The token that names a member of the innermost object. -/
def name? (frames : List Frame) : Token → Option Reader
  | .text s =>
      match frames with
      | .object members _ :: outer => some ⟨.object members s :: outer, .colon⟩
      | _ => none
  | _ => none

/-- The token that ends the innermost array or object. -/
def close? (frames : List Frame) : Token → Option Reader
  | .closeArray =>
      match frames with
      | .array items :: outer => some (finish outer (array items.reverse))
      | _ => none
  | .closeObject =>
      match frames with
      | .object members _ :: outer => some (finish outer (objectOf members))
      | _ => none
  | _ => none

/-- The comma between two items or members. -/
def comma? (frames : List Frame) : Option Reader :=
  match frames with
  | .array items :: outer => some ⟨.array items :: outer, .value⟩
  | .object members name :: outer => some ⟨.object members name :: outer, .name⟩
  | [] => none

/-- One more token. -/
def accept? (r : Reader) (t : Token) : Option Reader :=
  match r.phase with
  | .value => begin? r.frames t
  | .firstItem => if t = .closeArray then close? r.frames t else begin? r.frames t
  | .firstName => if t = .closeObject then close? r.frames t else name? r.frames t
  | .name => name? r.frames t
  | .colon => if t = .colon then some ⟨r.frames, .value⟩ else none
  | .next => if t = .comma then comma? r.frames else close? r.frames t
  | .complete _ => none

/-- The document that has been read completely. -/
def document? (r : Reader) : Option Json :=
  match r.phase with
  | .complete document => some document
  | _ => none

end Reader

/-- The document that a sequence of tokens is. -/
def ofTokens? (ts : List Token) : Option Json :=
  (ts.foldlM Reader.accept? Reader.start).bind Reader.document?

/-- The document that a text is. -/
def ofString? (s : String) : Option Json :=
  (Token.scan? s.toList).bind ofTokens?

end Json

end GraphIndex
