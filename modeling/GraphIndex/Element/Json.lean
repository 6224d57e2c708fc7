/-
**Parts of elements as JSON.**  An identity is an integer; a kind and a state are given by name.

A name can also stand as the only member of an object, with `null` as its value.

Main definitions:

* `ElementId.ofJson?`, `ElementId.toJson` — identities;
* `ElementKind.ofJson?`, `ElementKind.toJson` — kinds;
* `Lifecycle.ofJson?`, `Lifecycle.toJson` — states.
-/
import GraphIndex.ClassifiedMultiset.Json
import GraphIndex.Element.Text

set_option autoImplicit false

namespace GraphIndex

/-- The name that a document gives. -/
def Json.name? : Json → Option String
  | .text s => some s
  | .object [(s, .null)] => some s
  | _ => none

namespace ElementId

/-- The document of an identity. -/
def toJson (id : ElementId) : Json :=
  .ofNat id.value.toNat

/-- The identity of a document. -/
def ofJson? (j : Json) : Option ElementId :=
  j.word?.map ElementId.mk

end ElementId

namespace ElementKind

/-- The document of a kind. -/
def toJson (kind : ElementKind) : Json :=
  .text kind.inspect

/-- The kind of a document. -/
def ofJson? (j : Json) : Option ElementKind :=
  j.name?.bind fun name => [vertex, edge].find? (·.inspect = name)

end ElementKind

namespace Lifecycle

/-- The document of a state. -/
def toJson (state : Lifecycle) : Json :=
  .text state.inspect

/-- The state of a document. -/
def ofJson? (j : Json) : Option Lifecycle :=
  j.name?.bind fun name => [active, removed].find? (·.inspect = name)

end Lifecycle

end GraphIndex
