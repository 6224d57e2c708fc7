/-
**Elements as text.**  The words for the parts of an element, and all of it as a record.

Main definitions:

* `ElementKind.text`, `ElementKind.inspect`, `Lifecycle.inspect` — the words;
* `Element.inspect` — the text of an element.
-/
import GraphIndex.Dictionary.Text
import GraphIndex.Element.Basic

set_option autoImplicit false

namespace GraphIndex

/-- The word for a kind. -/
def ElementKind.text : ElementKind → String
  | vertex => "vertex"
  | edge => "edge"

/-- The name of a kind. -/
def ElementKind.inspect : ElementKind → String
  | vertex => "Vertex"
  | edge => "Edge"

/-- The name of a state. -/
def Lifecycle.inspect : Lifecycle → String
  | active => "Active"
  | removed => "Removed"

/-- The digits of an identity. -/
def ElementId.text (id : ElementId) : String :=
  toString id.value.toNat

/-- An identity, tagged as one. -/
def ElementId.inspect (id : ElementId) : String :=
  Text.tagged "ElementId" id.text

/-- The fields of the ends of an element. -/
def ElementKind.inspectEnds : (kind : ElementKind) → kind.Ends → List (String × String)
  | vertex, _ => []
  | edge, ends => [("out_vertex", ends.source.inspect), ("in_vertex", ends.target.inspect)]

/-- The text of an element. -/
def Element.inspect {kind : ElementKind} (e : Element kind) : String :=
  Text.record kind.inspect
    ([("id", e.id.inspect), ("label", Text.quoted e.label)]
      ++ kind.inspectEnds e.ends
      ++ [("properties", e.properties.inspect), ("state", e.state.inspect)])

end GraphIndex
