/-
**Compact sets as text.**  The tier and the elements of a set, in the order of storage.

Main definitions:

* `CompactSet.inspect` — the text of a set, given the text of an element.
-/
import GraphIndex.CompactSet.Basic
import GraphIndex.Text.Composite

set_option autoImplicit false

namespace GraphIndex

/-- The text of a set. -/
def CompactSet.inspect {α : Type} (element : α → String) (s : CompactSet α) : String :=
  Text.record "CompactSet"
    [("tier", s.tier.inspect), ("elements", Text.bracketed (s.toList.map element))]

end GraphIndex
