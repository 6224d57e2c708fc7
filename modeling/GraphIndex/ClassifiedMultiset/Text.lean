/-
**Classified multisets as text.**  The counters of a multiset.

Main definitions:

* `ClassifiedMultiset.inspect` — the text of a multiset.
-/
import GraphIndex.ClassifiedMultiset.Basic
import GraphIndex.Text.Composite

set_option autoImplicit false

namespace GraphIndex

/-- The text of a multiset: its elements, its cells and its buckets, counted. -/
def ClassifiedMultiset.inspect {κ α : Type} (m : ClassifiedMultiset κ α) : String :=
  Text.record "ClassifierMultiset"
    [("len", toString m.size), ("occupied", toString m.occupied),
      ("buckets", toString m.capacity)]

end GraphIndex
