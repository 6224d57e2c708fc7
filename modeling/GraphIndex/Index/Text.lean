/-
**Indexes as text.**  The texts of an index and of a registry.

Main definitions:

* `Index.inspect`, `Registry.inspect` — the texts.
-/
import GraphIndex.Element.Text
import GraphIndex.Index.Registry

set_option autoImplicit false

namespace GraphIndex

variable {kind : ElementKind}

/-- The text of an index. -/
def Index.inspect (ix : Index kind) : String :=
  Text.record "Index"
    [("key", Text.quoted ix.key), ("kind", kind.inspect),
      ("values", toString ix.valueCount)]

/-- The text of a registry. -/
def Registry.inspect (r : Registry kind) : String :=
  Text.record "IndexRegistry"
    [("kind", kind.inspect), ("keys", Text.braced (r.keys.map Text.quoted))]

end GraphIndex
