/-
**Dictionaries as text.**  The entries in braces, in the order of storage.

Main definitions:

* `Dictionary.inspect` — the text of a dictionary.
-/
import GraphIndex.Dictionary.Basic
import GraphIndex.Value.Text

set_option autoImplicit false

namespace GraphIndex

/-- The entries of a dictionary with their values inspected. -/
def Dictionary.inspect (d : Dictionary) : String :=
  Text.braced (d.entries.map fun (k, v) => Text.quoted k ++ ": " ++ v.inspect)

end GraphIndex
