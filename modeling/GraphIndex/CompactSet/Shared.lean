/-
**Shared slots.**  A place that several writers add elements to.

The place holds a set that may be empty.  Adding replaces it as a whole: the successor of the set
that was seen is put in its place, and it is the same set again if the element was there already.

Main definitions:

* `CompactSet.SharedSlot` — the type;
* `CompactSet.SharedSlot.add` — one more element.
-/
import GraphIndex.CompactSet.Basic

set_option autoImplicit false

namespace GraphIndex

namespace CompactSet

/-- A place for a set. -/
structure SharedSlot (α : Type) where
  /-- The set, unless it is empty. -/
  content : Option (CompactSet α)

namespace SharedSlot

variable {α : Type}

/-- There is no set. -/
def empty : SharedSlot α :=
  ⟨none⟩

variable [BEq α] [Digest α]

/-- The element is in the set. -/
def holds (slot : SharedSlot α) (a : α) : Bool :=
  mem slot.content a

/-- The set gets one more element. -/
def add (slot : SharedSlot α) (a : α) : SharedSlot α :=
  ⟨CompactSet.add slot.content a⟩

end SharedSlot

end CompactSet

end GraphIndex
