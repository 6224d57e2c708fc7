/-
**Compact sets.**  Sets of distinct elements that take little room while they are small.

A `CompactSet` has at least one element; a set that may be empty is an `Option (CompactSet α)`.
An element is added to the storage in use as long as that has room, and otherwise the elements are
stored anew in the tier for their number.  After a removal the storage is kept as long as the tier
stays the same.  Adding an element that is present and removing one that is absent change nothing.

Main definitions:

* `CompactSet` — the type;
* `CompactSet.contains`, `CompactSet.toList`, `CompactSet.size`, `CompactSet.tier` — the contents;
* `CompactSet.ofDistinct` — storage for a list of distinct elements;
* `CompactSet.insert`, `CompactSet.erase` — changes of a set that is there;
* `CompactSet.add`, `CompactSet.remove`, `CompactSet.ofList` — the same on a possibly empty set;
* `CompactSet.equal` — equality of contents.
-/
import GraphIndex.CompactSet.Tier
import GraphIndex.ProbeTable
import GraphIndex.SwapErase

set_option autoImplicit false

namespace GraphIndex

/-- A set with at least one element. -/
inductive CompactSet (α : Type) where
  /-- One element. -/
  | single (a : α)
  /-- A few elements, in a list with room for `capacity` of them. -/
  | fixed (capacity : Nat) (items : List α)
  /-- Many elements. -/
  | overflow (table : ProbeTable α)

namespace CompactSet

variable {α : Type}

/-! ### Contents -/

/-- The number of elements. -/
def size : CompactSet α → Nat
  | single _ => 1
  | fixed _ items => items.length
  | overflow table => table.size

/-- A set that is stored at all is not empty. -/
def isEmpty (_s : CompactSet α) : Bool :=
  false

/-- The tier of the storage in use. -/
def tier : CompactSet α → Tier
  | single _ => .single
  | fixed capacity _ => .fixed capacity
  | overflow _ => .overflow

/-- The elements, in the order of storage. -/
def toList : CompactSet α → List α
  | single a => [a]
  | fixed _ items => items
  | overflow table => table.toList

/-- The number of slots that removals have left behind. -/
def holes : CompactSet α → Nat
  | overflow table => table.vacated
  | _ => 0

variable [BEq α] [Digest α]

/-- The element is in the set. -/
def contains (s : CompactSet α) (a : α) : Bool :=
  match s with
  | single b => b == a
  | fixed _ items => items.any (· == a)
  | overflow table => table.contains a

/-! ### Changes -/

/-- Storage for an element and others, all distinct, in the tier for their number. -/
def ofCons (a : α) (as : List α) : CompactSet α :=
  match Tier.ofSize (as.length + 1) with
  | some (.fixed capacity) => fixed capacity (a :: as)
  | some .overflow => overflow (ProbeTable.ofDistinct (a :: as))
  | _ => single a

/-- Storage for distinct elements, in the tier for their number. -/
def ofDistinct : List α → Option (CompactSet α)
  | [] => none
  | a :: as => some (ofCons a as)

/-- The set with one more element, which must not be in it. -/
def insertNew (s : CompactSet α) (a : α) : CompactSet α :=
  match s with
  | single b => ofCons b [a]
  | fixed capacity items =>
      if items.length < capacity then fixed capacity (items ++ [a])
      else
        match items with
        | [] => single a
        | b :: bs => ofCons b (bs ++ [a])
  | overflow table => overflow (table.insertNew a)

/-- The set with an element, and whether the element is new to it. -/
def insert (s : CompactSet α) (a : α) : Bool × CompactSet α :=
  if s.contains a then (false, s) else (true, s.insertNew a)

theorem insert_fst (s : CompactSet α) (a : α) : (s.insert a).1 = !s.contains a := by
  rw [insert]
  cases s.contains a <;> rfl

/-- A set in the tier for its number of elements: one that is in another tier is stored anew. -/
def settle (s : CompactSet α) : Option (CompactSet α) :=
  if some s.tier = Tier.ofSize s.size then some s else ofDistinct s.toList

/-- What is left of a set without one of its elements. -/
def eraseMember (s : CompactSet α) (a : α) : Option (CompactSet α) :=
  match s with
  | single _ => none
  | fixed capacity items =>
      (fixed capacity (match items.findIdx? (· == a) with
        | some i => swapErase items i
        | none => items)).settle
  | overflow table => (overflow (table.erase a)).settle

/-- What is left of a set without an element. -/
def erase (s : CompactSet α) (a : α) : Option (CompactSet α) :=
  if s.contains a then s.eraseMember a else some s

/-- Erasing an element that is absent changes nothing. -/
theorem erase_of_not_contains {s : CompactSet α} {a : α} (h : s.contains a = false) :
    s.erase a = some s := by
  simp [erase, h]

/-! ### Sets that may be empty -/

/-- The number of elements of a possibly empty set. -/
def count (s : Option (CompactSet α)) : Nat :=
  s.elim 0 size

/-- The element is in a possibly empty set. -/
def mem (s : Option (CompactSet α)) (a : α) : Bool :=
  s.any (·.contains a)

/-- A possibly empty set with an element. -/
def add (s : Option (CompactSet α)) (a : α) : Option (CompactSet α) :=
  match s with
  | none => some (single a)
  | some s => if s.contains a then some s else some (s.insertNew a)

/-- A possibly empty set without an element. -/
def remove (s : Option (CompactSet α)) (a : α) : Option (CompactSet α) :=
  match s with
  | none => none
  | some s => s.erase a

/-- Adding an element to a set that is there inserts it. -/
theorem add_some (s : CompactSet α) (a : α) : add (some s) a = some (s.insert a).2 := by
  rw [add, insert]
  cases s.contains a <;> rfl

/-- Adding an element that is present changes nothing. -/
theorem add_of_mem {s : Option (CompactSet α)} {a : α} (h : mem s a = true) : add s a = s := by
  cases s with
  | none => simp [mem] at h
  | some s => exact if_pos h

/-- Removing an element that is absent changes nothing. -/
theorem remove_of_not_mem {s : Option (CompactSet α)} {a : α} (h : mem s a = false) :
    remove s a = s := by
  cases s with
  | none => rfl
  | some s => exact erase_of_not_contains h

/-- The set of the elements of a list, added one after the other. -/
def ofList (as : List α) : Option (CompactSet α) :=
  as.foldl add none

/-! ### Equality -/

/-- The sets have the same elements. -/
def equal (s t : CompactSet α) : Bool :=
  s.size == t.size && s.toList.all t.contains

/-- Two possibly empty sets have the same elements. -/
def same (s t : Option (CompactSet α)) : Bool :=
  match s, t with
  | none, none => true
  | some s, some t => s.equal t
  | _, _ => false

end CompactSet

end GraphIndex
