/-
**Property indexes.**  For one property of one kind of elements, the elements by value.

An index files an element under the key of its value, if the element is not deleted and has such a
value.  What is filed is the element as it is at that moment, and adding an identical element again
under the same key keeps the one that is there.  A key is dropped together with its last element.
Elements are added and removed with a permit of the lock that the index belongs to; with any other
permit the index stays as it is.

Main definitions:

* `Index` — the type;
* `Index.file`, `Index.withdraw` — what adding and removing do to the entries;
* `Index.load`, `Index.add`, `Index.remove` — the same with a permit;
* `Index.entry?`, `Index.get` — the set filed under a key, and the elements with a value.
-/
import GraphIndex.CompactSet.Basic
import GraphIndex.Element.Basic
import GraphIndex.Lock
import Std.Data.TreeMap.Basic

set_option autoImplicit false

namespace GraphIndex

/-- The elements of one kind by their value of one property. -/
structure Index (kind : ElementKind) where
  /-- The name of the property. -/
  key : String
  /-- The lock that the index belongs to. -/
  owner : LockId
  /-- The elements filed under each key. -/
  entries : Std.TreeMap ValueKey (CompactSet (Element kind)) ValueKey.compare

namespace Index

variable {kind : ElementKind}

/-- An index without elements. -/
def ofKey (key : String) (owner : LockId) : Index kind :=
  ⟨key, owner, ∅⟩

/-! ### Changes of the entries -/

/-- The key under which the index files an element. -/
def keyOf? (ix : Index kind) (e : Element kind) : Option ValueKey :=
  e.keyFor? ix.key

/-- The index with one more element, if that element is to be filed. -/
def file (ix : Index kind) (e : Element kind) : Index kind :=
  if e.isDeleted then ix
  else
    match ix.keyOf? e with
    | none => ix
    | some k => { ix with entries := ix.entries.alter k (CompactSet.add · e) }

/-- The index in which the element is not filed under its present value. -/
def withdraw (ix : Index kind) (e : Element kind) : Index kind :=
  match ix.keyOf? e with
  | none => ix
  | some k => { ix with entries := ix.entries.alter k (CompactSet.remove · e) }

/-! ### Changes with a permit -/

/-- A change is made if the permit is of the lock of the index; answers how it ended, and the index
after it. -/
def changeWith (ix : Index kind) (p : Permit) (change : Index kind → Index kind) :
    Except IndexError Unit × Index kind :=
  match p.check ix.owner with
  | .ok () => (.ok (), change ix)
  | .error e => (.error e, ix)

/-- The elements are added one after the other. -/
def load (ix : Index kind) (p : Permit) (es : List (Element kind)) :
    Except IndexError Unit × Index kind :=
  ix.changeWith p (es.foldl file ·)

/-- The element is added under its present value, if it is not deleted. -/
def add (ix : Index kind) (p : Permit) (e : Element kind) : Except IndexError Unit × Index kind :=
  ix.changeWith p (·.file e)

/-- The element is removed from under its present value, deleted or not. -/
def remove (ix : Index kind) (p : Permit) (e : Element kind) :
    Except IndexError Unit × Index kind :=
  ix.changeWith p (·.withdraw e)

/-! ### Contents -/

/-- The elements filed under a key. -/
def entry? (ix : Index kind) (k : ValueKey) : Option (CompactSet (Element kind)) :=
  ix.entries[k]?

/-- Copies of the elements with a value. -/
def get (ix : Index kind) (v : Value) : List (Element kind) :=
  match (ValueKey.ofValue? v).bind ix.entry? with
  | some s => s.toList.map Element.detached
  | none => []

/-- The sets of elements filed under the keys. -/
def sets (ix : Index kind) : List (CompactSet (Element kind)) :=
  ix.entries.values

/-- The number of keys in use. -/
def valueCount (ix : Index kind) : Nat :=
  ix.entries.size

/-- The number of elements filed. -/
def size (ix : Index kind) : Nat :=
  ix.sets.foldr (fun s n => s.size + n) 0

/-- The tiers of the sets with the number of sets in each, the smallest tier first. -/
def tierCounts (ix : Index kind) : List (CompactSet.Tier × Nat) :=
  (CompactSet.Tier.all.map fun t => (t, ix.sets.countP (·.tier == t))).filter fun p => p.2 ≠ 0

/-- No element is filed. -/
def isEmpty (ix : Index kind) : Bool :=
  ix.valueCount == 0

end Index

end GraphIndex
