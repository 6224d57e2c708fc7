/-
**Classified multisets.**  Elements grouped by a classifier.

Each classifier in use has a cell with the set of its elements, and the cells are kept in buckets
that are chosen by the digest of the classifier.  The same element can stand in several cells, if it
was added under different classifiers.  The number of buckets is a power of two.  It is doubled when
a new cell brings the share of cells per bucket above the growth watermark, and halved when a
removal finds it below the shrinking watermark, but never below the number to begin with.

Main definitions:

* `ClassifiedMultiset` — the type;
* `ClassifiedMultiset.cell?`, `ClassifiedMultiset.classifiers`, `ClassifiedMultiset.toList` — the
  contents;
* `ClassifiedMultiset.contains` — an element stands under a classifier;
* `ClassifiedMultiset.insertNew`, `ClassifiedMultiset.eraseMember` — adding an element under a
  classifier, and removing it;
* `ClassifiedMultiset.add`, `ClassifiedMultiset.remove` — the same with a classifying function;
* `ClassifiedMultiset.expand`, `ClassifiedMultiset.contract` — the two changes of capacity.
-/
import GraphIndex.ClassifiedMultiset.Sizing
import GraphIndex.CompactSet.Basic

set_option autoImplicit false

namespace GraphIndex

/-- The elements of one classifier. -/
structure Cell (κ α : Type) where
  /-- The classifier. -/
  key : κ
  /-- Its elements. -/
  members : CompactSet α

/-- Elements grouped by a classifier. -/
structure ClassifiedMultiset (κ α : Type) where
  /-- When the number of buckets changes. -/
  sizing : Sizing
  /-- The cells, by the digest of their classifier. -/
  buckets : Array (List (Cell κ α))
  /-- The number of cells. -/
  occupied : Nat
  /-- The number of elements, counted in every cell. -/
  size : Nat

namespace ClassifiedMultiset

variable {κ α : Type}

/-- The multiset without elements. -/
def empty (sizing : Sizing) : ClassifiedMultiset κ α where
  sizing
  buckets := Array.replicate sizing.floor []
  occupied := 0
  size := 0

/-- The multiset without elements, if the options are accepted and do not overflow. -/
def ofOptions? (o : SizingOptions) : Except SizingFailure (ClassifiedMultiset κ α) :=
  o.sizing?.map empty

theorem ofOptions?_eq_ok {o : SizingOptions} {s : Sizing} (h : o.sizing? = .ok s) :
    ofOptions? o = .ok (empty s : ClassifiedMultiset κ α) := by
  rw [ofOptions?, h]
  rfl

/-- The multiset without elements, with the standard options. -/
def standard : ClassifiedMultiset κ α :=
  empty Sizing.standard

/-! ### Contents -/

/-- The number of buckets. -/
def capacity (m : ClassifiedMultiset κ α) : Nat :=
  m.buckets.size

/-- There are no elements. -/
def isEmpty (m : ClassifiedMultiset κ α) : Bool :=
  m.size == 0

/-- The cells, bucket by bucket. -/
def cells (m : ClassifiedMultiset κ α) : List (Cell κ α) :=
  m.buckets.toList.flatten

/-- The classifiers in use. -/
def classifiers (m : ClassifiedMultiset κ α) : List κ :=
  m.cells.map Cell.key

/-- The elements, cell by cell. -/
def toList (m : ClassifiedMultiset κ α) : List α :=
  m.cells.flatMap fun c => c.members.toList

/-! ### Buckets -/

section Buckets

variable [Digest κ]

/-- The bucket of a classifier among the given ones. -/
def bucketOf (buckets : Array (List (Cell κ α))) (k : κ) : Nat :=
  (digest k).toNat % buckets.size

/-- The cells in the bucket of a classifier. -/
def chain (m : ClassifiedMultiset κ α) (k : κ) : List (Cell κ α) :=
  m.buckets.getD (bucketOf m.buckets k) []

/-- Buckets with one more cell. -/
def pushCell (buckets : Array (List (Cell κ α))) (c : Cell κ α) : Array (List (Cell κ α)) :=
  buckets.modify (bucketOf buckets c.key) (· ++ [c])

/-- The multiset with its cells in the given number of buckets. -/
def resize (m : ClassifiedMultiset κ α) (capacity : Nat) : ClassifiedMultiset κ α :=
  { m with buckets := m.cells.foldl pushCell (Array.replicate capacity []) }

/-- The table is doubled if its cells are above the growth watermark. -/
def expand (m : ClassifiedMultiset κ α) : ClassifiedMultiset κ α :=
  if m.sizing.growLoad * (m.capacity : Rat) < (m.occupied : Rat) then m.resize (m.capacity * 2)
  else m

/-- The table is halved if its cells are below the shrinking watermark and it has more buckets than
to begin with. -/
def contract (m : ClassifiedMultiset κ α) : ClassifiedMultiset κ α :=
  if m.sizing.floor ≤ m.capacity / 2
      ∧ (m.occupied : Rat) < m.sizing.shrinkLoad * (m.capacity : Rat) then
    m.resize (m.capacity / 2)
  else m

end Buckets

/-! ### Cells -/

variable [BEq κ] [Digest κ]

/-- The cell of a classifier. -/
def findCell? (m : ClassifiedMultiset κ α) (k : κ) : Option (Cell κ α) :=
  (m.chain k).find? (·.key == k)

/-- The set of the elements of a classifier. -/
def cell? (m : ClassifiedMultiset κ α) (k : κ) : Option (CompactSet α) :=
  (m.findCell? k).map Cell.members

/-- The element is in the cell of the classifier. -/
def contains [BEq α] [Digest α] (m : ClassifiedMultiset κ α) (k : κ) (a : α) : Bool :=
  CompactSet.mem (m.cell? k) a

/-- Cells in which the set of one classifier is changed.  A new cell goes to the end, and the last
cell takes the place of one that has lost its last element. -/
def alterChain (k : κ) (f : Option (CompactSet α) → Option (CompactSet α)) :
    List (Cell κ α) → List (Cell κ α)
  | [] =>
      match f none with
      | none => []
      | some s => [⟨k, s⟩]
  | c :: cs =>
      if c.key == k then
        match f (some c.members) with
        | none => cs.rotateRight
        | some s => ⟨c.key, s⟩ :: cs
      else c :: alterChain k f cs

/-- Buckets in which the set of one classifier is changed. -/
def alterCell (buckets : Array (List (Cell κ α))) (k : κ)
    (f : Option (CompactSet α) → Option (CompactSet α)) : Array (List (Cell κ α)) :=
  buckets.modify (bucketOf buckets k) (alterChain k f)

/-! ### Changes -/

variable [BEq α] [Digest α]

/-- The multiset with one more element in the cell of the classifier, which must not be in it. -/
def insertNew (m : ClassifiedMultiset κ α) (k : κ) (a : α) : ClassifiedMultiset κ α :=
  let isNewCell := (m.cell? k).isNone
  match m with
  | ⟨sizing, buckets, occupied, size⟩ =>
      let buckets := alterCell buckets k (CompactSet.add · a)
      if isNewCell then expand ⟨sizing, buckets, occupied + 1, size + 1⟩
      else ⟨sizing, buckets, occupied, size + 1⟩

/-- The multiset without an element that is in the cell of the classifier, and without the cell if
that was its last element. -/
def eraseMember (m : ClassifiedMultiset κ α) (k : κ) (a : α) : ClassifiedMultiset κ α :=
  match m with
  | ⟨sizing, buckets, occupied, size⟩ =>
      let left : ClassifiedMultiset κ α :=
        ⟨sizing, alterCell buckets k (CompactSet.remove · a), occupied, size - 1⟩
      contract (if (left.cell? k).isNone then { left with occupied := occupied - 1 } else left)

/-- An element is added to the cell of its class; also answers whether it was absent. -/
def add (m : ClassifiedMultiset κ α) (classify : α → κ) (a : α) :
    Bool × ClassifiedMultiset κ α :=
  let k := classify a
  if m.contains k a then (false, m) else (true, m.insertNew k a)

/-- An element is removed from the cell of its class; also answers whether it was present. -/
def remove (m : ClassifiedMultiset κ α) (classify : α → κ) (a : α) :
    Bool × ClassifiedMultiset κ α :=
  let k := classify a
  if m.contains k a then (true, m.eraseMember k a) else (false, m)

end ClassifiedMultiset

end GraphIndex
