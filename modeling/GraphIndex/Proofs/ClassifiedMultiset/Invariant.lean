/-
**The invariant of classified multisets.**  Every cell sits in the bucket of its classifier, no two
cells have the same classifier, and the counter of cells is right.

Adding and removing an element changes the set of one classifier and leaves every other cell as it
is; growing and shrinking change where the cells are kept and nothing else.  Up to the order of
its cells, what becomes of a multiset does therefore not depend on its number of buckets.

Main definitions:

* `ClassifiedMultiset.WellFormed` — the invariant;
* `ClassifiedMultiset.Stores` — a well-formed multiset with given cells.

Main results:

* `ClassifiedMultiset.WellFormed.expand`, `ClassifiedMultiset.WellFormed.contract` — growing and
  shrinking keep the cells;
* `ClassifiedMultiset.WellFormed.insertNew`, `ClassifiedMultiset.WellFormed.eraseMember` — **the two
  changes keep the invariant**, and what they do to the cells;
* `ClassifiedMultiset.Stores.cell?_eq` — what they do to the set of every classifier.
-/
import GraphIndex.Proofs.ClassifiedMultiset.Buckets
import GraphIndex.Proofs.CompactSet.Invariant

set_option autoImplicit false

namespace GraphIndex

namespace ClassifiedMultiset

variable {κ α : Type} [BEq κ] [Digest κ]

/-- Every cell is where its classifier belongs and has its own classifier, the cells are counted,
and the number of buckets is a power of two and not below the number to begin with. -/
structure WellFormed (m : ClassifiedMultiset κ α) : Prop where
  /-- Every cell sits in the bucket of its classifier. -/
  placed : Placed m.buckets
  /-- No two cells have the same classifier. -/
  distinct : Distinct m.classifiers
  /-- The cells are counted. -/
  occupied_eq : m.occupied = m.cells.length
  /-- The number of buckets is a power of two. -/
  isPowerOfTwo : m.capacity.isPowerOfTwo
  /-- There are buckets to begin with. -/
  floor_pos : 0 < m.sizing.floor
  /-- There are not fewer buckets than to begin with. -/
  floor_le : m.sizing.floor ≤ m.capacity

/-- The multiset is well formed and has the given sizing, the given cells, up to order, and the
given size. -/
structure Stores (m : ClassifiedMultiset κ α) (sizing : Sizing) (cs : List (Cell κ α)) (n : Nat) :
    Prop where
  /-- The multiset is well formed. -/
  wellFormed : m.WellFormed
  /-- The sizing is the given one. -/
  sizing_eq : m.sizing = sizing
  /-- The cells are the given ones. -/
  perm : m.cells.Perm cs
  /-- The size is the given one. -/
  size_eq : m.size = n

variable {m : ClassifiedMultiset κ α}

theorem WellFormed.capacity_pos (h : m.WellFormed) : 0 < m.capacity :=
  Nat.pos_of_isPowerOfTwo h.isPowerOfTwo

theorem WellFormed.stores (h : m.WellFormed) : Stores m m.sizing m.cells m.size :=
  ⟨h, rfl, List.Perm.refl _, rfl⟩

/-! ### Without elements -/

omit [BEq κ] [Digest κ] in
theorem cells_empty (sizing : Sizing) : (empty sizing : ClassifiedMultiset κ α).cells = [] := by
  rw [cells, empty, Array.toList_replicate, List.flatten_replicate_nil]

theorem WellFormed.empty {sizing : Sizing} (h : sizing.floor.isPowerOfTwo) :
    (ClassifiedMultiset.empty sizing : ClassifiedMultiset κ α).WellFormed where
  placed := placed_replicate _
  distinct := by
    rw [classifiers, cells_empty]
    exact Distinct.nil
  occupied_eq := congrArg List.length (cells_empty sizing).symm
  isPowerOfTwo := by rwa [capacity, ClassifiedMultiset.empty, Array.size_replicate]
  floor_pos := Nat.pos_of_isPowerOfTwo h
  floor_le := Nat.le_of_eq Array.size_replicate.symm

/-! ### Growing and shrinking -/

section Resize

variable [EquivBEq κ]

theorem Stores.resize {sizing : Sizing} {cs : List (Cell κ α)} {n c : Nat}
    (h : Stores m sizing cs n) (hc : c.isPowerOfTwo) (hle : m.sizing.floor ≤ c) :
    Stores (m.resize c) sizing cs n := by
  have hpos := Nat.pos_of_isPowerOfTwo hc
  have hperm := resize_perm m hpos
  refine ⟨⟨placed_resize m hpos, ?_, ?_, ?_, h.wellFormed.floor_pos, ?_⟩, h.sizing_eq, ?_,
    h.size_eq⟩
  · exact h.wellFormed.distinct.perm (hperm.map _).symm
  · rw [hperm.length_eq]
    exact h.wellFormed.occupied_eq
  · rwa [capacity_resize m hpos]
  · rw [capacity_resize m hpos]
    exact hle
  · exact hperm.trans h.perm

/-- **Growing keeps the cells.** -/
theorem Stores.expand {sizing : Sizing} {cs : List (Cell κ α)} {n : Nat}
    (h : Stores m sizing cs n) : Stores m.expand sizing cs n := by
  rw [ClassifiedMultiset.expand]
  split
  · refine h.resize (Nat.isPowerOfTwo_mul_two_of_isPowerOfTwo h.wellFormed.isPowerOfTwo) ?_
    exact Nat.le_trans h.wellFormed.floor_le (Nat.le_mul_of_pos_right _ Nat.two_pos)
  · exact h

/-- **Shrinking keeps the cells.** -/
theorem Stores.contract {sizing : Sizing} {cs : List (Cell κ α)} {n : Nat}
    (h : Stores m sizing cs n) : Stores m.contract sizing cs n := by
  rw [ClassifiedMultiset.contract]
  split
  · next hsmall =>
      have hpos := Nat.lt_of_lt_of_le h.wellFormed.floor_pos hsmall.1
      exact h.resize (ProbeTable.isPowerOfTwo_half h.wellFormed.isPowerOfTwo hpos) hsmall.1
  · exact h

end Resize

/-! ### The cell of a classifier -/

section Lookup

variable [EquivBEq κ] [LawfulDigest κ]

theorem WellFormed.findCell?_eq (h : m.WellFormed) (k : κ) :
    m.findCell? k = m.cells.find? (·.key == k) :=
  h.placed.find?_chain h.capacity_pos h.distinct k

theorem WellFormed.cell?_of_mem (h : m.WellFormed) {c : Cell κ α} (hc : c ∈ m.cells) :
    m.cell? c.key = some c.members := by
  rw [cell?, h.findCell?_eq, (find?_key_eq_some_iff h.distinct).2 ⟨hc, BEq.rfl⟩, Option.map_some]

theorem Stores.findCell?_eq {sizing : Sizing} {cs : List (Cell κ α)} {n : Nat}
    (h : Stores m sizing cs n) (k : κ) : m.findCell? k = cs.find? (·.key == k) := by
  rw [h.wellFormed.findCell?_eq, find?_key_perm h.wellFormed.distinct h.perm]

/-- **Only the set of one classifier is changed.** -/
theorem Stores.cell?_eq {m' : ClassifiedMultiset κ α} {sizing : Sizing} {k : κ} {n : Nat}
    {f : Option (CompactSet α) → Option (CompactSet α)} (h : m.WellFormed)
    (h' : Stores m' sizing (alterCells k f m.cells) n) (l : κ) :
    m'.cell? l = if k == l then f (m.cell? k) else m.cell? l := by
  rw [cell?, h'.findCell?_eq, find?_alterCells, ← h.findCell?_eq, ← h.findCell?_eq]
  cases k == l with
  | false => rfl
  | true => exact members_alter? k f _

end Lookup

/-! ### The changes -/

section Changes

variable [EquivBEq κ] [LawfulDigest κ]

/-- The cells are counted anew when one of them comes or goes. -/
theorem WellFormed.length_alterCells (h : m.WellFormed) (k : κ)
    (f : Option (CompactSet α) → Option (CompactSet α)) :
    (alterCells k f m.cells).length + (m.cell? k).toList.length =
      m.occupied + (f (m.cell? k)).toList.length := by
  have hlen := (perm_find?_others (k := k) h.distinct).length_eq
  rw [← h.findCell?_eq, List.length_append] at hlen
  rw [cell?, ← members_alter? k f, Option.toList_map, Option.toList_map, List.length_map,
    List.length_map, alterCells, List.length_append, ← h.findCell?_eq, h.occupied_eq, hlen]
  omega

/-- A multiset in which one chain has been changed is well formed, if its cells are counted. -/
theorem WellFormed.stores_alterCell (h : m.WellFormed) (k : κ)
    (f : Option (CompactSet α) → Option (CompactSet α)) {occupied : Nat} (n : Nat)
    (ho : occupied = (alterCells k f m.cells).length) :
    Stores ⟨m.sizing, alterCell m.buckets k f, occupied, n⟩ m.sizing (alterCells k f m.cells)
      n := by
  have hperm := h.placed.alterCell_perm h.capacity_pos h.distinct k f
  have hsize : (alterCell m.buckets k f).size = m.buckets.size := Array.size_modify ..
  refine ⟨⟨h.placed.alterCell k f, ?_, ?_, ?_, h.floor_pos, ?_⟩, rfl, hperm, rfl⟩
  · exact (Distinct.alterCells h.distinct k f).perm (hperm.map _).symm
  · rw [ho]
    exact hperm.length_eq.symm
  · rw [capacity, hsize]
    exact h.isPowerOfTwo
  · rw [capacity, hsize]
    exact h.floor_le

variable [BEq α] [Digest α]

omit [EquivBEq κ] [LawfulDigest κ] in
/-- A new cell is counted, and the table may grow. -/
theorem insertNew_of_cell?_eq_none {k : κ} (h : m.cell? k = none) (a : α) :
    m.insertNew k a = expand ⟨m.sizing, alterCell m.buckets k (CompactSet.add · a), m.occupied + 1,
      m.size + 1⟩ := by
  rw [ClassifiedMultiset.insertNew, h]
  rfl

omit [EquivBEq κ] [LawfulDigest κ] in
/-- In a cell that is there, only the elements are counted. -/
theorem insertNew_of_cell?_eq_some {k : κ} {s : CompactSet α} (h : m.cell? k = some s) (a : α) :
    m.insertNew k a = ⟨m.sizing, alterCell m.buckets k (CompactSet.add · a), m.occupied,
      m.size + 1⟩ := by
  rw [ClassifiedMultiset.insertNew, h]
  rfl

/-- **Adding an element changes its cell and no other.** -/
theorem WellFormed.insertNew (h : m.WellFormed) (k : κ) (a : α) :
    Stores (m.insertNew k a) m.sizing (alterCells k (CompactSet.add · a) m.cells)
      (m.size + 1) := by
  have hlen := h.length_alterCells k (CompactSet.add · a)
  cases hc : m.cell? k with
  | none =>
      rw [insertNew_of_cell?_eq_none hc]
      refine (h.stores_alterCell k _ _ ?_).expand
      rw [hc] at hlen
      exact hlen.symm
  | some s =>
      rw [insertNew_of_cell?_eq_some hc]
      refine h.stores_alterCell k _ _ ?_
      rw [hc, CompactSet.add_some] at hlen
      exact (Nat.add_right_cancel hlen).symm

/-- **Removing an element changes its cell and no other.** -/
theorem WellFormed.eraseMember (h : m.WellFormed) {k : κ} {a : α} (ha : m.contains k a = true) :
    Stores (m.eraseMember k a) m.sizing (alterCells k (CompactSet.remove · a) m.cells)
      (m.size - 1) := by
  have hlen := h.length_alterCells k (CompactSet.remove · a)
  -- what is left of the cell does not depend on how the cells are counted
  have hleft : ∀ occupied, (⟨m.sizing, alterCell m.buckets k (CompactSet.remove · a), occupied,
      m.size - 1⟩ : ClassifiedMultiset κ α).cell? k = CompactSet.remove (m.cell? k) a := fun _ =>
    ((h.stores_alterCell k (CompactSet.remove · a) (m.size - 1) rfl).cell?_eq h k).trans
      (if_pos BEq.rfl)
  cases hc : m.cell? k with
  | none =>
      rw [contains, hc] at ha
      exact absurd ha Bool.false_ne_true
  | some s =>
      rw [hc] at hlen hleft
      rw [ClassifiedMultiset.eraseMember]
      dsimp only
      rw [hleft]
      cases hs : CompactSet.remove (some s) a with
      | none =>
          -- that was its last element
          rw [hs] at hlen
          refine (h.stores_alterCell k _ _ ?_).contract
          exact Nat.sub_eq_of_eq_add hlen.symm
      | some t =>
          rw [hs] at hlen
          refine (h.stores_alterCell k _ _ ?_).contract
          exact (Nat.add_right_cancel hlen).symm

end Changes

end ClassifiedMultiset

end GraphIndex
