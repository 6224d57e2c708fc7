/-
**Classified multisets as sets of pairs.**  A classified multiset has a cell for every classifier of
a list of pairs of a classifier and an element, and in it the elements of this classifier.

Two pairs are equal if their classifiers and their elements are.  Adding an element under a
classifier puts the pair of both in front of the list, unless an equal one is there, and removing it
takes this pair out.  What can be asked of the multiset, whichever way it keeps its cells, has its
answer in the list.

Main definitions:

* `ClassifiedMultiset.elementsOf` — the elements of a classifier;
* `ClassifiedMultiset.Represents` — a multiset is a list of pairs;
* `ClassifiedMultiset.Answers` — what can be asked of it.

Main results:

* `ClassifiedMultiset.Represents.add`, `ClassifiedMultiset.Represents.remove` — **adding and
  removing keep multiset and pairs together**;
* `ClassifiedMultiset.Represents.answers` — **what can be asked has its answer in the pairs**.
-/
import GraphIndex.Proofs.ClassifiedMultiset.Invariant

set_option autoImplicit false

namespace GraphIndex

namespace ClassifiedMultiset

variable {κ α : Type} [BEq κ]

/-! ### The elements of a classifier -/

/-- The elements that stand in pairs with a classifier. -/
def elementsOf (ps : List (κ × α)) (k : κ) : List α :=
  (ps.filter (·.1 == k)).map Prod.snd

theorem elementsOf_cons (p : κ × α) (ps : List (κ × α)) (k : κ) :
    elementsOf (p :: ps) k = if p.1 == k then p.2 :: elementsOf ps k else elementsOf ps k := by
  rw [elementsOf, List.filter_cons]
  split <;> rfl

theorem elementsOf_eq_nil_iff {ps : List (κ × α)} {k : κ} :
    elementsOf ps k = [] ↔ ∀ p ∈ ps, (p.1 == k) = false := by
  rw [elementsOf, List.map_eq_nil_iff, List.filter_eq_nil_iff]
  simp only [Bool.not_eq_true]

variable [EquivBEq κ]

theorem elementsOf_congr (ps : List (κ × α)) {k l : κ} (h : (k == l) = true) :
    elementsOf ps k = elementsOf ps l := by
  rw [elementsOf, elementsOf]
  simp only [BEq.congr_right h]

variable [BEq α]

theorem contains_elementsOf (ps : List (κ × α)) (k : κ) (a : α) :
    (elementsOf ps k).contains a = ps.contains (k, a) := by
  induction ps with
  | nil => rfl
  | cons p ps ih =>
      have hpair : ((k, a) == p) = (k == p.1 && a == p.2) := rfl
      rw [elementsOf_cons, List.contains_cons, hpair, ← ih, BEq.comm]
      cases k == p.1 with
      | false => simp
      | true => simp

theorem elementsOf_insert (ps : List (κ × α)) (k l : κ) (a : α) :
    elementsOf (ps.insert (k, a)) l =
      if k == l then (elementsOf ps k).insert a else elementsOf ps l := by
  rw [List.insert, List.insert, contains_elementsOf]
  cases ps.contains (k, a) with
  | true =>
      cases hkl : k == l with
      | false => rfl
      | true => exact (elementsOf_congr ps hkl).symm
  | false =>
      rw [if_neg Bool.false_ne_true, if_neg Bool.false_ne_true, elementsOf_cons]
      cases hkl : k == l with
      | false => rfl
      | true => exact congrArg (a :: ·) (elementsOf_congr ps hkl).symm

theorem elementsOf_without (ps : List (κ × α)) (k l : κ) (a : α) :
    elementsOf (without ps (k, a)) l =
      if k == l then without (elementsOf ps k) a else elementsOf ps l := by
  have hpair : ∀ p : κ × α, (p == (k, a)) = (p.1 == k && p.2 == a) := fun _ => rfl
  rw [elementsOf, without, List.filter_filter]
  cases hkl : k == l with
  | true =>
      rw [if_pos rfl, without, elementsOf, List.filter_map, List.filter_filter]
      refine congrArg (List.map Prod.snd) (List.filter_congr fun p _ => ?_)
      rw [hpair, ← BEq.congr_right hkl, Function.comp_apply]
      cases p.1 == k <;> simp
  | false =>
      rw [if_neg Bool.false_ne_true, elementsOf]
      refine congrArg (List.map Prod.snd) (List.filter_congr fun p _ => ?_)
      rw [hpair]
      cases hpk : p.1 == k with
      | false => simp
      | true => rw [BEq.congr_left hpk, hkl, Bool.false_and]

/-! ### Pairs and cells -/

section Pairs

variable [Digest κ] [Digest α]

/-- The multiset is well formed, and its cells hold the elements of their classifiers. -/
structure Represents (m : ClassifiedMultiset κ α) (ps : List (κ × α)) : Prop where
  /-- The multiset is well formed. -/
  wellFormed : m.WellFormed
  /-- The pairs are distinct. -/
  distinct : Distinct ps
  /-- The elements are counted. -/
  size_eq : m.size = ps.length
  /-- The cells hold the elements of their classifiers. -/
  cells : ∀ k, CompactSet.Represents (m.cell? k) (elementsOf ps k)

variable {m : ClassifiedMultiset κ α} {ps : List (κ × α)}

theorem Represents.empty [LawfulDigest κ] {sizing : Sizing} (h : sizing.floor.isPowerOfTwo) :
    Represents (ClassifiedMultiset.empty sizing : ClassifiedMultiset κ α) [] where
  wellFormed := WellFormed.empty h
  distinct := Distinct.nil
  size_eq := rfl
  cells k := by
    have hnone : (ClassifiedMultiset.empty sizing : ClassifiedMultiset κ α).cell? k = none := by
      rw [cell?, (WellFormed.empty h).findCell?_eq, cells_empty]
      rfl
    rw [hnone]
    exact CompactSet.Represents.none

omit [EquivBEq κ] in
theorem Represents.cell_eq_none_iff (h : Represents m ps) (k : κ) :
    m.cell? k = none ↔ ∀ p ∈ ps, (p.1 == k) = false :=
  (h.cells k).eq_none_iff.trans elementsOf_eq_nil_iff

variable [EquivBEq α] [LawfulDigest α]

theorem Represents.contains_eq (h : Represents m ps) (k : κ) (a : α) :
    m.contains k a = ps.contains (k, a) := by
  rw [contains, (h.cells k).mem_eq, contains_elementsOf]

variable [LawfulDigest κ]

/-- **Adding an element puts its pair in front, unless it is there.** -/
theorem Represents.add (h : Represents m ps) (classify : α → κ) (a : α) :
    Represents (m.add classify a).2 (ps.insert (classify a, a)) := by
  have hcontains := h.contains_eq (classify a) a
  rw [ClassifiedMultiset.add]
  cases hp : ps.contains (classify a, a) with
  | true =>
      rw [hcontains, hp, List.insert, hp]
      exact h
  | false =>
      rw [hcontains, hp, if_neg Bool.false_ne_true]
      have hstores := h.wellFormed.insertNew (classify a) a
      refine ⟨hstores.wellFormed, h.distinct.insert _, ?_, fun l => ?_⟩
      · rw [hstores.size_eq, h.size_eq, insert_of_contains_eq_false hp, List.length_cons]
      · rw [hstores.cell?_eq h.wellFormed, elementsOf_insert]
        split
        · exact (h.cells (classify a)).add a
        · exact h.cells l

/-- **Removing an element takes its pair out, if it is there.** -/
theorem Represents.remove (h : Represents m ps) (classify : α → κ) (a : α) :
    Represents (m.remove classify a).2 (without ps (classify a, a)) := by
  have hcontains := h.contains_eq (classify a) a
  rw [ClassifiedMultiset.remove]
  cases hp : ps.contains (classify a, a) with
  | false =>
      rw [hcontains, hp, without_of_contains_eq_false hp]
      exact h
  | true =>
      rw [hp] at hcontains
      rw [hcontains, if_pos rfl]
      have hstores := h.wellFormed.eraseMember hcontains
      refine ⟨hstores.wellFormed, h.distinct.without _, ?_, fun l => ?_⟩
      · -- one pair less
        obtain ⟨q, rest, hq, p⟩ := exists_perm_cons_of_contains hp
        rw [hstores.size_eq, h.size_eq, ← p.length_eq, ← (perm_without p hq h.distinct).length_eq,
          List.length_cons, Nat.add_sub_cancel]
      · rw [hstores.cell?_eq h.wellFormed, elementsOf_without]
        split
        · exact (h.cells (classify a)).remove a
        · exact h.cells l

/-! ### What can be asked -/

/-- What can be asked of a multiset has its answer in a list of distinct pairs. -/
structure Answers (m : ClassifiedMultiset κ α) (ps : List (κ × α)) : Prop where
  /-- Adding answers whether the pair was absent. -/
  add_eq : ∀ classify a, (m.add classify a).1 = !ps.contains (classify a, a)
  /-- Removing answers whether the pair was present. -/
  remove_eq : ∀ classify a, (m.remove classify a).1 = ps.contains (classify a, a)
  /-- A classifier yields its elements. -/
  cell_perm : ∀ k, (CompactSet.view (m.cell? k)).toList.Perm (elementsOf ps k)
  /-- It yields each of them once. -/
  cell_distinct : ∀ k, Distinct (CompactSet.view (m.cell? k)).toList
  /-- A classifier without elements has no cell. -/
  cell_eq_none_iff : ∀ k, m.cell? k = none ↔ ∀ p ∈ ps, (p.1 == k) = false
  /-- The pairs are counted. -/
  size_eq : m.size = ps.length
  /-- The classifiers are counted. -/
  occupied_eq : m.occupied = (ps.map Prod.fst).eraseDups.length
  /-- The classifiers are those of the pairs. -/
  contains_classifiers : ∀ k, m.classifiers.contains k = (ps.map Prod.fst).contains k
  /-- Each classifier is listed once. -/
  classifiers_distinct : Distinct m.classifiers
  /-- There is one element for each pair. -/
  toList_perm : m.toList.Perm (ps.map Prod.snd)
  /-- A multiset without elements is one without cells. -/
  isEmpty_iff : m.isEmpty = true ↔ m.occupied = 0

omit [EquivBEq α] [LawfulDigest α] in
/-- A classifier is in use if a pair has it. -/
theorem Represents.contains_classifiers (h : Represents m ps) (k : κ) :
    m.classifiers.contains k = (ps.map Prod.fst).contains k := by
  have hnone := h.cell_eq_none_iff k
  rw [cell?, Option.map_eq_none_iff, h.wellFormed.findCell?_eq, List.find?_eq_none] at hnone
  have hfalse : m.classifiers.contains k = false ↔ (ps.map Prod.fst).contains k = false := by
    rw [classifiers, contains_eq_false_iff, contains_eq_false_iff]
    simpa [BEq.comm] using hnone
  rw [Bool.eq_iff_iff, ← Bool.not_eq_false, ← Bool.not_eq_false, hfalse]

omit [EquivBEq α] [LawfulDigest α] in
theorem Represents.toList_perm (h : Represents m ps) : m.toList.Perm (ps.map Prod.snd) := by
  refine flatMap_groups_perm Prod.fst h.wellFormed.distinct ?_ ?_
  · intro c hc
    have hperm := (h.cells c.key).perm
    rwa [h.wellFormed.cell?_of_mem hc, CompactSet.toList_view] at hperm
  · intro p hp
    have hin := h.contains_classifiers p.1
    have hp1 : (ps.map Prod.fst).contains p.1 = true :=
      List.contains_iff_exists_mem_beq.2 ⟨p.1, List.mem_map_of_mem hp, BEq.rfl⟩
    rw [hp1] at hin
    obtain ⟨l, hl, hpl⟩ := List.contains_iff_exists_mem_beq.1 hin
    obtain ⟨c, hc, rfl⟩ := List.mem_map.1 hl
    exact ⟨c, hc, hpl⟩

omit [EquivBEq α] [LawfulDigest α] in
/-- There are as many cells as classifiers in the pairs. -/
theorem Represents.occupied_eq (h : Represents m ps) :
    m.occupied = (ps.map Prod.fst).eraseDups.length := by
  obtain ⟨hd, hc⟩ := eraseDups_spec (ps.map Prod.fst)
  have hsame : ∀ k, m.classifiers.contains k = (ps.map Prod.fst).eraseDups.contains k := by
    intro k
    rw [h.contains_classifiers, hc]
  rw [h.wellFormed.occupied_eq, ← h.wellFormed.distinct.length_eq hd hsame, classifiers,
    List.length_map]

omit [EquivBEq α] [LawfulDigest α] in
/-- A multiset without elements is one without cells. -/
theorem Represents.isEmpty_iff (h : Represents m ps) : m.isEmpty = true ↔ m.occupied = 0 := by
  rw [isEmpty, beq_iff_eq, h.size_eq, List.length_eq_zero_iff, h.wellFormed.occupied_eq,
    List.length_eq_zero_iff]
  constructor
  · rintro rfl
    refine List.eq_nil_iff_forall_not_mem.2 fun c hc => ?_
    have hnone := (h.cell_eq_none_iff c.key).2 (by simp)
    rw [h.wellFormed.cell?_of_mem hc] at hnone
    cases hnone
  · intro hnil
    have hperm := h.toList_perm
    rw [toList, hnil] at hperm
    exact List.map_eq_nil_iff.1 hperm.nil_eq.symm

/-- **What can be asked of a multiset has its answer in the pairs.** -/
theorem Represents.answers (h : Represents m ps) : Answers m ps where
  add_eq classify a := by
    rw [ClassifiedMultiset.add, h.contains_eq]
    cases ps.contains (classify a, a) <;> rfl
  remove_eq classify a := by
    rw [ClassifiedMultiset.remove, h.contains_eq]
    cases ps.contains (classify a, a) <;> rfl
  cell_perm k := (h.cells k).perm
  cell_distinct k := (h.cells k).distinct.perm (h.cells k).perm.symm
  cell_eq_none_iff := h.cell_eq_none_iff
  size_eq := h.size_eq
  occupied_eq := h.occupied_eq
  contains_classifiers := h.contains_classifiers
  classifiers_distinct := h.wellFormed.distinct
  toList_perm := h.toList_perm
  isEmpty_iff := h.isEmpty_iff

end Pairs

end ClassifiedMultiset

end GraphIndex
