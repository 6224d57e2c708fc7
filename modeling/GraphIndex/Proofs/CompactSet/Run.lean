/-
**Runs of compact sets.**  A compact set is a finite set, whatever has happened to it.

A run begins without a set and makes one change after the other.  Beside it runs a reference: the
list of the elements that were added and not removed since, in which no two are equal.  After every
run the set represents this list, and so it is the tier for the number of elements, and nothing of
its history, that decides how the elements are stored.

Main definitions:

* `CompactSet.Change`, `CompactSet.Change.apply`, `CompactSet.run` — the changes, and what they do
  to a set;
* `CompactSet.Change.list`, `CompactSet.reference` — what they do to the list of elements.

Main results:

* `CompactSet.Represents.apply`, `CompactSet.represents_run` — every change, and so every run, keeps
  set and list together;
* `CompactSet.run_refines` — **what can be asked of a set has its answer in the list**.
-/
import GraphIndex.Proofs.CompactSet.Invariant

set_option autoImplicit false

namespace GraphIndex

namespace CompactSet

variable {α : Type}

/-- A change of a possibly empty set. -/
inductive Change (α : Type) where
  | add (a : α)
  | remove (a : α)
  /-- An element is inserted into a set that is there. -/
  | insert (a : α)
  /-- The set of the elements of a list takes the place of the set. -/
  | ofList (as : List α)

section Run

variable [BEq α] [Digest α]

/-- What a change does to a set. -/
def Change.apply : Change α → Option (CompactSet α) → Option (CompactSet α)
  | add a, s => CompactSet.add s a
  | remove a, s => CompactSet.remove s a
  | insert a, s => s.map fun t => (t.insert a).2
  | ofList as, _ => CompactSet.ofList as

/-- What a change does to the list of elements. -/
def Change.list : Change α → List α → List α
  | add a, as => as.insert a
  | remove a, as => without as a
  | insert a, as => if as.isEmpty then [] else as.insert a
  | ofList bs, _ => bs.foldl (fun as b => as.insert b) []

/-- The set after a run. -/
def run (cs : List (Change α)) : Option (CompactSet α) :=
  cs.foldl (fun s c => c.apply s) none

omit [Digest α] in
/-- The elements that were added in a run and not removed since. -/
def reference (cs : List (Change α)) : List α :=
  cs.foldl (fun as c => c.list as) []

end Run

variable [BEq α] [Digest α] [EquivBEq α] [LawfulDigest α]

/-- **Every change keeps set and list together.** -/
theorem Represents.apply {s : Option (CompactSet α)} {as : List α} (h : Represents s as)
    (c : Change α) : Represents (c.apply s) (c.list as) := by
  cases c with
  | add a => exact h.add a
  | remove a => exact h.remove a
  | insert a =>
      rw [Change.apply, Change.list]
      cases s with
      | none =>
          rw [h.eq_none_iff.1 rfl]
          exact Represents.none
      | some t =>
          have hne : as ≠ [] := fun hnil => by simpa using h.eq_none_iff.2 hnil
          rw [if_neg (by simpa using hne), Option.map_some, ← add_some]
          exact h.add a
  | ofList bs => exact Represents.none.foldl_add bs

theorem represents_run (cs : List (Change α)) : Represents (run cs) (reference cs) := by
  have hfold : ∀ {s : Option (CompactSet α)} {as : List α}, Represents s as →
      Represents (cs.foldl (fun s c => c.apply s) s) (cs.foldl (fun as c => c.list as) as) := by
    induction cs with
    | nil => exact fun h => h
    | cons c cs ih => exact fun h => ih (h.apply c)
  exact hfold Represents.none

/-- **What can be asked of a set has its answer in the list.**  After every run the list has no two
equal elements, and there is a set exactly if the list is not empty.  The set has the size of the
list, is stored in the tier for this size, in no storage without room, and yields and contains the
elements of the list and nothing else; inserting tells whether an element is new to the list.  Adding
an element of the list or removing another one leaves the storage as it is. -/
theorem run_refines (cs : List (Change α)) :
    Distinct (reference cs) ∧ (run cs = none ↔ reference cs = []) ∧
    (∀ t, run cs = some t →
      t.size = (reference cs).length ∧ 0 < t.size ∧
      Tier.ofSize t.size = some t.tier ∧ t.tier ≠ .fixed 0 ∧
      (viewOf t).toList.Perm (reference cs) ∧
      ∀ a, t.contains a = (reference cs).contains a ∧
        (t.insert a).1 = !(reference cs).contains a) ∧
    ∀ a, ((reference cs).contains a = true → add (run cs) a = run cs) ∧
      ((reference cs).contains a = false → remove (run cs) a = run cs) := by
  have h := represents_run cs
  refine ⟨h.distinct, h.eq_none_iff, ?_, ?_⟩
  · intro t ht
    rw [ht] at h
    have hwf := h.wellFormed t rfl
    have hpos : 0 < t.size := by
      rw [← hwf.length_eq]
      exact List.length_pos_iff.2 hwf.toList_ne_nil
    have hmem : ∀ a, t.contains a = (reference cs).contains a := fun a => h.mem_eq a
    refine ⟨h.size_eq, hpos, hwf.tier_eq, ?_, h.perm, fun a => ⟨hmem a, ?_⟩⟩
    · intro hzero
      have htier := hwf.tier_eq
      rw [hzero] at htier
      have hroom := List.find?_some (Tier.ofSize_eq_fixed_iff.1 htier).2
      simp only [decide_eq_true_eq] at hroom
      omega
    · rw [insert_fst, hmem]
  · intro a
    rw [← h.mem_eq]
    exact ⟨add_of_mem, remove_of_not_mem⟩

/-- Of 26 words in a table, the last two are removed, and the others fill the largest list. -/
theorem run_refines_of_words :
    let cs := (List.range 26).map (fun n => Change.add (UInt64.ofNat n)) ++
      [.remove 25, .remove 24, .insert 7]
    ∃ t, run cs = some t ∧ t.size = 24 ∧ t.tier = .fixed 24 ∧
      (viewOf t).toList.Perm (((List.range 24).map UInt64.ofNat).reverse) := by
  intro cs
  have href : reference cs = ((List.range 24).map UInt64.ofNat).reverse := by decide
  obtain ⟨-, hnone, hsome, -⟩ := run_refines cs
  cases ht : run cs with
  | none =>
      rw [hnone.1 ht] at href
      exact absurd href (by decide)
  | some t =>
      obtain ⟨hsize, -, htier, -, hview, -⟩ := hsome t ht
      rw [href] at hsize hview
      rw [hsize] at htier
      exact ⟨t, rfl, hsize, (Option.some_inj.1 htier).symm, hview⟩

end CompactSet

end GraphIndex
