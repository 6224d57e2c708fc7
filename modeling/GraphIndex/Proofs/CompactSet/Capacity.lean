/-
**The capacity of a compact set.**  The table of a set that has many elements is as large as their
number asks for, whatever came and went before.

A set takes over a table when it gets its twenty-fifth element, changes this table from then on, and
gives it up again when only twenty-four are left.  The capacity fits the number of elements in a new
table, and a change of the set is a change of its table.  So it fits after every run, however many
elements were removed and added again in between.

Main definitions:

* `CompactSet.table?` — the table of a set, if it has one;
* `CompactSet.TableFits` — such a table fits its number of elements.

Main results:

* `CompactSet.TableFits.apply`, `CompactSet.tableFits_run` — every change, and so every run, keeps the
  table fitting;
* `CompactSet.run_capacity_fits` — **the capacity follows the number of elements**, and the next change
  doubles or halves it at most once.
-/
import GraphIndex.Proofs.CompactSet.Run
import GraphIndex.Proofs.ProbeTable.Capacity

set_option autoImplicit false

namespace GraphIndex

namespace CompactSet

variable {α : Type}

/-! ### The table fits -/

/-- The table in which the elements are stored, if there is one. -/
def table? : Option (CompactSet α) → Option (ProbeTable α)
  | some (overflow t) => some t
  | _ => none

@[simp] theorem table?_eq_some_iff {s : Option (CompactSet α)} {t : ProbeTable α} :
    table? s = some t ↔ s = some (overflow t) := by
  rw [table?.eq_def]
  split <;> simp_all

/-- If the elements are stored in a table, its counters are right and its capacity fits. -/
def TableFits (s : Option (CompactSet α)) : Prop :=
  ∀ t, table? s = some t → t.Balanced ∧ t.Fits

theorem TableFits.none : TableFits (none : Option (CompactSet α)) := by
  simp [TableFits]

section Store

variable [Digest α]

theorem TableFits.ofCons (a : α) (as : List α) : TableFits (some (ofCons a as)) := by
  intro t ht
  rw [CompactSet.ofCons] at ht
  split at ht
  · simp at ht
  · obtain rfl := Option.some_inj.1 ht
    exact ⟨.ofDistinct (a :: as), .ofDistinct (a :: as)⟩
  · simp at ht

theorem TableFits.ofDistinct (as : List α) : TableFits (ofDistinct as) := by
  cases as with
  | nil => exact TableFits.none
  | cons a as => exact TableFits.ofCons a as

theorem TableFits.settle {s : CompactSet α} (h : TableFits (some s)) : TableFits s.settle := by
  rw [CompactSet.settle]
  split
  · exact h
  · exact TableFits.ofDistinct s.toList

theorem TableFits.insertNew {s : CompactSet α} (h : TableFits (some s)) (a : α) :
    TableFits (some (s.insertNew a)) := by
  cases s with
  | single b => exact TableFits.ofCons b [a]
  | fixed c items =>
      cases items with
      | nil =>
          rw [CompactSet.insertNew]
          split <;> simp [TableFits]
      | cons b bs =>
          rw [CompactSet.insertNew]
          split
          · simp [TableFits]
          · exact TableFits.ofCons b (bs ++ [a])
  | overflow t =>
      obtain ⟨hb, hf⟩ := h t rfl
      intro u hu
      obtain rfl := Option.some_inj.1 hu
      exact ⟨hb.insertNew a, hf.insertNew hb a⟩

end Store

/-! ### Changes -/

variable [BEq α] [Digest α]

theorem TableFits.eraseMember {s : CompactSet α} (h : TableFits (some s)) (a : α) :
    TableFits (s.eraseMember a) := by
  cases s with
  | single b => exact TableFits.none
  | fixed c items => exact TableFits.settle (by simp [TableFits])
  | overflow t =>
      obtain ⟨hb, hf⟩ := h t rfl
      refine TableFits.settle fun u hu => ?_
      obtain rfl := Option.some_inj.1 hu
      exact ⟨hb.erase a, hf.erase hb a⟩

theorem TableFits.insert {s : CompactSet α} (h : TableFits (some s)) (a : α) :
    TableFits (some (s.insert a).2) := by
  rw [CompactSet.insert]
  split
  · exact h
  · exact h.insertNew a

theorem TableFits.add {s : Option (CompactSet α)} (h : TableFits s) (a : α) :
    TableFits (add s a) := by
  cases s with
  | none => simp [TableFits, CompactSet.add]
  | some s =>
      rw [add_some]
      exact h.insert a

theorem TableFits.remove {s : Option (CompactSet α)} (h : TableFits s) (a : α) :
    TableFits (remove s a) := by
  cases s with
  | none => exact h
  | some s =>
      rw [CompactSet.remove, CompactSet.erase]
      split
      · exact h.eraseMember a
      · exact h

/-- **Every change keeps the table fitting.** -/
theorem TableFits.apply {s : Option (CompactSet α)} (h : TableFits s) (c : Change α) :
    TableFits (c.apply s) := by
  cases c with
  | add a => exact h.add a
  | remove a => exact h.remove a
  | insert a =>
      cases s with
      | none => exact h
      | some s => exact h.insert a
  | ofList as =>
      -- the elements of the list are added one after the other, to no set
      refine List.foldlRecOn as _ TableFits.none ?_
      intro s hs a _
      exact hs.add a

theorem tableFits_run (cs : List (Change α)) : TableFits (run cs) := by
  refine List.foldlRecOn cs _ TableFits.none ?_
  intro s hs c _
  exact hs.apply c

/-- **The capacity follows the number of elements.**  After every run, the elements of a set that has a
table fill at most three quarters of its slots, and at least a quarter of them unless it has the least
capacity.  One more element is added to the same table, and one is removed from it as long as the set
keeps a table.  Whatever slots are vacated, the capacity is then doubled if the elements are too many for
it, halved if they are too few, and else the same; after that it fits again. -/
theorem run_capacity_fits (cs : List (Change α)) {t : ProbeTable α}
    (h : run cs = some (overflow t)) :
    t.toList.length = t.size ∧ t.Fits ∧
    (∀ a, t.contains a = false →
      add (run cs) a = some (overflow (t.insertNew a)) ∧
      (t.insertNew a).size = t.size + 1 ∧
      (t.insertNew a).capacity = ProbeTable.grownCapacity t.size t.capacity ∧
      (t.insertNew a).Fits) ∧
    ∀ a, t.contains a = true →
      (24 < (t.erase a).size → remove (run cs) a = some (overflow (t.erase a))) ∧
      (t.erase a).size + 1 = t.size ∧
      (t.erase a).capacity = ProbeTable.shrunkCapacity t.size t.capacity ∧
      (t.erase a).Fits := by
  obtain ⟨hb, hf⟩ := tableFits_run cs t (table?_eq_some_iff.2 h)
  refine ⟨hb.length_eq, hf, ?_, ?_⟩
  · intro a ha
    obtain ⟨hsize, hcap⟩ := hb.insertNew_numbers a
    refine ⟨?_, hsize, hcap, hf.insertNew hb a⟩
    rw [h, add, contains, ha]
    rfl
  · intro a ha
    obtain ⟨hsize, hcap⟩ := hb.erase_numbers ha
    refine ⟨fun hmany => ?_, hsize, hcap, hf.erase hb a⟩
    rw [h, remove, erase, contains, if_pos ha, eraseMember, settle]
    exact if_pos (Tier.ofSize_eq_overflow_iff.2 hmany).symm

/-- Forty-nine words need 128 slots.  When eighteen of them have been removed, 64 slots are enough, and
one more word does not change this. -/
theorem run_capacity_fits_of_words :
    let cs := (List.range 49).map (fun n => Change.add (UInt64.ofNat n)) ++
      (List.range 18).map fun n => .remove (UInt64.ofNat n)
    ∃ t, run cs = some (overflow t) ∧ t.size = 31 ∧ t.capacity = 64 ∧ t.Fits ∧
      add (run cs) 7 = some (overflow (t.insertNew 7)) ∧ (t.insertNew 7).capacity = 64 := by
  intro cs
  have hnumbers : ((table? (run cs)).map fun t => (t.size, t.capacity, t.contains 7)) =
      some (31, 64, false) := by
    decide +kernel
  obtain ⟨t, ht, hst⟩ := Option.map_eq_some_iff.1 hnumbers
  simp only [Prod.mk.injEq] at hst
  obtain ⟨hsize, hcap, hnew⟩ := hst
  have hs := table?_eq_some_iff.1 ht
  obtain ⟨-, hfits, hadd, -⟩ := run_capacity_fits cs hs
  obtain ⟨htable, -, hgrown, -⟩ := hadd 7 hnew
  refine ⟨t, hs, hsize, hcap, hfits, htable, ?_⟩
  rw [hgrown, hsize, hcap]
  decide

end CompactSet

end GraphIndex
