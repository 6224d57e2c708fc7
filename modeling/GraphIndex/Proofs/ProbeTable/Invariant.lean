/-
**The invariant of probe tables.**  What every table keeps to, and what each operation does to its
values.

A table is consistent if its two counters count what they are meant to count, no value is stored
twice, and every value is linked to its home slot, so that the search for it does not give up too
early.  It is well formed if besides its capacity is a power of two and not below the least one,
and its live and vacated slots fill no more than three quarters of it.  The part of this that is
about numbers alone makes a table balanced; it holds whatever the digest of the values is.

Main definitions:

* `ProbeTable.Consistent`, `ProbeTable.WellFormed` — the invariant;
* `ProbeTable.Searchable` — the part of it that the search for a value rests on;
* `ProbeTable.Counted`, `ProbeTable.Balanced` — the part of it that is about numbers.

Main results:

* `ProbeTable.cons_set_perm`, `ProbeTable.mem_toList_iff`, `ProbeTable.length_toList`,
  `ProbeTable.Counted.slots_size_eq` — the slots and the values of a table;
* `ProbeTable.WellFormed.capacity_le` — a quarter of the slots are empty;
* `ProbeTable.Searchable.find?_eq_some_iff`, `ProbeTable.Searchable.contains_eq` — **looking up is
  exact**.
-/
import GraphIndex.Proofs.Distinct
import GraphIndex.Proofs.ProbeTable.Walk
import GraphIndex.SwapErase

set_option autoImplicit false

namespace GraphIndex

namespace ProbeTable

variable {α : Type}

/-! ### Replacing one slot -/

theorem value?_of_isHole {s : Slot α} (h : s.isHole = true) : s.value? = none := by
  cases s with
  | empty => rfl
  | vacated => rfl
  | occupied a => simp [Slot.isHole] at h

/-- Up to order, replacing a slot exchanges it for the new one. -/
theorem cons_set_perm {slots : Array (Slot α)} {i : Nat} {s : Slot α} (hs : slots[i]? = some s)
    (s' : Slot α) : (s :: (slots.setIfInBounds i s').toList).Perm (s' :: slots.toList) := by
  obtain ⟨hi, rfl⟩ := Array.getElem?_eq_some_iff.1 hs
  rw [Array.toList_setIfInBounds]
  exact getElem_cons_set_perm s' slots.toList i hi

theorem mem_toList_iff {t : ProbeTable α} {a : α} :
    a ∈ t.toList ↔ ∃ i : Nat, t.slots[i]? = some (.occupied a) := by
  simp only [toList, List.mem_filterMap]
  constructor
  · rintro ⟨s, hs, ha⟩
    obtain ⟨i, hi⟩ := List.mem_iff_getElem?.1 hs
    refine ⟨i, ?_⟩
    rw [← Array.getElem?_toList, hi]
    cases s with
    | empty => simp [Slot.value?] at ha
    | vacated => simp [Slot.value?] at ha
    | occupied b => simpa [Slot.value?] using ha
  · rintro ⟨i, hi⟩
    exact ⟨.occupied a, Array.mem_toList_iff.2 (Array.mem_of_getElem? hi), rfl⟩

/-- There are as many live values as slots that are not holes. -/
theorem length_toList (t : ProbeTable α) :
    t.toList.length = t.slots.toList.countP fun s => !s.isHole := by
  rw [toList, List.length_filterMap_eq_countP]
  congr 1
  funext s
  cases s <;> rfl

/-- A slot has a live value, is vacated or is empty. -/
theorem length_eq_countP (slots : List (Slot α)) :
    slots.length = slots.countP (fun s => !s.isHole) + slots.countP Slot.isVacated
      + slots.countP fun s => s.isHole && !s.isVacated := by
  induction slots with
  | nil => rfl
  | cons s slots ih =>
      rw [List.length_cons, List.countP_cons, List.countP_cons, List.countP_cons, ih]
      cases s <;> simp [Slot.isHole, Slot.isVacated] <;> omega

/-! ### Homes -/

section Home

variable [Digest α]

theorem home_lt {t : ProbeTable α} (hpos : 0 < t.capacity) (a : α) : t.home a < t.slots.size :=
  Nat.mod_lt _ hpos

/-- The home of a value depends on the capacity only. -/
theorem home_eq_of_capacity_eq {t u : ProbeTable α} (h : u.capacity = t.capacity) (a : α) :
    u.home a = t.home a := by
  rw [home, home, h]

/-- Equal values have the same home. -/
theorem home_eq_of_beq [BEq α] [LawfulDigest α] (t : ProbeTable α) {a b : α}
    (h : (a == b) = true) : t.home a = t.home b := by
  rw [home, home, LawfulDigest.digest_eq h]

end Home

/-! ### The invariant -/

/-- The counters are right. -/
structure Counted (t : ProbeTable α) : Prop where
  /-- The first counter counts the live values. -/
  size_eq : t.slots.toList.countP (fun s => !s.isHole) = t.size
  /-- The second counter counts the vacated slots. -/
  vacated_eq : t.slots.toList.countP Slot.isVacated = t.vacated

/-- The counters are right, and the capacity is what it should be. -/
structure Balanced (t : ProbeTable α) : Prop extends Counted t where
  /-- The capacity is a power of two. -/
  isPowerOfTwo : t.capacity.isPowerOfTwo
  /-- The capacity is not below the least one. -/
  least_le : leastCapacity ≤ t.capacity
  /-- At most three quarters of the slots are used. -/
  load_le : 4 * (t.size + t.vacated) ≤ 3 * t.capacity

theorem Counted.length_eq {t : ProbeTable α} (h : t.Counted) : t.toList.length = t.size := by
  rw [length_toList, h.size_eq]

/-- The slots that the counters do not count are the empty ones. -/
theorem Counted.slots_size_eq {t : ProbeTable α} (h : t.Counted) :
    t.slots.size = t.size + t.vacated
      + t.slots.toList.countP fun s => s.isHole && !s.isVacated := by
  rw [← Array.length_toList, length_eq_countP, h.size_eq, h.vacated_eq]

section Invariant

variable [BEq α] [Digest α]

/-- No value is stored twice, and the walk from the home of a value to its slot meets no empty
slot. -/
structure Searchable (t : ProbeTable α) : Prop where
  /-- The values are distinct. -/
  distinct : Distinct t.toList
  /-- Every value is linked to its home. -/
  linked : ∀ i a, t.slots[i]? = some (.occupied a) → Linked t.slots (t.home a) i

/-- The counters are right, no value is stored twice, and the walk from the home of a value to its
slot meets no empty slot. -/
structure Consistent (t : ProbeTable α) : Prop extends Counted t, Searchable t

/-- The table is consistent, and its capacity is what it should be. -/
structure WellFormed (t : ProbeTable α) : Prop extends Consistent t, Balanced t

/-- At least a quarter of the slots are empty. -/
theorem WellFormed.capacity_le {t : ProbeTable α} (h : t.WellFormed) :
    t.capacity ≤ 4 * t.slots.toList.countP (fun s => s.isHole && !s.isVacated) := by
  have hload := h.load_le
  have hsplit := h.slots_size_eq
  rw [capacity] at hload ⊢
  omega

end Invariant

/-! ### Looking up -/

section Find

variable [BEq α] [Digest α] [EquivBEq α]

/-- Equal values are in the same slot. -/
theorem Searchable.slot_unique {t : ProbeTable α} (h : t.Searchable) {i j : Nat} {a b : α}
    (hi : t.slots[i]? = some (.occupied a)) (hj : t.slots[j]? = some (.occupied b))
    (hab : (a == b) = true) : i = j := by
  have hd := List.pairwise_iff_getElem.1 (List.pairwise_filterMap.1 h.distinct)
  obtain ⟨hil, hia⟩ := List.getElem?_eq_some_iff.1 (Array.getElem?_toList.trans hi)
  obtain ⟨hjl, hjb⟩ := List.getElem?_eq_some_iff.1 (Array.getElem?_toList.trans hj)
  rcases Nat.lt_trichotomy i j with hlt | heq | hgt
  · have hne := hd i j hil hjl hlt a (by rw [hia]; rfl) b (by rw [hjb]; rfl)
    simp [hab] at hne
  · exact heq
  · have hne := hd j i hjl hil hgt b (by rw [hjb]; rfl) a (by rw [hia]; rfl)
    simp [BEq.symm hab] at hne

variable [LawfulDigest α]

/-- **The slot that is found is the slot of an equal value.** -/
theorem Searchable.find?_eq_some_iff {t : ProbeTable α} (h : t.Searchable) {a : α} {i : Nat} :
    t.find? a = some i ↔ ∃ b, t.slots[i]? = some (.occupied b) ∧ (b == a) = true := by
  constructor
  · exact findFrom_eq_some
  · rintro ⟨b, hb, hba⟩
    obtain ⟨d, hd, hdi, hne⟩ := h.linked i b hb
    rw [home_eq_of_beq t hba] at hdi hne
    have hsome : (t.find? a).isSome = true := by
      refine findFrom_isSome (home_lt (by rw [capacity]; omega) a) hd ?_ hba ?_
      · rw [hdi]
        exact hb
      · exact fun j hj => hne j (by omega)
    -- a slot is found, and there is only one with such a value
    obtain ⟨j, hj⟩ := Option.isSome_iff_exists.1 hsome
    obtain ⟨c, hc, hca⟩ := findFrom_eq_some hj
    have hij : j = i := h.slot_unique hc hb (BEq.trans hca (BEq.symm hba))
    rw [hj, hij]

/-- **Looking up is exact.** -/
theorem Searchable.contains_eq {t : ProbeTable α} (h : t.Searchable) (a : α) :
    t.contains a = t.toList.contains a := by
  rw [Bool.eq_iff_iff, contains, Option.isSome_iff_exists, List.contains_iff_exists_mem_beq]
  constructor
  · rintro ⟨i, hi⟩
    obtain ⟨b, hb, hba⟩ := h.find?_eq_some_iff.1 hi
    exact ⟨b, mem_toList_iff.2 ⟨i, hb⟩, BEq.symm hba⟩
  · rintro ⟨b, hb, hab⟩
    obtain ⟨i, hi⟩ := mem_toList_iff.1 hb
    exact ⟨i, h.find?_eq_some_iff.2 ⟨b, hi, BEq.symm hab⟩⟩

end Find

end ProbeTable

end GraphIndex
