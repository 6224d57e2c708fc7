/-
**The search for a value, slot by slot.**  Which slots a walk looks at, and what is found there.

The capacity of a table is a power of two, so the home of a value and the next slot of a walk are
computed by masking the high bits away, and masking gives the same slots as taking remainders.  A
walk therefore never leaves the table.  To say so for the search, `ProbeTable.probe` is the same
search with every slot asked for by its number: a slot that is not there would be an error.

The first empty slot ends the search.  That nothing is missed behind it is what the links of the
table are for: between the home of a value and its slot there may be vacated slots and other values,
and the walk may go around the end of the table, but there is no empty slot.

Main definitions:

* `ProbeTable.walkSlot` — the slots of a walk, computed by masking;
* `ProbeTable.probe` — the search in which a slot outside the table is an error.

Main results:

* `ProbeTable.walkSlot_eq`, `ProbeTable.walkSlot_lt` — **a walk stays inside the table**;
* `ProbeTable.probe_eq` — the search never asks for a slot that is not there;
* `ProbeTable.find?_agrees_with_scan` — **the search finds what a look at all slots finds**.
-/
import GraphIndex.Proofs.ProbeTable.Change

set_option autoImplicit false

namespace GraphIndex

namespace ProbeTable

variable {α : Type}

/-! ### Masking -/

/-- Masking by a power of two less one is taking the remainder. -/
theorem and_mask_eq_mod {c : Nat} (hpow : c.isPowerOfTwo) (i : Nat) : i &&& (c - 1) = i % c := by
  obtain ⟨k, rfl⟩ := hpow
  exact Nat.and_two_pow_sub_one_eq_mod i k

section Walk

variable [Digest α]

/-- The slot that a walk looks at after some steps. -/
def walkSlot (t : ProbeTable α) (a : α) : Nat → Nat
  | 0 => (Digest.spread (digest a)).toNat &&& (t.capacity - 1)
  | d + 1 => (walkSlot t a d + 1) &&& (t.capacity - 1)

variable {t : ProbeTable α}

theorem walkSlot_zero (hpow : t.capacity.isPowerOfTwo) (a : α) : t.walkSlot a 0 = t.home a :=
  and_mask_eq_mod hpow _

/-- The slots of a walk are the home and those that follow it, around the end of the table. -/
theorem walkSlot_eq (hpow : t.capacity.isPowerOfTwo) (a : α) (d : Nat) :
    t.walkSlot a d = (t.home a + d) % t.capacity := by
  induction d with
  | zero =>
      rw [walkSlot_zero hpow, Nat.add_zero]
      exact (Nat.mod_eq_of_lt (home_lt (Nat.pos_of_isPowerOfTwo hpow) a)).symm
  | succ d ih => rw [walkSlot, ih, and_mask_eq_mod hpow, Nat.mod_add_mod, Nat.add_assoc]

/-- **A walk stays inside the table.** -/
theorem walkSlot_lt (hpow : t.capacity.isPowerOfTwo) (a : α) (d : Nat) :
    t.walkSlot a d < t.slots.size := by
  rw [walkSlot_eq hpow]
  exact Nat.mod_lt _ (Nat.pos_of_isPowerOfTwo hpow)

end Walk

/-! ### The search with checked slots -/

section Probe

variable [BEq α]

/-- The search along a walk of at most the given number of steps from slot `i`.  The error is the
number of a slot that was asked for and is not there. -/
def probeFrom (slots : Array (Slot α)) (a : α) : Nat → Nat → Except Nat (Option Nat)
  | 0, _ => .ok none
  | steps + 1, i =>
      match slots[i]? with
      | none => .error i
      | some .empty => .ok none
      | some .vacated => probeFrom slots a steps ((i + 1) &&& (slots.size - 1))
      | some (.occupied b) =>
          if b == a then .ok (some i)
          else probeFrom slots a steps ((i + 1) &&& (slots.size - 1))

theorem probeFrom_eq {slots : Array (Slot α)} (hpow : slots.size.isPowerOfTwo) (a : α)
    (steps : Nat) {i : Nat} (hi : i < slots.size) :
    probeFrom slots a steps i = .ok (findFrom slots a steps i) := by
  induction steps generalizing i with
  | zero => rfl
  | succ steps ih =>
      have hnext : probeFrom slots a steps ((i + 1) &&& (slots.size - 1)) =
          .ok (findFrom slots a steps ((i + 1) % slots.size)) := by
        rw [and_mask_eq_mod hpow]
        exact ih (Nat.mod_lt _ (Nat.pos_of_isPowerOfTwo hpow))
      have hslot : slots[i]? = some slots[i] := Array.getElem?_eq_getElem hi
      rw [probeFrom, findFrom, hslot]
      cases slots[i] with
      | empty => rfl
      | vacated => exact hnext
      | occupied b =>
          by_cases hba : (b == a) = true
          · simp [hba]
          · simp [hba, hnext]

variable [Digest α]

/-- The search for a value in which a slot outside the table is an error. -/
def probe (t : ProbeTable α) (a : α) : Except Nat (Option Nat) :=
  probeFrom t.slots a t.capacity (t.walkSlot a 0)

/-- **The search never asks for a slot that is not there.** -/
theorem probe_eq {t : ProbeTable α} (hpow : t.capacity.isPowerOfTwo) (a : α) :
    t.probe a = .ok (t.find? a) := by
  rw [probe, find?, probeFrom_eq hpow a _ (walkSlot_lt hpow a 0), walkSlot_zero hpow]

end Probe

/-! ### Exactness -/

section Exact

variable [BEq α] [Digest α] [EquivBEq α] [LawfulDigest α] {t : ProbeTable α}

theorem Searchable.find?_eq_none_iff (h : t.Searchable) {a : α} :
    t.find? a = none ↔ ∀ (i : Nat) b, t.slots[i]? = some (.occupied b) → (b == a) = false := by
  constructor
  · intro hnone i b hb
    refine Bool.eq_false_iff.2 fun hba => ?_
    have hfound := h.find?_eq_some_iff.2 ⟨b, hb, hba⟩
    rw [hnone] at hfound
    cases hfound
  · intro hall
    refine Option.eq_none_iff_forall_ne_some.2 fun i hi => ?_
    obtain ⟨b, hb, hba⟩ := h.find?_eq_some_iff.1 hi
    rw [hall i b hb] at hba
    cases hba

/-- **The search finds what a look at all slots finds.**  In a table whose capacity is a power of
two, which has no value twice and every value linked to its home, the search asks for no slot outside
the table.  It finds a slot exactly if the value there is equal to the one that is looked for, and
nothing exactly if no slot has such a value. -/
theorem find?_agrees_with_scan (hpow : t.capacity.isPowerOfTwo) (h : t.Searchable) (a : α) :
    (∀ d, t.walkSlot a d = (t.home a + d) % t.capacity ∧ t.walkSlot a d < t.slots.size) ∧
    t.probe a = .ok (t.find? a) ∧
    (∀ i, t.find? a = some i ↔ ∃ b, t.slots[i]? = some (.occupied b) ∧ (b == a) = true) ∧
    (t.find? a = none ↔ ∀ (i : Nat) b, t.slots[i]? = some (.occupied b) → (b == a) = false) ∧
    t.contains a = t.slots.any fun s => s.value?.any (· == a) := by
  refine ⟨fun d => ⟨walkSlot_eq hpow a d, walkSlot_lt hpow a d⟩, probe_eq hpow a,
    fun i => h.find?_eq_some_iff, h.find?_eq_none_iff, ?_⟩
  rw [h.contains_eq, toList, List.contains_eq_any_beq, List.any_filterMap, ← Array.any_toList]
  congr 1
  funext s
  cases s with
  | empty => rfl
  | vacated => rfl
  | occupied b => simp [Slot.value?, BEq.comm]

/-- A table of 40 words from which one has been erased: the search passes the slot that was vacated. -/
theorem find?_agrees_with_scan_of_words :
    let t := (ofDistinct ((List.range 40).map UInt64.ofNat)).erase 7
    t.capacity.isPowerOfTwo ∧ t.Searchable ∧ t.vacated = 1 ∧
      t.probe 8 = .ok (t.find? 8) ∧ t.contains 8 = true ∧ t.contains 7 = false := by
  intro t
  have hwf : t.WellFormed := (WellFormed.ofDistinct (by decide +kernel)).erase 7
  have hsearch := hwf.toSearchable
  obtain ⟨-, hprobe, -⟩ := find?_agrees_with_scan hwf.isPowerOfTwo hsearch 8
  exact ⟨hwf.isPowerOfTwo, hsearch, by decide +kernel, hprobe, by decide +kernel, by decide +kernel⟩

end Exact

end ProbeTable

end GraphIndex
