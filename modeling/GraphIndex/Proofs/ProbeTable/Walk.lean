/-
**Walks over the slots of a probe table.**  Where a walk gets to, and what the two searches along
it find.

A walk from a slot goes from each slot to the next one and from the last slot to the first, so that
after `d` steps from slot `h` it is at slot `(h + d) % n` of a table with `n` slots, and `n` steps
take it to every slot.  The search for a hole stops at the first slot without a live value; the
search for a value stops at the first slot with an equal value, and gives up at an empty slot.

Main definitions:

* `ProbeTable.Linked` — a walk from one slot to another that meets no empty slot.

Main results:

* `ProbeTable.exists_steps` — a walk gets to every slot;
* `ProbeTable.holeFrom_eq_some`, `ProbeTable.holeFrom_isSome` — the search for a hole finds the
  first one, if there is one;
* `ProbeTable.findFrom_eq_some`, `ProbeTable.findFrom_isSome` — the search for a value finds only
  equal values, and finds one that it is linked to;
* `ProbeTable.Linked.set` — a link lasts as long as no slot becomes empty.
-/
import GraphIndex.ProbeTable

set_option autoImplicit false

namespace GraphIndex

namespace ProbeTable

variable {α : Type}

/-! ### Steps of a walk -/

/-- The first step can be made before the others. -/
theorem step_add_mod (i d n : Nat) : ((i + 1) % n + d) % n = (i + (d + 1)) % n := by
  rw [Nat.mod_add_mod, Nat.add_assoc, Nat.add_comm 1 d]

/-- **A walk gets to every slot.** -/
theorem exists_steps {n i p : Nat} (hi : i < n) (hp : p < n) : ∃ d < n, (i + d) % n = p := by
  rcases Nat.lt_or_ge p i with h | h
  · refine ⟨n - i + p, by omega, ?_⟩
    have hround : i + (n - i + p) = p + n := by omega
    rw [hround, Nat.add_mod_right, Nat.mod_eq_of_lt hp]
  · refine ⟨p - i, by omega, ?_⟩
    have hdirect : i + (p - i) = p := by omega
    rw [hdirect, Nat.mod_eq_of_lt hp]

/-! ### The search for a hole -/

/-- A hole that is found is the first one on the walk: all slots before it have live values. -/
theorem holeFrom_eq_some {slots : Array (Slot α)} {steps i p : Nat} (hi : i < slots.size)
    (h : holeFrom slots steps i = some p) :
    ∃ d < steps, (i + d) % slots.size = p ∧ (∃ s, slots[p]? = some s ∧ s.isHole = true) ∧
      ∀ j < d, ∃ a, slots[(i + j) % slots.size]? = some (.occupied a) := by
  -- the walk is followed from its start, so that the first step is taken off the others
  induction steps generalizing i with
  | zero => simp [holeFrom] at h
  | succ steps ih =>
      have hstart : (i + 0) % slots.size = i := Nat.mod_eq_of_lt hi
      have hnext : (i + 1) % slots.size < slots.size := Nat.mod_lt _ (by omega)
      rw [holeFrom] at h
      split at h
      · next a ha =>
          obtain ⟨d, hd, hp, hole, hlive⟩ := ih hnext h
          refine ⟨d + 1, by omega, by rw [← hp, step_add_mod], hole, ?_⟩
          intro j hj
          cases j with
          | zero => exact ⟨a, by rw [hstart, ha]⟩
          | succ j => rw [← step_add_mod]; exact hlive j (by omega)
      · next s hs hslot =>
          obtain rfl : i = p := Option.some_inj.1 h
          refine ⟨0, by omega, hstart, ⟨s, hslot, ?_⟩, by simp⟩
          cases s with
          | empty => rfl
          | vacated => rfl
          | occupied a => exact absurd rfl (hs a)
      · simp at h

/-- A hole that a walk gets to is found, or an earlier one is. -/
theorem holeFrom_isSome {slots : Array (Slot α)} {steps d i : Nat} {s : Slot α}
    (hi : i < slots.size) (hd : d < steps) (hs : slots[(i + d) % slots.size]? = some s)
    (hole : s.isHole = true) : (holeFrom slots steps i).isSome = true := by
  induction steps generalizing i d with
  | zero => omega
  | succ steps ih =>
      rw [holeFrom]
      split
      · next a ha =>
          cases d with
          | zero =>
              rw [Nat.add_zero, Nat.mod_eq_of_lt hi, ha] at hs
              obtain rfl : Slot.occupied a = s := Option.some_inj.1 hs
              simp [Slot.isHole] at hole
          | succ d =>
              refine ih (d := d) (Nat.mod_lt _ (by omega)) (by omega) ?_
              rwa [step_add_mod]
      · rfl
      · next hnone => simp [Array.getElem?_eq_getElem hi] at hnone

/-! ### The search for a value -/

section Find

variable [BEq α]

/-- What is found is equal to what was looked for. -/
theorem findFrom_eq_some {slots : Array (Slot α)} {a : α} {steps i p : Nat}
    (h : findFrom slots a steps i = some p) :
    ∃ b, slots[p]? = some (.occupied b) ∧ (b == a) = true := by
  induction steps generalizing i with
  | zero => simp [findFrom] at h
  | succ steps ih =>
      rw [findFrom] at h
      split at h
      · next b hb =>
          split at h
          · next hba =>
              obtain rfl : i = p := Option.some_inj.1 h
              exact ⟨b, hb, hba⟩
          · exact ih h
      · exact ih h
      · simp at h
      · simp at h

/-- An equal value is found, or an earlier one is, if no empty slot comes before it. -/
theorem findFrom_isSome {slots : Array (Slot α)} {a b : α} {steps d i : Nat}
    (hi : i < slots.size) (hd : d < steps)
    (hb : slots[(i + d) % slots.size]? = some (.occupied b)) (hba : (b == a) = true)
    (hne : ∀ j < d, slots[(i + j) % slots.size]? ≠ some .empty) :
    (findFrom slots a steps i).isSome = true := by
  induction steps generalizing i d with
  | zero => omega
  | succ steps ih =>
      have hstart : (i + 0) % slots.size = i := Nat.mod_eq_of_lt hi
      have hnext : (i + 1) % slots.size < slots.size := Nat.mod_lt _ (by omega)
      -- unless the walk is at its end already, the rest of it is a walk from the next slot
      have hrest : 0 < d → (findFrom slots a steps ((i + 1) % slots.size)).isSome = true := by
        intro hpos
        obtain ⟨d, rfl⟩ : ∃ k, d = k + 1 := ⟨d - 1, by omega⟩
        refine ih (d := d) hnext (by omega) (by rwa [step_add_mod]) ?_
        intro j hj
        rw [step_add_mod]
        exact hne (j + 1) (by omega)
      rcases Nat.eq_zero_or_pos d with rfl | hpos
      · rw [hstart] at hb
        rw [findFrom, hb]
        simp [hba]
      · have hfirst := hne 0 hpos
        rw [hstart] at hfirst
        rw [findFrom]
        split
        · split
          · rfl
          · exact hrest hpos
        · exact hrest hpos
        · next hempty => exact absurd hempty hfirst
        · next hnone => simp [Array.getElem?_eq_getElem hi] at hnone

end Find

/-! ### Links -/

/-- The walk from slot `h` gets to slot `i` in less than one round, and no slot on it is empty. -/
def Linked (slots : Array (Slot α)) (h i : Nat) : Prop :=
  ∃ d < slots.size, (h + d) % slots.size = i ∧
    ∀ j ≤ d, slots[(h + j) % slots.size]? ≠ some .empty

/-- A link lasts when some slot changes, as long as it does not become empty. -/
theorem Linked.set {slots : Array (Slot α)} {h i : Nat} (hl : Linked slots h i) (p : Nat)
    {s : Slot α} (hs : s ≠ .empty) : Linked (slots.setIfInBounds p s) h i := by
  obtain ⟨d, hd, hi, hne⟩ := hl
  simp only [Linked, Array.size_setIfInBounds]
  refine ⟨d, hd, hi, ?_⟩
  intro j hj
  rw [Array.getElem?_setIfInBounds]
  split
  · split
    · exact fun hc => hs (Option.some_inj.1 hc)
    · simp
  · exact hne j hj

/-- A slot that is filled after a walk over live values is linked to the start of the walk. -/
theorem linked_set {slots : Array (Slot α)} {h d i : Nat} {a : α} (hd : d < slots.size)
    (hi : (h + d) % slots.size = i)
    (hlive : ∀ j < d, ∃ b, slots[(h + j) % slots.size]? = some (.occupied b)) :
    Linked (slots.setIfInBounds i (.occupied a)) h i := by
  simp only [Linked, Array.size_setIfInBounds]
  refine ⟨d, hd, hi, ?_⟩
  intro j hj
  rw [Array.getElem?_setIfInBounds]
  split
  · simp
  · next hne =>
      -- only the last slot of the walk is the one that was filled
      have hjd : j < d := by
        refine Nat.lt_of_le_of_ne hj ?_
        rintro rfl
        exact hne hi.symm
      obtain ⟨b, hb⟩ := hlive j hjd
      simp [hb]

end ProbeTable

end GraphIndex
