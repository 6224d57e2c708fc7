/-
**The capacity of a probe table.**  How it follows the number of live values, and how often it changes.

A value that is erased leaves a vacated slot behind, and a table with too many of them is rebuilt.  None
of this matters for the capacity: what a change makes of it depends on the capacity and on the number of
live values alone.  Whatever has come and gone, the live values fill at most three quarters of the slots
and, above the least capacity, at least a quarter of them.  Doubling and halving both lead to the middle
of this range.  Since every change moves the number of values by one, it takes many of them to get from
there to one of its ends, and only there the capacity changes again.

Main definitions:

* `ProbeTable.grownCapacity`, `ProbeTable.shrunkCapacity` — what an insertion and a removal make of the
  capacity;
* `ProbeTable.Fits` — the capacity fits the number of live values;
* `ProbeTable.Change`, `ProbeTable.Change.succeeds`, `ProbeTable.allSucceed` — changes of a table, and
  those that find what they expect;
* `ProbeTable.NearMiddle` — the number of live values is some changes away from the middle.

Main results:

* `ProbeTable.Balanced.insertNew_numbers`, `ProbeTable.Balanced.erase_numbers` — **a change looks at
  the numbers of slots and of live values only**;
* `ProbeTable.Reachable.fits` — every change, and so every run, keeps the capacity fitting;
* `ProbeTable.Reachable.nearMiddle_of_capacity_ne` — a change of the capacity leads to the middle;
* `ProbeTable.NearMiddle.run` — near the middle the capacity stays as it is;
* `ProbeTable.capacity_changes_apart` — **two changes of the capacity are an eighth of it apart**.
-/
import GraphIndex.Proofs.ProbeTable.Run

set_option autoImplicit false

namespace GraphIndex

namespace ProbeTable

variable {α : Type}

/-! ### The numbers after a change -/

/-- The capacity after one more value has been inserted beside `n` live ones. -/
def grownCapacity (n c : Nat) : Nat :=
  if 3 * c < 4 * (n + 1) then 2 * c else c

/-- The capacity after one of `n` live values has been erased. -/
def shrunkCapacity (n c : Nat) : Nat :=
  if 2 * leastCapacity ≤ c ∧ 4 * (n - 1) < c then c / 2 else c

theorem eq_grownCapacity_of_expansion? {t : ProbeTable α} {c : Nat} (hc : t.expansion? = some c) :
    c = grownCapacity t.size t.capacity := by
  simp only [expansion?, isOverfull, decide_eq_true_eq] at hc
  rw [grownCapacity]
  split at hc
  · rw [Option.some_inj] at hc
    split at hc <;> split <;> omega
  · simp at hc

section Changes

variable [Digest α]

/-- **One more value is counted, and the capacity is doubled if the live values ask for it.**  The
vacated slots play no part in this. -/
theorem Balanced.insertNew_numbers {t : ProbeTable α} (h : t.Balanced) (a : α) :
    (t.insertNew a).size = t.size + 1 ∧
      (t.insertNew a).capacity = grownCapacity t.size t.capacity := by
  rw [ProbeTable.insertNew]
  split
  · next hnone =>
      have hfit := load_le_of_expansion?_eq_none hnone
      refine ⟨h.size_place h.size_lt a, ?_⟩
      rw [h.capacity_place h.size_lt, grownCapacity, if_neg (by omega)]
  · next c hc =>
      obtain ⟨hfilled, hb⟩ := h.rebuild_expansion hc
      rw [hb.size_place hb.size_lt, hb.capacity_place hb.size_lt, hfilled.size_eq,
        hfilled.capacity_eq]
      exact ⟨rfl, eq_grownCapacity_of_expansion? hc⟩

theorem Balanced.contract_numbers {t : ProbeTable α} (h : t.Balanced) :
    t.contract.size = t.size ∧ t.contract.capacity =
      if leastCapacity ≤ t.capacity / 2 ∧ t.size * 4 < t.capacity then t.capacity / 2
      else t.capacity := by
  rw [ProbeTable.contract]
  split
  · next hnone =>
      rw [contraction?] at hnone
      split at hnone
      · simp at hnone
      · next hlow => exact ⟨rfl, (if_neg hlow).symm⟩
  · next c hc =>
      have hfilled := (h.rebuild_contraction hc).1
      rw [contraction?] at hc
      split at hc
      · next hlow =>
          refine ⟨hfilled.size_eq, ?_⟩
          rw [hfilled.capacity_eq, if_pos hlow]
          exact (Option.some_inj.1 hc).symm
      · simp at hc

variable [BEq α]

/-- **One value less is counted, and the capacity is halved if few are left.** -/
theorem Balanced.erase_numbers {t : ProbeTable α} (h : t.Balanced) {a : α}
    (ha : t.contains a = true) :
    (t.erase a).size + 1 = t.size ∧
      (t.erase a).capacity = shrunkCapacity t.size t.capacity := by
  obtain ⟨i, hi⟩ := Option.isSome_iff_exists.1 ha
  obtain ⟨b, hb, -⟩ := findFrom_eq_some hi
  have hpos := h.size_pos hb
  obtain ⟨hsize, hcap⟩ := (h.vacate hb).contract_numbers
  have hvac : (t.vacate i).size = t.size - 1 := rfl
  rw [capacity_vacate, hvac] at hcap
  rw [ProbeTable.erase, hi]
  dsimp only
  constructor
  · rw [hsize, hvac]
    omega
  · rw [hcap, shrunkCapacity, leastCapacity]
    congr 1
    rw [eq_iff_iff]
    omega

theorem erase_of_not_contains {t : ProbeTable α} {a : α} (ha : t.contains a = false) :
    t.erase a = t := by
  rw [contains, Option.isSome_eq_false_iff, Option.isNone_iff_eq_none] at ha
  rw [ProbeTable.erase, ha]

end Changes

/-! ### The capacity fits -/

/-- Live values fill at most three quarters of the slots, and at least a quarter of them unless the
capacity is the least one. -/
structure Fits (t : ProbeTable α) : Prop where
  /-- There are not too many live values. -/
  upper : 4 * t.size ≤ 3 * t.capacity
  /-- There are not too few of them. -/
  lower : t.capacity = leastCapacity ∨ t.capacity ≤ 4 * t.size

/-- A capacity is a multiple of the least one. -/
theorem Balanced.least_dvd {t : ProbeTable α} (h : t.Balanced) : leastCapacity ∣ t.capacity := by
  obtain ⟨k, hk⟩ := h.isPowerOfTwo
  have hle := h.least_le
  have hleast : leastCapacity = 2 ^ 6 := rfl
  rw [hk, hleast] at hle ⊢
  exact Nat.pow_dvd_pow 2 ((Nat.pow_le_pow_iff_right (by decide)).1 hle)

/-- Doubling ends as soon as there is room. -/
theorem doubleUntilHolding_le (n c : Nat) (hc : 0 < c) :
    doubleUntilHolding n c hc = c ∨ 3 * doubleUntilHolding n c hc < 8 * n := by
  induction c, hc using doubleUntilHolding.induct n with
  | case1 c hc hfull ih =>
      rw [doubleUntilHolding, dif_pos hfull]
      rw [isOverfull, decide_eq_true_eq] at hfull
      rcases ih with heq | hlt
      · rw [heq]
        exact .inr (by omega)
      · exact .inr hlt
  | case2 c hc hfull =>
      rw [doubleUntilHolding, dif_neg hfull]
      exact .inl rfl

/-- A new table has the least capacity, or half of its capacity would be too small. -/
theorem capacityHolding_le (n : Nat) :
    capacityHolding n = leastCapacity ∨ 3 * capacityHolding n < 8 * n :=
  doubleUntilHolding_le n leastCapacity (by decide)

section Fits

variable [Digest α]

theorem Fits.ofDistinct (as : List α) : (ofDistinct as).Fits := by
  have hfilled := Filled.ofDistinct as
  have hle := capacityHolding_le as.length
  constructor
  · rw [hfilled.size_eq, hfilled.capacity_eq]
    exact (capacityHolding_spec as.length).2.2
  · rw [hfilled.size_eq, hfilled.capacity_eq]
    omega

theorem Fits.insertNew {t : ProbeTable α} (h : t.Fits) (hb : t.Balanced) (a : α) :
    (t.insertNew a).Fits := by
  obtain ⟨hsize, hcap⟩ := hb.insertNew_numbers a
  have hupper := (hb.insertNew a).load_le
  have hlower := h.lower
  refine ⟨by omega, ?_⟩
  rw [hsize, hcap, grownCapacity]
  split <;> omega

variable [BEq α]

theorem Fits.erase {t : ProbeTable α} (h : t.Fits) (hb : t.Balanced) (a : α) :
    (t.erase a).Fits := by
  cases ha : t.contains a with
  | false =>
      rw [erase_of_not_contains ha]
      exact h
  | true =>
      obtain ⟨hsize, hcap⟩ := hb.erase_numbers ha
      have hupper := (hb.erase a).load_le
      have hlower := h.lower
      -- between the least capacity and twice the least there is no other one
      obtain ⟨k, hk⟩ := hb.least_dvd
      refine ⟨by omega, ?_⟩
      rw [hcap, shrunkCapacity]
      rw [leastCapacity] at hk hlower ⊢
      split <;> omega

/-- **The capacity of every table fits the number of its live values.** -/
theorem Reachable.fits {t : ProbeTable α} (h : Reachable t) : t.Fits := by
  induction h with
  | ofDistinct _ => exact Fits.ofDistinct _
  | insertNew h _ ih => exact ih.insertNew h.balanced _
  | erase h a ih => exact ih.erase h.balanced a

end Fits

/-! ### Changes one after the other -/

/-- A change of a table. -/
inductive Change (α : Type) where
  | insertNew (a : α)
  | erase (a : α)

section Runs

variable [BEq α] [Digest α]

/-- What a change does to a table. -/
def Change.apply : Change α → ProbeTable α → ProbeTable α
  | insertNew a, t => t.insertNew a
  | erase a, t => t.erase a

/-- A value that is inserted is not in the table, and one that is erased is. -/
def Change.succeeds : Change α → ProbeTable α → Bool
  | insertNew a, t => !t.contains a
  | erase a, t => t.contains a

/-- A table after a run of changes. -/
def run (t : ProbeTable α) (cs : List (Change α)) : ProbeTable α :=
  cs.foldl (fun t c => c.apply t) t

/-- Every change of a run succeeds. -/
def allSucceed : ProbeTable α → List (Change α) → Bool
  | _, [] => true
  | t, c :: cs => c.succeeds t && allSucceed (c.apply t) cs

theorem Reachable.apply {t : ProbeTable α} (h : Reachable t) {c : Change α}
    (hc : c.succeeds t = true) : Reachable (c.apply t) := by
  cases c with
  | insertNew a => exact h.insertNew (by simpa [Change.succeeds] using hc)
  | erase a => exact h.erase a

/-- A successful change moves the number of live values by one. -/
theorem Reachable.apply_numbers {t : ProbeTable α} (h : Reachable t) {c : Change α}
    (hc : c.succeeds t = true) :
    ((c.apply t).size = t.size + 1 ∧
        (c.apply t).capacity = grownCapacity t.size t.capacity) ∨
      ((c.apply t).size + 1 = t.size ∧
        (c.apply t).capacity = shrunkCapacity t.size t.capacity) := by
  cases c with
  | insertNew a => exact .inl (h.balanced.insertNew_numbers a)
  | erase a => exact .inr (h.balanced.erase_numbers hc)

/-! ### The middle -/

/-- The number of live values is at most `k` changes away from the middle of what fits the capacity,
which reaches from three to four eighths of it. -/
structure NearMiddle (k : Nat) (t : ProbeTable α) : Prop where
  /-- There are not too few values. -/
  lower : 3 * t.capacity + 8 ≤ 8 * (t.size + k)
  /-- There are not too many of them. -/
  upper : 8 * (t.size + 1) ≤ 4 * t.capacity + 8 * k

/-- **A change of the capacity doubles or halves it, and leads to the middle.** -/
theorem Reachable.nearMiddle_of_capacity_ne {t : ProbeTable α} (h : Reachable t) {c : Change α}
    (hc : c.succeeds t = true) (hne : (c.apply t).capacity ≠ t.capacity) :
    ((c.apply t).capacity = 2 * t.capacity ∨ 2 * (c.apply t).capacity = t.capacity) ∧
      NearMiddle 0 (c.apply t) := by
  obtain ⟨k, hk⟩ := h.balanced.least_dvd
  have hleast := h.balanced.least_le
  have hupper := h.fits.upper
  have hlower := h.fits.lower
  rw [leastCapacity] at hk hleast hlower
  rcases h.apply_numbers hc with ⟨hsize, hcap⟩ | ⟨hsize, hcap⟩
  · rw [grownCapacity] at hcap
    split at hcap
    · exact ⟨.inl hcap, by omega, by omega⟩
    · exact absurd hcap hne
  · rw [shrunkCapacity, leastCapacity] at hcap
    split at hcap
    · exact ⟨.inr (by omega), by omega, by omega⟩
    · exact absurd hcap hne

/-- One change nearer to an end, the capacity is the same. -/
theorem NearMiddle.apply {k : Nat} {t : ProbeTable α} (hn : NearMiddle k t) (h : Reachable t)
    {c : Change α} (hc : c.succeeds t = true) (hk : 8 * (k + 1) ≤ t.capacity) :
    (c.apply t).capacity = t.capacity ∧ NearMiddle (k + 1) (c.apply t) := by
  have hlower := hn.lower
  have hupper := hn.upper
  have hsame : (c.apply t).capacity = t.capacity := by
    rcases h.apply_numbers hc with ⟨-, hcap⟩ | ⟨-, hcap⟩
    · rw [hcap, grownCapacity, if_neg (by omega)]
    · rw [hcap, shrunkCapacity, if_neg (by omega)]
  refine ⟨hsame, ?_⟩
  rcases h.apply_numbers hc with ⟨hsize, -⟩ | ⟨hsize, -⟩
  · exact ⟨by omega, by omega⟩
  · exact ⟨by omega, by omega⟩

/-- **Near the middle the capacity stays as it is**, as long as there are few changes. -/
theorem NearMiddle.run {k : Nat} {t : ProbeTable α} (hn : NearMiddle k t) (h : Reachable t)
    {cs : List (Change α)} (hs : allSucceed t cs = true) (hk : 8 * (k + cs.length) ≤ t.capacity) :
    (ProbeTable.run t cs).capacity = t.capacity := by
  induction cs generalizing k t with
  | nil => rfl
  | cons c cs ih =>
      rw [allSucceed, Bool.and_eq_true] at hs
      rw [List.length_cons] at hk
      obtain ⟨hsame, hnext⟩ := hn.apply h hs.1 (by omega)
      have hrest := ih hnext (h.apply hs.1) hs.2 (by rw [hsame]; omega)
      exact hrest.trans hsame

theorem allSucceed_append {t : ProbeTable α} {cs ds : List (Change α)} :
    allSucceed t (cs ++ ds) = (allSucceed t cs && allSucceed (run t cs) ds) := by
  induction cs generalizing t with
  | nil => rfl
  | cons c cs ih =>
      rw [List.cons_append, allSucceed, allSucceed, ih, Bool.and_assoc]
      rfl

/-- **Two changes of the capacity are an eighth of it apart.**  In a run of successful changes from a
table that can come about, let the first one change the capacity, which doubles or halves it, and let
the last one change it again.  Then there are at least an eighth as many changes between them as there
are slots. -/
theorem capacity_changes_apart {t : ProbeTable α} (h : Reachable t) {first last : Change α}
    {cs : List (Change α)} (hs : allSucceed t (first :: cs ++ [last]) = true)
    (hfirst : (first.apply t).capacity ≠ t.capacity)
    (hlast : (run t (first :: cs ++ [last])).capacity ≠ (run t (first :: cs)).capacity) :
    ((first.apply t).capacity = 2 * t.capacity ∨ 2 * (first.apply t).capacity = t.capacity) ∧
      (first.apply t).capacity ≤ 8 * cs.length := by
  rw [List.cons_append, allSucceed, Bool.and_eq_true] at hs
  obtain ⟨hsucc, hrest⟩ := hs
  obtain ⟨hstep, hmiddle⟩ := h.nearMiddle_of_capacity_ne hsucc hfirst
  have hreach := h.apply hsucc
  refine ⟨hstep, Nat.le_of_not_lt fun hfew => hlast ?_⟩
  -- the capacity is a multiple of eight, so that the last change also comes too early
  obtain ⟨k, hk⟩ := hreach.balanced.least_dvd
  rw [leastCapacity] at hk
  have hall : (run (first.apply t) (cs ++ [last])).capacity = (first.apply t).capacity :=
    hmiddle.run hreach hrest (by rw [List.length_append, List.length_singleton]; omega)
  rw [allSucceed_append, Bool.and_eq_true] at hrest
  have hbefore : (run (first.apply t) cs).capacity = (first.apply t).capacity :=
    hmiddle.run hreach hrest.1 (by omega)
  exact hall.trans hbefore.symm

/-- The forty-ninth word doubles the table to 128 slots, and of the words that are then erased one after
the other it is the eighteenth that halves it again. -/
theorem capacity_changes_apart_of_words :
    let t := ofDistinct ((List.range 48).map UInt64.ofNat)
    let cs := (List.range 17).map fun n => Change.erase (UInt64.ofNat n)
    Reachable t ∧ allSucceed t (.insertNew 48 :: cs ++ [.erase 17]) = true ∧
      t.capacity = 64 ∧ (t.insertNew 48).capacity = 128 ∧
      (run t (.insertNew 48 :: cs)).capacity = 128 ∧
      (run t (.insertNew 48 :: cs ++ [.erase 17])).capacity = 64 ∧ 128 ≤ 8 * cs.length := by
  intro t cs
  have hreach : Reachable t := .ofDistinct (by decide +kernel)
  obtain ⟨hs, hcap, hfirst, hbefore, hafter⟩ :
      allSucceed t (.insertNew 48 :: cs ++ [.erase 17]) = true ∧
        t.capacity = 64 ∧ (t.insertNew 48).capacity = 128 ∧
        (run t (.insertNew 48 :: cs)).capacity = 128 ∧
        (run t (.insertNew 48 :: cs ++ [.erase 17])).capacity = 64 := by
    decide +kernel
  have hne : (Change.apply (.insertNew 48) t).capacity ≠ t.capacity := by
    rw [hcap, Change.apply, hfirst]
    decide
  have hapart := (capacity_changes_apart hreach hs hne (by rw [hbefore, hafter]; decide)).2
  rw [Change.apply, hfirst] at hapart
  exact ⟨hreach, hs, hcap, hfirst, hbefore, hafter, hapart⟩

end Runs

end ProbeTable

end GraphIndex
