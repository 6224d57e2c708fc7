/-
**The capacity a probe table is built with.**  It is the least one that is large enough.

A new table begins with the least capacity of all, which is doubled until the values fill no more than
three quarters of it.  Doubling goes through the powers of two one by one, and stops at the first that is
admissible, so no smaller one is.  Hence the values that are placed in the table never take it past the
watermark, and had they been inserted one after the other, no insertion would have expanded it.

Capacities are numbers here, which are as large as need be.  In words of `w` bits a product loses what
does not fit.  As long as four times the number of values fits into a word, the same doubling in words
ends if and only if twice the capacity fits as well, and it ends with this capacity.

Main definitions:

* `ProbeTable.Admissible` — a table of so many values may have this capacity;
* `ProbeTable.DoublesTo` — doubling in words, from its first word to its last;
* `ProbeTable.BuiltBelow` — a table is built below the watermark.

Main results:

* `ProbeTable.Admissible.two_mul_le`, `ProbeTable.Admissible.doubled_le` — doubling once, and so any
  number of times, does not skip an admissible capacity;
* `ProbeTable.isLeast_capacityHolding` — **the least admissible capacity is chosen**;
* `ProbeTable.doublesTo_iff` — when doubling in words ends, and with which word;
* `ProbeTable.builds_with_least_capacity` — **all of this, and what it means for a new table**.
-/
import GraphIndex.Proofs.ProbeTable.Capacity
import GraphIndex.Proofs.ProbeTable.Placement
import Mathlib.Algebra.Group.Nat.Defs
import Mathlib.Order.Bounds.Defs

set_option autoImplicit false

namespace GraphIndex

namespace ProbeTable

/-! ### Admissible capacities -/

/-- A table of `n` values may have capacity `c`. -/
structure Admissible (n c : Nat) : Prop where
  /-- It is a power of two. -/
  isPowerOfTwo : c.isPowerOfTwo
  /-- It is not below the least capacity. -/
  least_le : leastCapacity ≤ c
  /-- The values fill at most three quarters of it. -/
  load_le : 4 * n ≤ 3 * c

theorem admissible_capacityHolding (n : Nat) : Admissible n (capacityHolding n) := by
  obtain ⟨hpow, hleast, hload⟩ := capacityHolding_spec n
  exact ⟨hpow, hleast, hload⟩

/-- **Doubling does not skip an admissible capacity.** -/
theorem Admissible.two_mul_le {n c c' : Nat} (h : Admissible n c') (hpow : c.isPowerOfTwo)
    (hle : c ≤ c') (hfull : isOverfull n c = true) : 2 * c ≤ c' := by
  have hload := h.load_le
  rw [isOverfull, decide_eq_true_eq] at hfull
  have hlt : c < c' := by omega
  obtain ⟨i, rfl⟩ := hpow
  obtain ⟨j, rfl⟩ := h.isPowerOfTwo
  rw [Nat.pow_lt_pow_iff_right (by decide)] at hlt
  calc 2 * 2 ^ i = 2 ^ (i + 1) := by rw [Nat.pow_succ, Nat.mul_comm]
    _ ≤ 2 ^ j := Nat.pow_le_pow_right (by decide) hlt

/-- Doubling from below an admissible capacity does not go beyond it. -/
theorem Admissible.doubled_le {n c c' : Nat} (h : Admissible n c') {hc : 0 < c}
    (hpow : c.isPowerOfTwo) (hle : c ≤ c') : doubleUntilHolding n c hc ≤ c' := by
  induction c, hc using doubleUntilHolding.induct n with
  | case1 c hc hfull ih =>
      rw [doubleUntilHolding, dif_pos hfull]
      refine ih ?_ (h.two_mul_le hpow hle hfull)
      rw [Nat.mul_comm]
      exact Nat.isPowerOfTwo_mul_two_of_isPowerOfTwo hpow
  | case2 c hc hfull =>
      rw [doubleUntilHolding, dif_neg hfull]
      exact hle

/-- **The least admissible capacity is chosen.** -/
theorem isLeast_capacityHolding (n : Nat) : IsLeast {c | Admissible n c} (capacityHolding n) :=
  ⟨admissible_capacityHolding n, fun _ h => h.doubled_le ⟨6, rfl⟩ h.least_le⟩

/-! ### Doubling in words -/

section Words

variable {w : Nat}

/-- Doubling a capacity that is a word of `w` bits, until `n` values do not exceed the watermark: it
begins with `c` and ends with `r`.  Products lose the bits for which a word has no room. -/
inductive DoublesTo (n : BitVec w) : BitVec w → BitVec w → Prop
  | holds {c : BitVec w} (hfit : ¬c * 3#w < n * 4#w) : DoublesTo n c c
  | double {c r : BitVec w} (hfull : c * 3#w < n * 4#w) (hr : DoublesTo n (c * 2#w) r) :
      DoublesTo n c r

/-- Doubling in words ends with one word at most. -/
theorem DoublesTo.unique {n c r r' : BitVec w} (h : DoublesTo n c r) (h' : DoublesTo n c r') :
    r = r' := by
  induction h with
  | holds hfit =>
      cases h' with
      | holds => rfl
      | double hfull => exact absurd hfull hfit
  | double hfull _ ih =>
      cases h' with
      | holds hfit => exact absurd hfull hfit
      | double _ hr' => exact ih hr'

/-- Of four times the number of values nothing is lost. -/
theorem toNat_mul_four {n : BitVec w} (hn : 4 * n.toNat < 2 ^ w) :
    (n * 4#w).toNat = 4 * n.toNat := by
  rw [BitVec.toNat_mul, BitVec.toNat_ofNat, Nat.mul_mod_mod, Nat.mul_comm, Nat.mod_eq_of_lt hn]

theorem toNat_ofNat_mul_three (c : Nat) : (BitVec.ofNat w c * 3#w).toNat = 3 * c % 2 ^ w := by
  rw [BitVec.toNat_mul, BitVec.toNat_ofNat, BitVec.toNat_ofNat, ← Nat.mul_mod, Nat.mul_comm]

theorem ofNat_mul_two (c : Nat) : BitVec.ofNat w c * 2#w = BitVec.ofNat w (2 * c) := by
  rw [Nat.mul_comm, BitVec.ofNat_mul]

/-- Words are compared as the numbers are, if their products fit. -/
theorem ofNat_mul_three_lt_iff {n : BitVec w} (hn : 4 * n.toNat < 2 ^ w) {c : Nat}
    (hc : 3 * c < 2 ^ w) : BitVec.ofNat w c * 3#w < n * 4#w ↔ isOverfull n.toNat c = true := by
  rw [BitVec.lt_def, toNat_mul_four hn, toNat_ofNat_mul_three, Nat.mod_eq_of_lt hc, isOverfull,
    decide_eq_true_eq]
  omega

/-- **Words do as well as numbers** if three times the capacity that is found fits. -/
theorem doublesTo_of_lt {n : BitVec w} (hn : 4 * n.toNat < 2 ^ w) {c : Nat} (hc : 0 < c)
    (hfits : 3 * doubleUntilHolding n.toNat c hc < 2 ^ w) :
    DoublesTo n (.ofNat w c) (.ofNat w (doubleUntilHolding n.toNat c hc)) := by
  induction c, hc using doubleUntilHolding.induct n.toNat with
  | case1 c hc hfull ih =>
      rw [doubleUntilHolding, dif_pos hfull] at hfits ⊢
      have hsmall : 3 * c < 2 ^ w := by
        rw [isOverfull, decide_eq_true_eq] at hfull
        omega
      refine .double ((ofNat_mul_three_lt_iff hn hsmall).2 hfull) ?_
      rw [ofNat_mul_two]
      exact ih hfits
  | case2 c hc hfull =>
      rw [doubleUntilHolding, dif_neg hfull] at hfits ⊢
      exact .holds fun hlt => hfull ((ofNat_mul_three_lt_iff hn hfits).1 hlt)

/-- What is left of three times a power of two is at most three quarters of all words. -/
theorem three_mul_two_pow_mod_le (w k : Nat) : 4 * (3 * 2 ^ k % 2 ^ w) ≤ 3 * 2 ^ w := by
  rcases Nat.lt_or_ge k w with hlt | hge
  · obtain ⟨d, rfl⟩ := Nat.exists_eq_add_of_lt hlt
    cases d with
    | zero =>
        -- the power is half of all words, and so is what is left of it three times
        have hmod : 3 * 2 ^ k % 2 ^ (k + 0 + 1) = 2 ^ k := by
          rw [Nat.add_zero, Nat.pow_succ, Nat.mul_comm 3, Nat.mul_mod_mul_left, Nat.mul_one]
        rw [hmod, Nat.pow_succ]
        omega
    | succ d =>
        have hle : 2 ^ (k + 2) ≤ 2 ^ (k + (d + 1) + 1) :=
          Nat.pow_le_pow_right (by decide) (by omega)
        have hmod := Nat.mod_le (3 * 2 ^ k) (2 ^ (k + (d + 1) + 1))
        rw [Nat.pow_add] at hle
        omega
  · have hdvd : 2 ^ w ∣ 3 * 2 ^ k := Nat.dvd_mul_left_of_dvd (Nat.pow_dvd_pow 2 hge) 3
    rw [Nat.mod_eq_zero_of_dvd hdvd]
    exact Nat.zero_le _

/-- **With more values doubling in words never ends.**  Every power of two is too small for them, and
when no bit of it is left, so is zero. -/
theorem not_doublesTo {n : BitVec w} (hn : 4 * n.toNat < 2 ^ w) (hmany : 3 * 2 ^ w < 16 * n.toNat)
    (k : Nat) (r : BitVec w) : ¬DoublesTo n (.ofNat w (2 ^ k)) r := by
  intro h
  generalize hc : BitVec.ofNat w (2 ^ k) = c at h
  induction h generalizing k with
  | holds hfit =>
      refine hfit ?_
      have hle := three_mul_two_pow_mod_le w k
      rw [← hc, BitVec.lt_def, toNat_mul_four hn, toNat_ofNat_mul_three]
      omega
  | double _ _ ih =>
      refine ih (k + 1) ?_
      rw [← hc, ofNat_mul_two, Nat.pow_succ, Nat.mul_comm]

/-- If twice a power of two fits into a word, so does three times the power. -/
theorem three_mul_lt_two_pow {c : Nat} (hpow : c.isPowerOfTwo) (hc : 2 * c < 2 ^ w) :
    3 * c < 2 ^ w := by
  obtain ⟨k, rfl⟩ := hpow
  have hlt : 2 ^ (k + 1) < 2 ^ w := by rwa [Nat.pow_succ, Nat.mul_comm]
  rw [Nat.pow_lt_pow_iff_right (by decide)] at hlt
  calc 3 * 2 ^ k < 2 ^ k * 2 ^ 2 := by have := Nat.two_pow_pos k; omega
    _ = 2 ^ (k + 2) := (Nat.pow_add 2 k 2).symm
    _ ≤ 2 ^ w := Nat.pow_le_pow_right (by decide) hlt

/-- **Doubling in words ends with a word if and only if this is the capacity, and twice the capacity
fits.** -/
theorem doublesTo_iff {n : BitVec w} (hn : 4 * n.toNat < 2 ^ w) (hw : 2 * leastCapacity < 2 ^ w)
    {r : BitVec w} : DoublesTo n (.ofNat w leastCapacity) r ↔
      2 * capacityHolding n.toNat < 2 ^ w ∧ r = .ofNat w (capacityHolding n.toNat) := by
  have hends : 2 * capacityHolding n.toNat < 2 ^ w →
      DoublesTo n (.ofNat w leastCapacity) (.ofNat w (capacityHolding n.toNat)) := fun hfits =>
    doublesTo_of_lt hn (by decide)
      (three_mul_lt_two_pow (admissible_capacityHolding n.toNat).isPowerOfTwo hfits)
  constructor
  · intro h
    have hfits : 2 * capacityHolding n.toNat < 2 ^ w := by
      refine Nat.lt_of_not_le fun hlarge => ?_
      rcases capacityHolding_le n.toNat with heq | hlt
      · rw [heq] at hlarge
        omega
      · exact not_doublesTo hn (by omega) 6 r h
    exact ⟨hfits, h.unique (hends hfits)⟩
  · rintro ⟨hfits, rfl⟩
    exact hends hfits

end Words

/-! ### Building a table -/

variable {α : Type}

/-- As long as the values fit below the watermark, so many more do not take the table past it. -/
theorem Filled.isOverfull_add {n c k : Nat} {t : ProbeTable α} (h : Filled n c t)
    (hfit : 4 * (n + k) ≤ 3 * c) : isOverfull (t.size + t.vacated + k) t.capacity = false := by
  rw [h.size_eq, h.vacated_eq, h.capacity_eq, Nat.add_zero]
  exact isOverfull_eq_false_iff.2 hfit

theorem Filled.expansion?_eq_none {n c : Nat} {t : ProbeTable α} (h : Filled n c t)
    (hfit : 4 * (n + 1) ≤ 3 * c) : t.expansion? = none := by
  rw [expansion?, h.isOverfull_add hfit]
  rfl

variable [Digest α]

/-- **A table that is filled below the watermark is never expanded**: its values might have been
inserted one after the other. -/
theorem Filled.foldl_insertNew {n c : Nat} {t : ProbeTable α} (h : Filled n c t) {as : List α}
    (hfit : 4 * (n + as.length) ≤ 3 * c) : as.foldl insertNew t = as.foldl ProbeTable.place t := by
  induction as generalizing n t with
  | nil => rfl
  | cons a as ih =>
      rw [List.length_cons] at hfit
      have hplace : t.insertNew a = t.place a := by
        rw [insertNew, h.expansion?_eq_none (by omega)]
      rw [List.foldl_cons, List.foldl_cons, hplace]
      exact ih (h.place (by omega) a) (by omega)

/-- A table is built below the watermark, with a capacity of which half would not do. -/
structure BuiltBelow (as : List α) : Prop where
  /-- The placements lead from an empty table to the one that is built. -/
  leads : Leads (ofCapacity (capacityHolding as.length)) (buildPlacements as) (ofDistinct as)
  /-- The table that a placement finds is not overfull with one more value. -/
  before : ∀ p ∈ buildPlacements as,
    isOverfull (p.1.size + p.1.vacated + 1) p.1.capacity = false
  /-- The table that a placement leaves is not overfull, and has the capacity that was chosen. -/
  after : ∀ p ∈ buildPlacements as,
    isOverfull ((p.1.place p.2).size + (p.1.place p.2).vacated) (p.1.place p.2).capacity = false ∧
      (p.1.place p.2).capacity = capacityHolding as.length
  /-- It is the same to insert the values one after the other. -/
  eq_inserted : ofDistinct as = as.foldl insertNew (ofCapacity (capacityHolding as.length))
  /-- The capacity of the table is the one that was chosen. -/
  capacity_eq : (ofDistinct as).capacity = capacityHolding as.length
  /-- It is the least of all, or half of it would be too small. -/
  least_or_tight : (ofDistinct as).capacity = leastCapacity ∨
    3 * (ofDistinct as).capacity < 8 * as.length

theorem builtBelow (as : List α) : BuiltBelow as := by
  have hempty : Filled 0 (capacityHolding as.length) (ofCapacity _ : ProbeTable α) := .ofCapacity _
  have hload := (admissible_capacityHolding as.length).load_le
  have hcap := (Filled.ofDistinct as).capacity_eq
  have hfound : ∀ p ∈ buildPlacements as, ∃ m < as.length,
      Filled m (capacityHolding as.length) p.1 := by
    intro p hp
    obtain ⟨m, hm, hfilled⟩ := hempty.of_mem_placements (by omega) hp
    exact ⟨m, by omega, hfilled⟩
  refine ⟨leads_placements _ as, ?_, ?_, ?_, hcap, ?_⟩
  · intro p hp
    obtain ⟨m, hm, hfilled⟩ := hfound p hp
    exact hfilled.isOverfull_add (by omega)
  · intro p hp
    obtain ⟨m, hm, hfilled⟩ := hfound p hp
    have hnext := hfilled.place (by omega) p.2
    exact ⟨hnext.isOverfull_add (k := 0) (by omega), hnext.capacity_eq⟩
  · exact (hempty.foldl_insertNew (by omega)).symm
  · rw [hcap]
    exact capacityHolding_le as.length

/-! ### The least capacity -/

/-- **A table is built with the least admissible capacity.**  Doubling finds it for every number of
values.  It does so in words as well if four times this number and twice the capacity fit into a word;
if twice the capacity does not, it never ends.  A table that is built with this capacity stays below the
watermark all the way, whatever its values are. -/
theorem builds_with_least_capacity :
    (∀ n, IsLeast {c | Admissible n c} (capacityHolding n)) ∧
    (∀ (w : Nat) (n : BitVec w), 4 * n.toNat < 2 ^ w → 2 * capacityHolding n.toNat < 2 ^ w →
      ∃ r : BitVec w, r.toNat = capacityHolding n.toNat ∧
        ∀ r', DoublesTo n (.ofNat w leastCapacity) r' ↔ r' = r) ∧
    (∀ (w : Nat) (n : BitVec w), 4 * n.toNat < 2 ^ w → 2 * leastCapacity < 2 ^ w →
      2 ^ w ≤ 2 * capacityHolding n.toNat → ∀ r, ¬DoublesTo n (.ofNat w leastCapacity) r) ∧
    ∀ (α : Type) [Digest α] (as : List α), BuiltBelow as := by
  refine ⟨isLeast_capacityHolding, ?_, ?_, fun α _ as => builtBelow as⟩
  · intro w n hn hfits
    have hleast := (admissible_capacityHolding n.toNat).least_le
    refine ⟨.ofNat w (capacityHolding n.toNat), ?_, fun r => ?_⟩
    · rw [BitVec.toNat_ofNat, Nat.mod_eq_of_lt (by omega)]
    · rw [doublesTo_iff hn (by omega), and_iff_right hfits]
  · intro w n hn hw hlarge r h
    have hfits := ((doublesTo_iff hn hw).1 h).1
    omega

/-- Two hundred values have a table of 512 slots, in words of 64 bits as well.  In words of eight bits
doubling never ends for forty-nine values, which need 128 slots. -/
theorem builds_with_least_capacity_of_words :
    (4 * (200#64).toNat < 2 ^ 64 ∧ 2 * capacityHolding 200 < 2 ^ 64 ∧
      (∃ r : BitVec 64, r.toNat = 512 ∧
        ∀ r', DoublesTo 200#64 (.ofNat 64 leastCapacity) r' ↔ r' = r) ∧
      (ofDistinct ((List.range 200).map UInt64.ofNat)).capacity = 512) ∧
    4 * (49#8).toNat < 2 ^ 8 ∧ 2 * leastCapacity < 2 ^ 8 ∧ 2 ^ 8 ≤ 2 * capacityHolding 49 ∧
      ∀ r, ¬DoublesTo 49#8 (.ofNat 8 leastCapacity) r := by
  obtain ⟨-, hends, hnever, hbuilt⟩ := builds_with_least_capacity
  have hlarge : capacityHolding 200 = 512 := by decide +kernel
  have hsmall : capacityHolding 49 = 128 := by decide +kernel
  have hfits : 2 * capacityHolding 200 < 2 ^ 64 := by omega
  have hmissed : 2 ^ 8 ≤ 2 * capacityHolding 49 := by omega
  have hcap := (hbuilt UInt64 ((List.range 200).map UInt64.ofNat)).capacity_eq
  rw [List.length_map, List.length_range, hlarge] at hcap
  obtain ⟨r, hr, hiff⟩ := hends 64 200#64 (by decide) hfits
  exact ⟨⟨by decide, hfits, ⟨r, hr.trans hlarge, hiff⟩, hcap⟩, by decide, by decide, hmissed,
    hnever 8 49#8 (by decide) (by decide) hmissed⟩

end ProbeTable

end GraphIndex
