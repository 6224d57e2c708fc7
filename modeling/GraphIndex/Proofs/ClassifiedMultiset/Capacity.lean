/-
**The capacity of a classified multiset.**  How the number of buckets follows the number of cells, and
what the growth watermark is worth.

A change of a multiset moves the number of cells by at most one and then doubles or halves the table at
most once.  This is enough to keep the cells below the growth watermark once the watermark leaves room
for a cell, but a small table with a low watermark has no room for its first cells, and doubling it once
for each of them makes it grow faster than the cells come, though it does not catch up at once.

Main definitions:

* `Sizing.expanded`, `Sizing.contracted` — what growing and shrinking make of the number of buckets;
* `Sizing.Resizes` — what a change can do to the numbers of cells and of buckets;
* `Sizing.HoldsCells` — the cells are below the growth watermark, or the table has been doubled for each
  of them.

Main results:

* `ClassifiedMultiset.WellFormed.resizes` — every change is one of these;
* `ClassifiedMultiset.run_keeps` — what they keep holds after every run;
* `ClassifiedMultiset.run_occupied_le` — **how many cells there can be for the buckets**, and when the
  growth watermark is honoured.
-/
import GraphIndex.Proofs.ClassifiedMultiset.Run
import Mathlib.Algebra.Order.Field.Rat
import Mathlib.Tactic.GCongr
import Mathlib.Tactic.Linarith
import Mathlib.Tactic.Positivity
import Mathlib.Tactic.Ring

set_option autoImplicit false

namespace GraphIndex

/-! ### The rules of sizing -/

namespace Sizing

variable {s : Sizing} {n c n' c' : Nat}

/-- The number of buckets when a cell has come. -/
def expanded (s : Sizing) (n c : Nat) : Nat :=
  if s.growLoad * (c : Rat) < (n : Rat) then c * 2 else c

/-- The number of buckets when an element has gone. -/
def contracted (s : Sizing) (n c : Nat) : Nat :=
  if s.floor ≤ c / 2 ∧ (n : Rat) < s.shrinkLoad * (c : Rat) then c / 2 else c

theorem le_expanded (n c : Nat) : c ≤ s.expanded n c := by
  rw [expanded]
  split <;> omega

theorem contracted_le (n c : Nat) : s.contracted n c ≤ c := by
  rw [contracted]
  split <;> omega

/-- What a change can do to `n` cells and `c` buckets. -/
inductive Resizes (s : Sizing) (n c : Nat) : Nat → Nat → Prop
  | keep : Resizes s n c n c
  /-- A cell comes, and the table may grow. -/
  | expand : Resizes s n c (n + 1) (s.expanded (n + 1) c)
  /-- An element goes, perhaps with its cell, and the table may shrink. -/
  | contract {n' : Nat} (hle : n' ≤ n) (hge : n ≤ n' + 1) : Resizes s n c n' (s.contracted n' c)

/-- No change does more than double the table. -/
theorem Resizes.le_double (h : s.Resizes n c n' c') : c' ≤ 2 * c := by
  cases h with
  | keep => omega
  | expand =>
      rw [expanded]
      split <;> omega
  | contract => exact (contracted_le _ _).trans (Nat.le_mul_of_pos_left c Nat.two_pos)

/-- The cells are below the growth watermark, or the table has been doubled once for each of them. -/
def HoldsCells (s : Sizing) (n c : Nat) : Prop :=
  (n : Rat) ≤ s.growLoad * (c : Rat) ∨ s.floor * 2 ^ n ≤ c

/-- A table that is halved has been of an even size. -/
theorem two_mul_half {c : Nat} (hc : c.isPowerOfTwo) (hpos : 0 < c / 2) : 2 * (c / 2) = c := by
  obtain ⟨k, rfl⟩ := hc
  cases k with
  | zero => simp at hpos
  | succ k => omega

/-- **A change keeps room for the cells.** -/
theorem HoldsCells.resizes (hs : s.Valid) (hc : c.isPowerOfTwo) (hfloor : s.floor ≤ c)
    (h : s.HoldsCells n c) (hr : s.Resizes n c n' c') : s.HoldsCells n' c' := by
  have hpos := hs.floor_pos
  cases hr with
  | keep => exact h
  | expand =>
      rw [expanded]
      split
      · rcases h with hle | hle
        · cases n with
          | zero => exact .inr (by omega)
          | succ n =>
              -- below the watermark twice as many cells are room enough for one more
              left
              push_cast at hle ⊢
              have hn : (0 : Rat) ≤ n := Nat.cast_nonneg n
              linarith
        · right
          rw [Nat.pow_succ, ← Nat.mul_assoc]
          exact Nat.mul_le_mul_right 2 hle
      · next hfew => exact .inl (not_lt.1 hfew)
  | contract hle hge =>
      rw [contracted]
      split
      · next hsmall =>
          obtain ⟨hhalf, hlow⟩ := hsmall
          have heven : ((2 * (c / 2) : Nat) : Rat) = c :=
            congrArg Nat.cast (two_mul_half hc (by omega))
          have hcpos : (0 : Rat) < (c / 2 : Nat) := Nat.cast_pos.2 (by omega)
          left
          push_cast at heven
          rw [← heven] at hlow
          nlinarith [hs.shrinkLoad_lt]
      · rcases h with hcells | hcells
        · left
          have hcast : (n' : Rat) ≤ n := Nat.cast_le.2 hle
          linarith
        · right
          exact Nat.le_trans (Nat.mul_le_mul_left _ (Nat.pow_le_pow_right Nat.two_pos hle)) hcells

theorem two_mul_le_two_pow (n : Nat) : 2 * n ≤ 2 ^ n := by
  cases n with
  | zero => exact Nat.zero_le _
  | succ n =>
      rw [Nat.pow_succ, Nat.mul_comm]
      exact Nat.mul_le_mul_right 2 Nat.lt_two_pow_self

/-- There are never more cells than the larger one of the growth watermark and one half allows. -/
theorem HoldsCells.le_max (hs : s.Valid) (h : s.HoldsCells n c) :
    (n : Rat) ≤ max s.growLoad (1 / 2) * (c : Rat) := by
  have hc : (0 : Rat) ≤ c := Nat.cast_nonneg c
  rcases h with hle | hle
  · exact hle.trans (mul_le_mul_of_nonneg_right (le_max_left _ _) hc)
  · have htwo : 2 * n ≤ c :=
      (two_mul_le_two_pow n).trans ((Nat.le_mul_of_pos_left _ hs.floor_pos).trans hle)
    have hcast : (2 : Rat) * n ≤ c := by exact_mod_cast htwo
    have hmax := mul_le_mul_of_nonneg_right (le_max_right s.growLoad (1 / 2)) hc
    linarith

/-- A table with room for a cell once it is doubled keeps its cells below the watermark. -/
theorem HoldsCells.le_growLoad (hroom : 1 ≤ 2 * s.growLoad * (s.floor : Rat))
    (hgrow : 0 < s.growLoad) (h : s.HoldsCells n c) : (n : Rat) ≤ s.growLoad * (c : Rat) := by
  rcases h with hle | hle
  · exact hle
  · cases n with
    | zero => positivity
    | succ n =>
        have hn : ((n + 1 : Nat) : Rat) ≤ 2 ^ n := by exact_mod_cast Nat.lt_two_pow_self
        have hc : (s.floor : Rat) * 2 ^ (n + 1) ≤ c := by exact_mod_cast hle
        calc ((n + 1 : Nat) : Rat) ≤ 2 ^ n := hn
          _ ≤ 2 * s.growLoad * s.floor * 2 ^ n := le_mul_of_one_le_left (by positivity) hroom
          _ = s.growLoad * (s.floor * 2 ^ (n + 1)) := by ring
          _ ≤ s.growLoad * c := by gcongr

end Sizing

/-! ### Changes of a multiset -/

namespace ClassifiedMultiset

open Sizing

variable {κ α : Type} [BEq κ] [Digest κ] {m : ClassifiedMultiset κ α}

omit [BEq κ] in
theorem expand_numbers (hpos : 0 < m.capacity) :
    m.expand.occupied = m.occupied ∧
      m.expand.capacity = m.sizing.expanded m.occupied m.capacity := by
  rw [expand, expanded]
  split
  · exact ⟨rfl, capacity_resize m (by omega)⟩
  · exact ⟨rfl, rfl⟩

omit [BEq κ] in
theorem contract_numbers (hpos : 0 < m.sizing.floor) :
    m.contract.occupied = m.occupied ∧
      m.contract.capacity = m.sizing.contracted m.occupied m.capacity := by
  rw [contract, contracted]
  split
  · next hsmall => exact ⟨rfl, capacity_resize m (by omega)⟩
  · exact ⟨rfl, rfl⟩

omit [BEq κ] [Digest κ] in
theorem capacity_alterCell [BEq κ] [Digest κ] (sizing : Sizing) (k : κ)
    (f : Option (CompactSet α) → Option (CompactSet α)) (occupied size : Nat) :
    capacity ⟨sizing, alterCell m.buckets k f, occupied, size⟩ = m.capacity :=
  Array.size_modify ..

variable [BEq α] [Digest α]

/-- A new cell is counted, and the table grows by the rule. -/
theorem WellFormed.numbers_insertNew (h : m.WellFormed) {k : κ} (hc : m.cell? k = none) (a : α) :
    (m.insertNew k a).occupied = m.occupied + 1 ∧
      (m.insertNew k a).capacity = m.sizing.expanded (m.occupied + 1) m.capacity := by
  rw [insertNew_of_cell?_eq_none hc]
  have hnumbers := expand_numbers
    (m := ⟨m.sizing, alterCell m.buckets k (CompactSet.add · a), m.occupied + 1, m.size + 1⟩)
    (by rw [capacity_alterCell]; exact h.capacity_pos)
  rwa [capacity_alterCell] at hnumbers

theorem WellFormed.resizes_insertNew (h : m.WellFormed) (k : κ) (a : α) :
    m.sizing.Resizes m.occupied m.capacity (m.insertNew k a).occupied
      (m.insertNew k a).capacity := by
  cases hc : m.cell? k with
  | none =>
      obtain ⟨hoccupied, hcap⟩ := h.numbers_insertNew hc a
      rw [hoccupied, hcap]
      exact .expand
  | some s =>
      rw [insertNew_of_cell?_eq_some hc, capacity_alterCell]
      exact .keep

/-- At most one cell goes, and the table shrinks by the rule. -/
theorem WellFormed.numbers_eraseMember (h : m.WellFormed) (k : κ) (a : α) :
    (m.eraseMember k a).occupied ≤ m.occupied ∧
      m.occupied ≤ (m.eraseMember k a).occupied + 1 ∧
      (m.eraseMember k a).capacity =
        m.sizing.contracted (m.eraseMember k a).occupied m.capacity := by
  have hleft : ∀ occupied, occupied ≤ m.occupied → m.occupied ≤ occupied + 1 →
      let left : ClassifiedMultiset κ α :=
        ⟨m.sizing, alterCell m.buckets k (CompactSet.remove · a), occupied, m.size - 1⟩
      left.contract.occupied ≤ m.occupied ∧ m.occupied ≤ left.contract.occupied + 1 ∧
        left.contract.capacity = m.sizing.contracted left.contract.occupied m.capacity := by
    intro occupied hle hge left
    obtain ⟨hoccupied, hcap⟩ := contract_numbers (m := left) h.floor_pos
    rw [hoccupied, hcap, capacity_alterCell]
    exact ⟨hle, hge, rfl⟩
  rw [ClassifiedMultiset.eraseMember]
  dsimp only
  split
  · exact hleft (m.occupied - 1) (by omega) (by omega)
  · exact hleft m.occupied (by omega) (by omega)

theorem WellFormed.resizes_eraseMember (h : m.WellFormed) (k : κ) (a : α) :
    m.sizing.Resizes m.occupied m.capacity (m.eraseMember k a).occupied
      (m.eraseMember k a).capacity := by
  obtain ⟨hle, hge, hcap⟩ := h.numbers_eraseMember k a
  rw [hcap]
  exact .contract hle hge

/-- **Every change resizes the table by the rules.** -/
theorem WellFormed.resizes (h : m.WellFormed) (c : Change κ α) :
    m.sizing.Resizes m.occupied m.capacity (c.apply m).occupied (c.apply m).capacity := by
  cases c with
  | add classify a =>
      rw [Change.apply, add]
      split
      · exact .keep
      · exact h.resizes_insertNew _ a
  | remove classify a =>
      rw [Change.apply, remove]
      split
      · exact h.resizes_eraseMember _ a
      · exact .keep

variable [EquivBEq κ] [LawfulDigest κ]

theorem WellFormed.apply (h : m.WellFormed) (c : Change κ α) :
    (c.apply m).WellFormed ∧ (c.apply m).sizing = m.sizing := by
  obtain ⟨hwf, hstores⟩ := Stores.apply h h.stores c
  exact ⟨hwf, hstores.sizing_eq⟩

/-- What every change keeps of the numbers of cells and of buckets, every run keeps. -/
theorem WellFormed.run_keeps {P : Nat → Nat → Prop} (h : m.WellFormed)
    (hP : P m.occupied m.capacity)
    (hstep : ∀ n c n' c', c.isPowerOfTwo → m.sizing.floor ≤ c → P n c →
      m.sizing.Resizes n c n' c' → P n' c') (cs : List (Change κ α)) :
    P (run m cs).occupied (run m cs).capacity := by
  induction cs generalizing m with
  | nil => exact hP
  | cons c cs ih =>
      obtain ⟨hwf, hsizing⟩ := h.apply c
      refine ih hwf ?_ ?_
      · exact hstep _ _ _ _ h.isPowerOfTwo h.floor_le hP (h.resizes c)
      · rwa [hsizing]

omit [BEq κ] [Digest κ] [BEq α] [Digest α] [EquivBEq κ] [LawfulDigest κ] in
theorem capacity_empty (s : Sizing) : (empty s : ClassifiedMultiset κ α).capacity = s.floor :=
  Array.size_replicate

/-- After every run, there is room for the cells. -/
theorem run_holdsCells {s : Sizing} (hs : s.Valid) (cs : List (Change κ α)) :
    s.HoldsCells (run (empty s : ClassifiedMultiset κ α) cs).occupied
      (run (empty s : ClassifiedMultiset κ α) cs).capacity := by
  refine (WellFormed.empty hs.floor_isPowerOfTwo).run_keeps ?_ ?_ cs
  · rw [capacity_empty]
    exact .inr (by simp [empty])
  · intro n c n' c' hc hfloor h hr
    exact h.resizes hs hc hfloor hr

variable [EquivBEq α] [LawfulDigest α]

/-- The first cell at most doubles the table. -/
theorem run_first {s : Sizing} (hs : s.floor.isPowerOfTwo) (k : κ) (a : α) :
    (run (empty s) [.add (fun _ => k) a]).occupied = 1 ∧
      (run (empty s) [.add (fun _ => k) a]).capacity ≤ 2 * s.floor := by
  have hpairs : Represents (run (empty s) [.add (fun _ => k) a]) [(k, a)] :=
    (Represents.empty hs).run [.add (fun _ => k) a]
  have hle := ((WellFormed.empty hs).resizes (.add (fun _ => k) a)).le_double
  rw [capacity_empty] at hle
  refine ⟨?_, hle⟩
  rw [hpairs.occupied_eq]
  rfl

/-- **How many cells there can be for the buckets.**  Under accepted options that do not overflow, a
multiset never has more cells than the larger one of the growth watermark and one half allows for its
number of buckets.  The growth watermark itself is honoured after every run exactly if twice the number of
buckets to begin with leaves room for a cell under it; otherwise the first cell is too much. -/
theorem run_occupied_le [Nonempty κ] [Nonempty α] {o : SizingOptions} (ho : o.fault? = none)
    (hword : o.capacity.toNat ≤ 2 ^ 63) :
    ∃ m₀ : ClassifiedMultiset κ α, ofOptions? o = .ok m₀ ∧ o.leastCapacity? = some m₀.capacity ∧
      (∀ cs : List (Change κ α),
        ((run m₀ cs).occupied : Rat) ≤
          max o.growLoad.toRat (1 / 2) * ((run m₀ cs).capacity : Rat)) ∧
      ((∀ cs : List (Change κ α),
        ((run m₀ cs).occupied : Rat) ≤ o.growLoad.toRat * ((run m₀ cs).capacity : Rat)) ↔
        1 ≤ 2 * o.growLoad.toRat * (m₀.capacity : Rat)) := by
  obtain ⟨s, hm₀, hs, hfloor, hgrow, -⟩ := exists_ofOptions? (κ := κ) (α := α) ho hword
  refine ⟨empty s, hm₀, ?_⟩
  rw [capacity_empty, ← hgrow]
  refine ⟨hfloor, fun cs => (run_holdsCells hs cs).le_max hs, fun hall => ?_, fun hroom cs => ?_⟩
  · obtain ⟨k⟩ := (inferInstance : Nonempty κ)
    obtain ⟨a⟩ := (inferInstance : Nonempty α)
    obtain ⟨hoccupied, hcap⟩ := run_first hs.floor_isPowerOfTwo k a
    have hone := hall [.add (fun _ => k) a]
    rw [hoccupied, Nat.cast_one] at hone
    calc (1 : Rat) ≤ s.growLoad * _ := hone
      _ ≤ s.growLoad * (2 * s.floor) := by
        have hcast := Nat.cast_le (α := Rat).2 hcap
        rw [Nat.cast_mul, Nat.cast_two] at hcast
        exact mul_le_mul_of_nonneg_left hcast hs.growLoad_pos.le
      _ = 2 * s.growLoad * s.floor := by ring
  · exact (run_holdsCells hs cs).le_growLoad hroom hs.growLoad_pos

/-- With one bucket to begin with and room for three cells in four buckets, the watermark is honoured:
five words under classifiers of their own need eight buckets. -/
theorem run_occupied_le_of_words :
    let o : SizingOptions := { SizingOptions.standard with capacity := 1 }
    let m₀ : ClassifiedMultiset UInt64 UInt64 := empty { Sizing.standard with floor := 1 }
    let cs : List (Change UInt64 UInt64) := [1, 2, 3, 4, 5].map (.add id)
    o.fault? = none ∧ o.capacity.toNat ≤ 2 ^ 63 ∧ ofOptions? o = .ok m₀ ∧
      1 ≤ 2 * o.growLoad.toRat * (m₀.capacity : Rat) ∧
      (run m₀ cs).occupied = 5 ∧ (run m₀ cs).capacity = 8 ∧ (5 : Rat) ≤ o.growLoad.toRat * 8 := by
  intro o m₀ cs
  have ho : o.fault? = none := by decide +kernel
  have hword : o.capacity.toNat ≤ 2 ^ 63 := by decide +kernel
  have hm₀ : ofOptions? o = .ok m₀ := ofOptions?_eq_ok
    (SizingOptions.sizing?_eq_ok ho (by decide +kernel) (by decide +kernel) (by decide +kernel))
  have hroom : 1 ≤ 2 * o.growLoad.toRat * (m₀.capacity : Rat) := by decide +kernel
  have hoccupied : (run m₀ cs).occupied = 5 := by decide +kernel
  have hcap : (run m₀ cs).capacity = 8 := by decide +kernel
  obtain ⟨m, hm, -, -, hiff⟩ := run_occupied_le (κ := UInt64) (α := UInt64) ho hword
  obtain rfl : m = m₀ := Except.ok.inj (hm.symm.trans hm₀)
  have hle := hiff.2 hroom cs
  rw [hoccupied, hcap] at hle
  exact ⟨ho, hword, hm₀, hroom, hoccupied, hcap, by exact_mod_cast hle⟩

/-- With one bucket to begin with and room for one cell in four buckets, the table has two buckets when
the first cell has come, which is more cells than the watermark allows. -/
theorem first_cell_exceeds_growLoad :
    let o : SizingOptions := ⟨1, Binary64.nearest (1 / 4), Binary64.zero⟩
    ∃ m₀ : ClassifiedMultiset UInt64 UInt64, ofOptions? o = .ok m₀ ∧
      let m := run m₀ [.add id 1]
      m.occupied = 1 ∧ m.capacity = 2 ∧
        ¬ (m.occupied : Rat) ≤ o.growLoad.toRat * (m.capacity : Rat) := by
  intro o
  have hm₀ : ofOptions? o = .ok (empty ⟨1, 1 / 4, 0⟩ : ClassifiedMultiset UInt64 UInt64) :=
    ofOptions?_eq_ok (SizingOptions.sizing?_eq_ok (by decide +kernel) (by decide +kernel)
      (by decide +kernel) (by decide +kernel))
  exact ⟨_, hm₀, by decide +kernel⟩

end ClassifiedMultiset

end GraphIndex
