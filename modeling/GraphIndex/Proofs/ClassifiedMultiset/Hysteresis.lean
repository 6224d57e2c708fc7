/-
**Hysteresis of a classified multiset.**  When one change resizes the table and the next one resizes it
back.

The two watermarks are shares of the number of buckets, and accepted options keep the shrinking one below
half of the growth one.  But cells are counted in whole numbers: the cell that makes a table grow is one
more than the growth watermark allows, and when it goes again, what is left is compared with the shrinking
watermark of the larger table.  Between the two there may be no whole number at all, so a small table can
grow and shrink with every change.  Whether it can is decided by the most cells that each number of
buckets may have.

Main definitions:

* `Sizing.mostCells` — the most cells within the growth watermark;
* `Sizing.Steady` — they are not too few for twice as many buckets;
* `ClassifiedMultiset.Oscillates` — one change resizes the table, and the next one resizes it back;
* `ClassifiedMultiset.backAndForth` — an element is added and removed again, a number of times.

Main results:

* `Sizing.Steady.keeps_growth`, `Sizing.Steady.keeps_shrinking` — in a steady table no change undoes what
  the one before has done;
* `Sizing.steady_of_room` — room for a whole cell between the watermarks makes a table steady;
* `ClassifiedMultiset.WellFormed.not_oscillates` — a table does not oscillate if the smaller one of its
  sizes is steady;
* `ClassifiedMultiset.exists_unsteady` — a size that is not steady is reached;
* `ClassifiedMultiset.Represents.backAndForth` — a table that is not steady grows and shrinks for ever;
* `ClassifiedMultiset.run_oscillates_unless_steady` — **which tables oscillate**.
-/
import GraphIndex.Proofs.ClassifiedMultiset.Emptying
import Mathlib.Data.Rat.Floor

set_option autoImplicit false

namespace GraphIndex

/-! ### Steady tables -/

namespace Sizing

variable {s : Sizing} {n c n₁ c₁ n₂ c₂ : Nat}

/-- The most cells that are not above the growth watermark of `c` buckets. -/
def mostCells (s : Sizing) (c : Nat) : Nat :=
  ⌊s.growLoad * (c : Rat)⌋₊

/-- The most cells that `c` buckets may have are not too few for twice as many buckets. -/
def Steady (s : Sizing) (c : Nat) : Prop :=
  s.shrinkLoad * ((c * 2 : Nat) : Rat) ≤ (s.mostCells c : Rat)

theorem Valid.growLoad_mul_nonneg (hs : s.Valid) (c : Nat) : 0 ≤ s.growLoad * (c : Rat) :=
  mul_nonneg hs.growLoad_pos.le (Nat.cast_nonneg c)

/-- One more cell is too many if there are already as many as there may be. -/
theorem Valid.growLoad_mul_lt_iff (hs : s.Valid) :
    s.growLoad * (c : Rat) < ((n + 1 : Nat) : Rat) ↔ s.mostCells c ≤ n := by
  rw [mostCells, ← Nat.lt_succ_iff, Nat.floor_lt (hs.growLoad_mul_nonneg c)]

/-- A table grows by a cell that is too many. -/
theorem Resizes.of_lt (h : s.Resizes n c n₁ c₁) (hlt : c < c₁) :
    n₁ = n + 1 ∧ c₁ = c * 2 ∧ s.growLoad * (c : Rat) < (n₁ : Rat) := by
  cases h with
  | keep => exact absurd hlt (Nat.lt_irrefl c)
  | expand =>
      rw [expanded] at hlt ⊢
      split at hlt
      · next hmany =>
          rw [if_pos hmany]
          exact ⟨rfl, rfl, hmany⟩
      · exact absurd hlt (Nat.lt_irrefl c)
  | contract => exact absurd hlt (Nat.not_lt.2 (contracted_le _ _))

/-- A table shrinks when too few cells are left. -/
theorem Resizes.of_gt (h : s.Resizes n c n₁ c₁) (hlt : c₁ < c) :
    n ≤ n₁ + 1 ∧ c₁ = c / 2 ∧ (n₁ : Rat) < s.shrinkLoad * (c : Rat) := by
  cases h with
  | keep => exact absurd hlt (Nat.lt_irrefl c)
  | expand => exact absurd hlt (Nat.not_lt.2 (le_expanded _ _))
  | contract hle hge =>
      rw [contracted] at hlt ⊢
      split at hlt
      · next hsmall =>
          rw [if_pos hsmall]
          exact ⟨hge, rfl, hsmall.2⟩
      · exact absurd hlt (Nat.lt_irrefl c)

/-- **What has made a steady table grow, the next change does not undo.** -/
theorem Steady.keeps_growth (hs : s.Valid) (h : s.Steady c) (hr : s.Resizes n c n₁ c₁)
    (hgrows : c < c₁) (hr' : s.Resizes n₁ c₁ n₂ c₂) : c₁ ≤ c₂ := by
  by_contra hshrinks
  obtain ⟨rfl, rfl, hmany⟩ := hr.of_lt hgrows
  obtain ⟨hleft, -, hfew⟩ := hr'.of_gt (not_le.1 hshrinks)
  have hmost : s.mostCells c ≤ n := hs.growLoad_mul_lt_iff.1 hmany
  have hcast : (s.mostCells c : Rat) ≤ n₂ := Nat.cast_le.2 (by omega)
  exact absurd (h.trans hcast) (not_le.2 hfew)

/-- **What has made a table shrink to a steady one, the next change does not undo.** -/
theorem Steady.keeps_shrinking (hs : s.Valid) (hc : c.isPowerOfTwo) (hfloor : s.floor ≤ c₁)
    (h : s.Steady c₁) (hr : s.Resizes n c n₁ c₁) (hshrinks : c₁ < c)
    (hr' : s.Resizes n₁ c₁ n₂ c₂) : c₂ ≤ c₁ := by
  by_contra hgrows
  obtain ⟨-, hhalf, hfew⟩ := hr.of_gt hshrinks
  obtain ⟨rfl, -, hmany⟩ := hr'.of_lt (not_le.1 hgrows)
  have hpos := hs.floor_pos
  have heven : c₁ * 2 = c := by
    have hdouble := two_mul_half hc (by omega)
    omega
  have hmost : s.mostCells c₁ ≤ n₁ := hs.growLoad_mul_lt_iff.1 hmany
  have hcast : (s.mostCells c₁ : Rat) ≤ n₁ := Nat.cast_le.2 hmost
  rw [Steady, heven] at h
  exact absurd (h.trans hcast) (not_le.2 hfew)

/-- **Room for a whole cell between the watermarks makes a table steady.** -/
theorem steady_of_room (hroom : 1 ≤ (s.growLoad - 2 * s.shrinkLoad) * (c : Rat)) : s.Steady c := by
  have hlt : s.growLoad * (c : Rat) < (s.mostCells c : Rat) + 1 := Nat.lt_floor_add_one _
  rw [Steady]
  push_cast
  linarith

/-! ### Tables that are just large enough -/

/-- There are no more cells than there may be, and there would be in half as many buckets, except that
there are never fewer buckets than to begin with. -/
def Snug (s : Sizing) (n c : Nat) : Prop :=
  (n : Rat) ≤ s.growLoad * (c : Rat) ∧ (c = s.floor ∨ s.growLoad * (c : Rat) < 2 * (n : Rat))

theorem one_le_growLoad_mul (hs : s.Valid) (hone : 1 ≤ s.growLoad * (s.floor : Rat))
    (hfloor : s.floor ≤ c) : 1 ≤ s.growLoad * (c : Rat) :=
  hone.trans (mul_le_mul_of_nonneg_left (Nat.cast_le.2 hfloor) hs.growLoad_pos.le)

/-- **A new cell keeps the table just large enough**, if there is room for one to begin with. -/
theorem Snug.expanded (hs : s.Valid) (hone : 1 ≤ s.growLoad * (s.floor : Rat))
    (hfloor : s.floor ≤ c) (h : s.Snug n c) : s.Snug (n + 1) (s.expanded (n + 1) c) := by
  obtain ⟨hle, hhalf⟩ := h
  have hroom := one_le_growLoad_mul hs hone hfloor
  rw [Sizing.expanded]
  split
  · next hmany =>
      push_cast at hmany
      refine ⟨?_, .inr ?_⟩
      · push_cast
        linarith
      · push_cast
        linarith
  · next hfew =>
      refine ⟨not_lt.1 hfew, hhalf.imp_right fun hlt => ?_⟩
      push_cast
      linarith

theorem two_mul_le_of_lt (hc : c.isPowerOfTwo) (hc₁ : c₁.isPowerOfTwo) (h : c < c₁) :
    2 * c ≤ c₁ := by
  obtain ⟨i, rfl⟩ := hc
  obtain ⟨j, rfl⟩ := hc₁
  have hij : i < j := (Nat.pow_lt_pow_iff_right (by decide)).1 h
  rw [Nat.mul_comm, ← Nat.pow_succ]
  exact Nat.pow_le_pow_right Nat.two_pos hij

/-- **Only one number of buckets is just large enough for the most cells of it.** -/
theorem Snug.eq_of_mostCells (hs : s.Valid) (hone : 1 ≤ s.growLoad * (s.floor : Rat))
    (hc : c.isPowerOfTwo) (hc₁ : c₁.isPowerOfTwo) (hfloor : s.floor ≤ c) (hfloor₁ : s.floor ≤ c₁)
    (h : s.Snug (s.mostCells c₁) c) : c = c₁ := by
  obtain ⟨hle, hhalf⟩ := h
  have hdouble : ∀ {a b : Nat}, 2 * a ≤ b → s.growLoad * (2 * (a : Rat)) ≤ s.growLoad * b :=
    fun hab => mul_le_mul_of_nonneg_left (by exact_mod_cast hab) hs.growLoad_pos.le
  rcases lt_trichotomy c c₁ with hlt | heq | hgt
  · -- half as many buckets have no room for the last cell
    have hlarger := hdouble (two_mul_le_of_lt hc hc₁ hlt)
    have hmost : s.growLoad * (c₁ : Rat) < (s.mostCells c₁ : Rat) + 1 := Nat.lt_floor_add_one _
    have hroom := one_le_growLoad_mul hs hone hfloor
    linarith
  · exact heq
  · have hlarger := hdouble (two_mul_le_of_lt hc₁ hc hgt)
    have hmost : (s.mostCells c₁ : Rat) ≤ s.growLoad * (c₁ : Rat) :=
      Nat.floor_le (hs.growLoad_mul_nonneg c₁)
    have hmany := hhalf.resolve_left (by omega)
    linarith

end Sizing

/-! ### Oscillation -/

namespace ClassifiedMultiset

open Sizing

variable {κ α : Type} [BEq κ] [Digest κ] [BEq α] [Digest α]

/-- The first change makes the table grow and the second one makes it shrink, or the other way round. -/
def Oscillates (m : ClassifiedMultiset κ α) (first second : Change κ α) : Prop :=
  let m₁ := first.apply m
  let m₂ := second.apply m₁
  (m.capacity < m₁.capacity ∧ m₂.capacity < m₁.capacity) ∨
    (m₁.capacity < m.capacity ∧ m₁.capacity < m₂.capacity)

/-- An element is added under a classifier and removed again, `t` times. -/
def backAndForth (k : κ) (a : α) : Nat → List (Change κ α)
  | 0 => []
  | t + 1 => .add (fun _ => k) a :: .remove (fun _ => k) a :: backAndForth k a t

variable [EquivBEq κ] [LawfulDigest κ] {m : ClassifiedMultiset κ α}

/-- **A table does not oscillate if the smaller one of its sizes is steady.** -/
theorem WellFormed.not_oscillates (h : m.WellFormed) (hs : m.sizing.Valid) {first : Change κ α}
    (hsteady : m.sizing.Steady (min m.capacity (first.apply m).capacity)) (second : Change κ α) :
    ¬ Oscillates m first second := by
  obtain ⟨hwf, hsizing⟩ := h.apply first
  have hr := h.resizes first
  have hr' := hwf.resizes second
  have hfloor := hwf.floor_le
  rw [hsizing] at hr' hfloor
  rintro (⟨hgrows, hshrinks⟩ | ⟨hshrinks, hgrows⟩)
  · rw [Nat.min_eq_left hgrows.le] at hsteady
    exact absurd (hsteady.keeps_growth hs hr hgrows hr') (Nat.not_le.2 hshrinks)
  · rw [Nat.min_eq_right hshrinks.le] at hsteady
    exact absurd (hsteady.keeps_shrinking hs h.isPowerOfTwo hfloor hr hshrinks hr')
      (Nat.not_le.2 hgrows)

variable [EquivBEq α] [LawfulDigest α] {ps : List (κ × α)}

/-! ### A new cell that comes and goes -/

/-- An element under a new classifier has a cell of its own. -/
theorem Represents.add_new (h : Represents m ps) {k : κ} (hk : ∀ p ∈ ps, (p.1 == k) = false)
    (a : α) :
    Represents ((Change.add (fun _ => k) a).apply m) ((k, a) :: ps) ∧
      ((Change.add (fun _ => k) a).apply m).occupied = m.occupied + 1 ∧
      ((Change.add (fun _ => k) a).apply m).capacity =
        m.sizing.expanded (m.occupied + 1) m.capacity := by
  have habsent : ps.contains (k, a) = false := by
    refine contains_eq_false_iff.2 fun p hp => ?_
    have hpair : ((k, a) == p) = (k == p.1 && a == p.2) := rfl
    rw [hpair, BEq.comm, hk p hp, Bool.false_and]
  have hadded := h.apply (.add (fun _ => k) a)
  rw [Change.pairs, insert_of_contains_eq_false habsent] at hadded
  have happly : (Change.add (fun _ => k) a).apply m = m.insertNew k a := by
    rw [Change.apply, ClassifiedMultiset.add, h.contains_eq, habsent]
    rfl
  have hnumbers := h.wellFormed.numbers_insertNew ((h.cell_eq_none_iff k).2 hk) a
  exact ⟨hadded, happly ▸ hnumbers⟩

/-- What is removed again leaves the pairs as they were. -/
theorem Represents.remove_added {k : κ} {a : α} (h : Represents m ((k, a) :: ps)) :
    Represents ((Change.remove (fun _ => k) a).apply m) ps ∧
      ((Change.remove (fun _ => k) a).apply m).capacity =
        m.sizing.contracted ((Change.remove (fun _ => k) a).apply m).occupied m.capacity := by
  have hremoved := h.apply (.remove (fun _ => k) a)
  rw [Change.pairs, without_cons_of_beq h.distinct BEq.rfl] at hremoved
  have happly : (Change.remove (fun _ => k) a).apply m = m.eraseMember k a := by
    rw [Change.apply, ClassifiedMultiset.remove, h.contains_eq, List.contains_cons, BEq.rfl]
    rfl
  obtain ⟨-, -, hcap⟩ := h.wellFormed.numbers_eraseMember k a
  exact ⟨hremoved, happly ▸ hcap⟩

/-- **A new cell that is too many and, once it has gone, leaves too few makes the table grow and shrink.** -/
theorem Represents.grows_and_shrinks (h : Represents m ps) {k : κ}
    (hk : ∀ p ∈ ps, (p.1 == k) = false) (a : α)
    (hmany : m.sizing.growLoad * (m.capacity : Rat) < ((m.occupied + 1 : Nat) : Rat))
    (hfew : (m.occupied : Rat) < m.sizing.shrinkLoad * ((m.capacity * 2 : Nat) : Rat)) :
    let m₁ := (Change.add (fun _ => k) a).apply m
    let m₂ := (Change.remove (fun _ => k) a).apply m₁
    m₁.capacity = m.capacity * 2 ∧ m₂.capacity = m.capacity ∧ Represents m₂ ps := by
  intro m₁ m₂
  obtain ⟨hadded, -, hgrown⟩ := h.add_new hk a
  obtain ⟨hremoved, hshrunk⟩ := hadded.remove_added
  obtain ⟨-, hsizing⟩ := h.wellFormed.apply (.add (fun _ => k) a)
  rw [expanded, if_pos hmany] at hgrown
  have hsame : m₂.occupied = m.occupied := hremoved.occupied_eq.trans h.occupied_eq.symm
  have hfloor : m.sizing.floor ≤ m.capacity * 2 / 2 := by
    rw [Nat.mul_div_cancel _ Nat.two_pos]
    exact h.wellFormed.floor_le
  refine ⟨hgrown, ?_, hremoved⟩
  rw [hsizing, hsame, hgrown, contracted, if_pos ⟨hfloor, hfew⟩, Nat.mul_div_cancel _ Nat.two_pos]
    at hshrunk
  exact hshrunk

/-- **And it does so for ever.** -/
theorem Represents.backAndForth (h : Represents m ps) {k : κ} (hk : ∀ p ∈ ps, (p.1 == k) = false)
    (a : α) (hmany : m.sizing.growLoad * (m.capacity : Rat) < ((m.occupied + 1 : Nat) : Rat))
    (hfew : (m.occupied : Rat) < m.sizing.shrinkLoad * ((m.capacity * 2 : Nat) : Rat)) (t : Nat) :
    let m' := ClassifiedMultiset.run m (ClassifiedMultiset.backAndForth k a t)
    ((Change.add (fun _ => k) a).apply m').capacity = m'.capacity * 2 ∧
      ((Change.remove (fun _ => k) a).apply ((Change.add (fun _ => k) a).apply m')).capacity =
        m'.capacity := by
  induction t generalizing m with
  | zero =>
      obtain ⟨hgrown, hshrunk, -⟩ := h.grows_and_shrinks hk a hmany hfew
      exact ⟨hgrown, hshrunk⟩
  | succ t ih =>
      obtain ⟨-, hshrunk, hback⟩ := h.grows_and_shrinks hk a hmany hfew
      obtain ⟨hadded, -⟩ := h.add_new hk a
      have hsizing := (hadded.wellFormed.apply (.remove (fun _ => k) a)).2.trans
        (h.wellFormed.apply (.add (fun _ => k) a)).2
      have hsame := hback.occupied_eq.trans h.occupied_eq.symm
      -- the other rounds begin where the first one has led
      have hrest := ih hback (by rw [hsizing, hshrunk, hsame]; exact hmany)
        (by rw [hsizing, hshrunk, hsame]; exact hfew)
      exact hrest

/-! ### Tables that are full -/

omit [Digest κ] [Digest α] [LawfulDigest κ] [EquivBEq α] [LawfulDigest α] in
/-- A classifier that is not among them is new after filling. -/
theorem new_of_filling {ks : List κ} {k : κ} (hk : ks.contains k = false) (a : α) :
    ∀ p ∈ (filling ks a).foldl (fun ps c => c.pairs ps) [], (p.1 == k) = false := by
  have hcontains := contains_filling ks a [] k
  rw [hk] at hcontains
  intro p hp
  rw [BEq.comm]
  exact contains_eq_false_iff.1 hcontains p.1 (List.mem_map_of_mem hp)

/-- **Filling keeps the table just large enough.** -/
theorem filling_numbers {s : Sizing} (hs : s.Valid) (hone : 1 ≤ s.growLoad * (s.floor : Rat))
    {ks : List κ} (hks : Distinct ks) (a : α) :
    (run (empty s) (filling ks a)).occupied = ks.length ∧
      s.Snug ks.length (run (empty s) (filling ks a)).capacity := by
  -- the last cell comes to a table that the others have left just large enough
  induction ks using List.reverseRecOn with
  | nil =>
      refine ⟨rfl, ?_, .inl (capacity_empty s)⟩
      rw [List.length_nil, Nat.cast_zero]
      exact hs.growLoad_mul_nonneg _
  | append_singleton ks k ih =>
      obtain ⟨hfront, -, hnew⟩ := List.pairwise_append.1 hks
      obtain ⟨hoccupied, hsnug⟩ := ih hfront
      have hk : ks.contains k = false := by
        refine contains_eq_false_iff.2 fun l hl => ?_
        rw [BEq.comm]
        exact hnew l hl k List.mem_cons_self
      obtain ⟨hrun, hsizing⟩ := represents_run hs (filling ks a)
      have hfloor := hrun.wellFormed.floor_le
      obtain ⟨-, hmore, hcap⟩ := hrun.add_new (new_of_filling hk a) a
      rw [hsizing] at hfloor hcap
      rw [hoccupied] at hmore hcap
      have hlast : run (empty s) (filling (ks ++ [k]) a) =
          (Change.add (fun _ => k) a).apply (run (empty s) (filling ks a)) := by
        rw [filling, List.map_append, run, List.foldl_append]
        rfl
      rw [hlast, List.length_append, List.length_singleton, hcap]
      exact ⟨hmore, hsnug.expanded hs hone hfloor⟩

/-- **Every number of buckets is reached, and then its most cells.** -/
theorem filling_mostCells {s : Sizing} (hs : s.Valid) (hone : 1 ≤ s.growLoad * (s.floor : Rat))
    {c : Nat} (hc : c.isPowerOfTwo) (hfloor : s.floor ≤ c) {ks : List κ} (hks : Distinct ks)
    (hlen : ks.length = s.mostCells c) (a : α) :
    (run (empty s) (filling ks a)).occupied = s.mostCells c ∧
      (run (empty s) (filling ks a)).capacity = c := by
  obtain ⟨hoccupied, hsnug⟩ := filling_numbers hs hone hks a
  obtain ⟨hrun, hsizing⟩ := represents_run hs (filling ks a)
  have hle := hrun.wellFormed.floor_le
  rw [hsizing] at hle
  rw [hlen] at hoccupied hsnug
  exact ⟨hoccupied, hsnug.eq_of_mostCells hs hone hrun.wellFormed.isPowerOfTwo hc hle hfloor⟩

/-- **A table that is not steady can be brought to grow and shrink.** -/
theorem exists_unsteady {s : Sizing} (hs : s.Valid) {c : Nat} (hc : c.isPowerOfTwo)
    (hfloor : s.floor ≤ c) (hunsteady : ¬ s.Steady c) {ks : List κ} (hks : Distinct ks)
    (hmany : s.growLoad * (c : Rat) < (ks.length : Rat)) (a : α) :
    ∃ (cs : List (Change κ α)) (ps : List (κ × α)) (k : κ),
      Represents (run (empty s) cs) ps ∧ (∀ p ∈ ps, (p.1 == k) = false) ∧
      s.growLoad * ((run (empty s) cs).capacity : Rat) <
        (((run (empty s) cs).occupied + 1 : Nat) : Rat) ∧
      ((run (empty s) cs).occupied : Rat) <
        s.shrinkLoad * (((run (empty s) cs).capacity * 2 : Nat) : Rat) := by
  have hless : s.mostCells c < ks.length := (Nat.floor_lt (hs.growLoad_mul_nonneg c)).2 hmany
  have hfew : (s.mostCells c : Rat) < s.shrinkLoad * ((c * 2 : Nat) : Rat) := not_le.1 hunsteady
  rcases lt_or_ge (s.growLoad * (s.floor : Rat)) 1 with hsmall | hone
  · -- the first cell is too many, and without it there are too few
    have hshrink : 0 < s.shrinkLoad := by
      have hpos : 0 < s.shrinkLoad * ((c * 2 : Nat) : Rat) := (Nat.cast_nonneg _).trans_lt hfew
      exact pos_of_mul_pos_left hpos (Nat.cast_nonneg _)
    refine ⟨[], [], ks[s.mostCells c], Represents.empty hs.floor_isPowerOfTwo,
      fun p hp => absurd hp List.not_mem_nil, ?_, ?_⟩
    · rw [run, List.foldl_nil, capacity_empty]
      simpa [empty] using hsmall
    · have hfloorpos : (0 : Rat) < s.floor := Nat.cast_pos.2 hs.floor_pos
      rw [run, List.foldl_nil, capacity_empty]
      simp only [empty, Nat.cast_zero, Nat.cast_mul, Nat.cast_two]
      positivity
  · have hsplit : ks.take (s.mostCells c) ++ ks[s.mostCells c] :: ks.drop (s.mostCells c + 1) = ks := by
      rw [List.getElem_cons_drop, List.take_append_drop]
    rw [Distinct, ← hsplit] at hks
    obtain ⟨hfront, -, hnew⟩ := List.pairwise_append.1 hks
    have hk : (ks.take (s.mostCells c)).contains ks[s.mostCells c] = false := by
      refine contains_eq_false_iff.2 fun l hl => ?_
      rw [BEq.comm]
      exact hnew l hl _ List.mem_cons_self
    obtain ⟨hoccupied, hcap⟩ := filling_mostCells hs hone hc hfloor hfront
      (List.length_take_of_le hless.le) a
    refine ⟨filling (ks.take (s.mostCells c)) a, _, ks[s.mostCells c], (represents_run hs _).1,
      new_of_filling hk a, ?_, ?_⟩
    · rw [hoccupied, hcap]
      exact hs.growLoad_mul_lt_iff.2 le_rfl
    · rw [hoccupied, hcap]
      exact hfew

/-! ### Which tables oscillate -/

/-- **Which tables oscillate.**  Under accepted options that do not overflow, no change undoes what the
one before has done to the number of buckets, after whatever run, if the most cells that the smaller
number of the two may have are not too few for the larger one; and they are not if there is room for a
whole cell between the watermarks.  If they are too few, a multiset with that many classifiers comes to a
point from which the same element, added and removed again, makes the table grow and shrink every time. -/
theorem run_oscillates_unless_steady {o : SizingOptions} (ho : o.fault? = none)
    (hword : o.capacity.toNat ≤ 2 ^ 63) :
    ∃ m₀ : ClassifiedMultiset κ α, ofOptions? o = .ok m₀ ∧ o.leastCapacity? = some m₀.capacity ∧
      m₀.sizing.growLoad = o.growLoad.toRat ∧ m₀.sizing.shrinkLoad = o.shrinkLoad.toRat ∧
      (∀ (cs : List (Change κ α)) (first second : Change κ α),
        let m := run m₀ cs
        m₀.sizing.Steady (min m.capacity (first.apply m).capacity) →
          ¬ Oscillates m first second) ∧
      (∀ c : Nat, 1 ≤ (o.growLoad.toRat - 2 * o.shrinkLoad.toRat) * (c : Rat) →
        m₀.sizing.Steady c) ∧
      ∀ j, ¬ m₀.sizing.Steady (m₀.capacity * 2 ^ j) →
        ∀ (ks : List κ) (a : α), Distinct ks →
          o.growLoad.toRat * ((m₀.capacity * 2 ^ j : Nat) : Rat) < (ks.length : Rat) →
          ∃ (cs : List (Change κ α)) (k : κ), ∀ t,
            let m := run m₀ (cs ++ backAndForth k a t)
            let m₁ := (Change.add (fun _ => k) a).apply m
            m₁.capacity = m.capacity * 2 ∧
              ((Change.remove (fun _ => k) a).apply m₁).capacity = m.capacity := by
  obtain ⟨s, hm₀, hs, hleast, hgrow, hshrink⟩ := exists_ofOptions? (κ := κ) (α := α) ho hword
  have hsizing₀ : (empty s : ClassifiedMultiset κ α).sizing = s := rfl
  refine ⟨empty s, hm₀, ?_⟩
  rw [capacity_empty, hsizing₀, ← hgrow, ← hshrink]
  refine ⟨hleast, rfl, rfl, ?_, fun c => steady_of_room, ?_⟩
  · intro cs first second m hsteady
    obtain ⟨hrun, hsizing⟩ := represents_run hs cs
    rw [← hsizing] at hs hsteady
    exact hrun.wellFormed.not_oscillates hs hsteady second
  · intro j hunsteady ks a hks hmany
    have hc : (s.floor * 2 ^ j).isPowerOfTwo := by
      obtain ⟨i, hi⟩ := hs.floor_isPowerOfTwo
      exact ⟨i + j, by rw [hi, Nat.pow_add]⟩
    have hfloor : s.floor ≤ s.floor * 2 ^ j :=
      Nat.le_mul_of_pos_right _ (Nat.two_pow_pos j)
    obtain ⟨cs, ps, k, hrun, hk, hgrows, hshrinks⟩ :=
      exists_unsteady hs hc hfloor hunsteady hks hmany a
    obtain ⟨-, hsizing⟩ := represents_run hs cs
    refine ⟨cs, k, fun t => ?_⟩
    rw [run, List.foldl_append]
    exact hrun.backAndForth hk a (by rw [hsizing]; exact hgrows) (by rw [hsizing]; exact hshrinks) t

/-- Twelve words fill sixteen buckets, and the thirteenth makes them thirty-two, which stay when it goes.
With one bucket to begin with, there is a word that makes the table grow and shrink every time. -/
theorem run_oscillates_unless_steady_of_words :
    let o := SizingOptions.standard
    let o' : SizingOptions := { SizingOptions.standard with capacity := 1 }
    let m₀ : ClassifiedMultiset UInt64 UInt64 := standard
    let m₀' : ClassifiedMultiset UInt64 UInt64 := empty { Sizing.standard with floor := 1 }
    let added : List (Change UInt64 UInt64) := (List.range 12).map fun i => .add id i.toUInt64
    o.fault? = none ∧ o.capacity.toNat ≤ 2 ^ 63 ∧ ofOptions? o = .ok m₀ ∧
    1 ≤ (o.growLoad.toRat - 2 * o.shrinkLoad.toRat) * ((16 : Nat) : Rat) ∧
    (run m₀ added).capacity = 16 ∧ ((Change.add id 12).apply (run m₀ added)).capacity = 32 ∧
    ¬ Oscillates (run m₀ added) (.add id 12) (.remove id 12) ∧
    o'.fault? = none ∧ o'.capacity.toNat ≤ 2 ^ 63 ∧ ofOptions? o' = .ok m₀' ∧
    ¬ m₀'.sizing.Steady (m₀'.capacity * 2 ^ 0) ∧
    ∃ (cs : List (Change UInt64 UInt64)) (k : UInt64), ∀ t,
      let m := run m₀' (cs ++ backAndForth k 7 t)
      let m₁ := (Change.add (fun _ => k) 7).apply m
      m₁.capacity = m.capacity * 2 ∧
        ((Change.remove (fun _ => k) 7).apply m₁).capacity = m.capacity := by
  intro o o' m₀ m₀' added
  have ho : o.fault? = none := by decide +kernel
  have hword : o.capacity.toNat ≤ 2 ^ 63 := by decide +kernel
  have hm₀ : ofOptions? o = .ok m₀ := ofOptions?_eq_ok SizingOptions.sizing?_standard
  have hroom : 1 ≤ (o.growLoad.toRat - 2 * o.shrinkLoad.toRat) * ((16 : Nat) : Rat) := by
    decide +kernel
  have hfull : (run m₀ added).capacity = 16 := by decide +kernel
  have hgrown : ((Change.add id 12).apply (run m₀ added)).capacity = 32 := by decide +kernel
  obtain ⟨m, hm, -, -, -, hkeeps, hsteady, -⟩ :=
    run_oscillates_unless_steady (κ := UInt64) (α := UInt64) ho hword
  obtain rfl : m = m₀ := Except.ok.inj (hm.symm.trans hm₀)
  have hsmaller := hsteady 16 hroom
  have hstays := hkeeps added (.add id 12) (.remove id 12) (by rw [hfull, hgrown]; exact hsmaller)
  have ho' : o'.fault? = none := by decide +kernel
  have hword' : o'.capacity.toNat ≤ 2 ^ 63 := by decide +kernel
  have hm₀' : ofOptions? o' = .ok m₀' := ofOptions?_eq_ok
    (SizingOptions.sizing?_eq_ok ho' (by decide +kernel) (by decide +kernel) (by decide +kernel))
  have hunsteady : ¬ m₀'.sizing.Steady (m₀'.capacity * 2 ^ 0) := by
    rw [Steady]
    decide +kernel
  have hmany : o'.growLoad.toRat * ((m₀'.capacity * 2 ^ 0 : Nat) : Rat) <
      ((([3] : List UInt64).length : Nat) : Rat) := by
    decide +kernel
  obtain ⟨m', hm', -, -, -, -, -, hforever⟩ :=
    run_oscillates_unless_steady (κ := UInt64) (α := UInt64) ho' hword'
  obtain rfl : m' = m₀' := Except.ok.inj (hm'.symm.trans hm₀')
  exact ⟨ho, hword, hm₀, hroom, hfull, hgrown, hstays, ho', hword', hm₀', hunsteady,
    hforever 0 hunsteady [3] 7 (by decide) hmany⟩

/-- With one bucket to begin with, the first word makes two buckets of it, one is left when it has gone,
and when it comes again there are two again. -/
theorem first_cell_oscillates :
    let o : SizingOptions := { SizingOptions.standard with capacity := 1 }
    ∃ m : ClassifiedMultiset UInt64 UInt64, ofOptions? o = .ok m ∧
      m.capacity = 1 ∧ (run m [.add id 1]).capacity = 2 ∧
      (run m [.add id 1, .remove id 1]).capacity = 1 ∧
      (run m [.add id 1, .remove id 1, .add id 1]).capacity = 2 := by
  intro o
  have hm : ofOptions? o =
      .ok (empty { Sizing.standard with floor := 1 } : ClassifiedMultiset UInt64 UInt64) :=
    ofOptions?_eq_ok (SizingOptions.sizing?_eq_ok (by decide +kernel) (by decide +kernel)
      (by decide +kernel) (by decide +kernel))
  exact ⟨_, hm, by decide +kernel⟩

end ClassifiedMultiset

end GraphIndex
