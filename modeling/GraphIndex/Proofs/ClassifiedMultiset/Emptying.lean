/-
**Emptying a classified multiset.**  When the table of a multiset without elements is as small as it was
to begin with.

A removal halves the table at most once, and there may be fewer removals than the table has been doubled.
So the table comes back to its first size if it is never doubled more often than there are cells, and
stays above it if it once has been.  The shrinking watermark and the number of buckets to begin with
decide which of the two it is: a table of four times that number has to shrink as soon as one cell is
left.  If it need not, every multiset that has come to that size can be emptied in such a way that its
table stays too large.

Main definitions:

* `Sizing.Returns` — one halving for each cell is enough to come back;
* `ClassifiedMultiset.filling` — one element is added under each of several classifiers.

Main results:

* `Sizing.Returns.resizes` — under a watermark that is high enough, every change keeps to this;
* `Sizing.Resizes.four_floor_le` — under a lower one, a table of four times the first size does not
  shrink before its last cell has gone;
* `ClassifiedMultiset.Represents.exists_emptying` — and then it does not come back;
* `ClassifiedMultiset.emptied_capacity` — **when an emptied multiset is as small as it was to begin
  with**.
-/
import GraphIndex.Proofs.ClassifiedMultiset.Capacity

set_option autoImplicit false

namespace GraphIndex

/-! ### Cells and doublings -/

namespace Sizing

variable {s : Sizing} {n c n' c' : Nat}

/-- Halving the table once for each cell leads back to the number of buckets to begin with. -/
def Returns (s : Sizing) (n c : Nat) : Prop :=
  c ≤ s.floor * 2 ^ n

/-- The table is what it was to begin with, doubled a number of times. -/
theorem exists_eq_floor_mul (hs : s.floor.isPowerOfTwo) (hc : c.isPowerOfTwo) (hle : s.floor ≤ c) :
    ∃ j, c = s.floor * 2 ^ j := by
  obtain ⟨a, ha⟩ := hs
  obtain ⟨b, rfl⟩ := hc
  rw [ha] at hle ⊢
  have hab : a ≤ b := (Nat.pow_le_pow_iff_right (by decide)).1 hle
  exact ⟨b - a, by rw [← Nat.pow_add, Nat.add_sub_cancel' hab]⟩

/-- No change does more than halve the table. -/
theorem Resizes.half_le (h : s.Resizes n c n' c') : c / 2 ≤ c' := by
  cases h with
  | keep => exact Nat.div_le_self c 2
  | expand => exact (Nat.div_le_self c 2).trans (le_expanded _ _)
  | contract =>
      rw [contracted]
      split <;> omega

/-- Under a shrinking watermark that is high enough, a table that has been doubled once more than there
are cells is halved. -/
theorem contracted_floor_mul (hhigh : 1 < 4 * s.shrinkLoad * (s.floor : Rat)) (n : Nat) :
    s.contracted n (s.floor * 2 ^ (n + 1)) = s.floor * 2 ^ n := by
  have hhalf : s.floor * 2 ^ (n + 1) / 2 = s.floor * 2 ^ n := by
    rw [Nat.pow_succ, ← Nat.mul_assoc, Nat.mul_div_cancel _ Nat.two_pos]
  have hstays : s.floor ≤ s.floor * 2 ^ n := Nat.le_mul_of_pos_right _ (Nat.two_pow_pos n)
  have hfew : (n : Rat) < s.shrinkLoad * (s.floor * 2 ^ (n + 1) : Nat) := by
    have htwo : (2 * n : Rat) ≤ 2 ^ n := by exact_mod_cast two_mul_le_two_pow n
    have hpow : (0 : Rat) < 2 ^ n := by positivity
    calc (n : Rat) ≤ 2 ^ n / 2 := by linarith
      _ < 4 * s.shrinkLoad * s.floor * (2 ^ n / 2) := lt_mul_left (by positivity) hhigh
      _ = s.shrinkLoad * (s.floor * 2 ^ (n + 1) : Nat) := by
        push_cast
        ring
  rw [contracted, hhalf, if_pos ⟨hstays, hfew⟩]

/-- **Under such a watermark, the table is halved in time.** -/
theorem Returns.resizes (hs : s.Valid) (hhigh : 1 < 4 * s.shrinkLoad * (s.floor : Rat))
    (hc : c.isPowerOfTwo) (hfloor : s.floor ≤ c) (h : s.Returns n c) (hr : s.Resizes n c n' c') :
    s.Returns n' c' := by
  have hdouble := hr.le_double
  cases hr with
  | keep => exact h
  | expand =>
      rw [Returns, Nat.pow_succ, ← Nat.mul_assoc]
      rw [Returns] at h
      omega
  | contract hle hge =>
      obtain ⟨j, rfl⟩ := exists_eq_floor_mul hs.floor_isPowerOfTwo hc hfloor
      have hjn : j ≤ n :=
        (Nat.pow_le_pow_iff_right (by decide)).1 (Nat.le_of_mul_le_mul_left h hs.floor_pos)
      rcases Nat.lt_or_ge n' j with hlt | hge'
      · obtain rfl : j = n' + 1 := by omega
        rw [contracted_floor_mul hhigh]
        exact Nat.le_refl _
      · have hcells : s.floor * 2 ^ j ≤ s.floor * 2 ^ n' :=
          Nat.mul_le_mul_left _ (Nat.pow_le_pow_right Nat.two_pos hge')
        exact (contracted_le _ _).trans hcells

/-- Under a lower watermark, a table of four times the first size is not halved while there are cells. -/
theorem contracted_floor_mul_four (hlow : 4 * s.shrinkLoad * (s.floor : Rat) ≤ 1) (hn : 0 < n) :
    s.contracted n (s.floor * 2 ^ 2) = s.floor * 2 ^ 2 := by
  rw [contracted, if_neg]
  rintro ⟨-, hfew⟩
  have hone : (1 : Rat) ≤ n := by exact_mod_cast hn
  push_cast at hfew
  linarith

/-- **Under such a watermark, a larger table does not become smaller than that while there are cells.** -/
theorem Resizes.four_floor_le (hs : s.Valid) (hlow : 4 * s.shrinkLoad * (s.floor : Rat) ≤ 1)
    (hc : c.isPowerOfTwo) (hbig : 4 * s.floor ≤ c) (hr : s.Resizes n c n' c') (hn : 0 < n') :
    4 * s.floor ≤ c' := by
  have hhalf := hr.half_le
  cases hr with
  | keep => exact hbig
  | expand => exact hbig.trans (le_expanded _ _)
  | contract hle hge =>
      obtain ⟨j, rfl⟩ := exists_eq_floor_mul hs.floor_isPowerOfTwo hc (by omega)
      have htwo : 2 ^ 2 ≤ 2 ^ j := by
        refine Nat.le_of_mul_le_mul_left ?_ hs.floor_pos
        omega
      have hj : 2 ≤ j := (Nat.pow_le_pow_iff_right (by decide)).1 htwo
      rcases Nat.eq_or_lt_of_le hj with rfl | hlt
      · rw [contracted_floor_mul_four hlow hn]
        exact hbig
      · -- half of a larger table is large enough
        obtain ⟨i, rfl⟩ : ∃ i, j = i + 3 := ⟨j - 3, by omega⟩
        rw [Nat.pow_add, ← Nat.mul_assoc] at hhalf ⊢
        have hstays : s.floor ≤ s.floor * 2 ^ i := Nat.le_mul_of_pos_right _ (Nat.two_pow_pos i)
        omega

end Sizing

/-! ### Emptying -/

namespace ClassifiedMultiset

open Sizing

variable {κ α : Type} [BEq κ] [Digest κ] [BEq α] [Digest α] [EquivBEq κ] [LawfulDigest κ]

/-- After every run, halving once for each cell leads back. -/
theorem run_returns {s : Sizing} (hs : s.Valid)
    (hhigh : 1 < 4 * s.shrinkLoad * (s.floor : Rat)) (cs : List (Change κ α)) :
    s.Returns (run (empty s : ClassifiedMultiset κ α) cs).occupied
      (run (empty s : ClassifiedMultiset κ α) cs).capacity := by
  refine (WellFormed.empty hs.floor_isPowerOfTwo).run_keeps ?_ ?_ cs
  · rw [capacity_empty, Returns]
    exact Nat.le_mul_of_pos_right _ (Nat.two_pow_pos _)
  · intro n c n' c' hc hfloor h hr
    exact h.resizes hs hhigh hc hfloor hr

/-- A multiset has no cells if it has no elements. -/
theorem Represents.occupied_eq_zero_iff {m : ClassifiedMultiset κ α} {ps : List (κ × α)}
    (h : Represents m ps) : m.occupied = 0 ↔ m.size = 0 :=
  h.isEmpty_iff.symm.trans beq_iff_eq

variable [EquivBEq α] [LawfulDigest α]

/-- A multiset in a table of four times the first size can be emptied in such a way that the table stays
larger than it was to begin with. -/
theorem Represents.exists_emptying {m : ClassifiedMultiset κ α} {ps : List (κ × α)}
    (h : Represents m ps) (hs : m.sizing.Valid)
    (hlow : 4 * m.sizing.shrinkLoad * (m.sizing.floor : Rat) ≤ 1)
    (hbig : 4 * m.sizing.floor ≤ m.capacity) :
    ∃ cs : List (Change κ α),
      (ClassifiedMultiset.run m cs).size = 0 ∧
        m.sizing.floor < (ClassifiedMultiset.run m cs).capacity := by
  -- the pairs are removed one after the other
  induction ps generalizing m with
  | nil =>
      have hpos := h.wellFormed.floor_pos
      exact ⟨[], h.size_eq, by rw [ClassifiedMultiset.run, List.foldl_nil]; omega⟩
  | cons p ps ih =>
      have hrest : Represents ((Change.remove (fun _ => p.1) p.2).apply m) ps := by
        have hremoved := h.apply (.remove (fun _ => p.1) p.2)
        rwa [Change.pairs, without_cons_of_beq h.distinct BEq.rfl] at hremoved
      have hr := h.wellFormed.resizes (.remove (fun _ => p.1) p.2)
      obtain ⟨-, hsizing⟩ := h.wellFormed.apply (.remove (fun _ => p.1) p.2)
      cases ps with
      | nil =>
          have hhalf := hr.half_le
          have hpos := h.wellFormed.floor_pos
          refine ⟨[.remove (fun _ => p.1) p.2], hrest.size_eq, ?_⟩
          exact Nat.lt_of_lt_of_le (by omega) hhalf
      | cons q qs =>
          have hcells : 0 < ((Change.remove (fun _ => p.1) p.2).apply m).occupied := by
            rw [Nat.pos_iff_ne_zero, Ne, hrest.occupied_eq_zero_iff, hrest.size_eq]
            exact Nat.succ_ne_zero _
          have hstays := hr.four_floor_le hs hlow h.wellFormed.isPowerOfTwo hbig hcells
          obtain ⟨cs, hsize, hcap⟩ := ih hrest (by rwa [hsizing]) (by rwa [hsizing])
            (by rwa [hsizing])
          rw [hsizing] at hcap
          exact ⟨.remove (fun _ => p.1) p.2 :: cs, hsize, hcap⟩

/-! ### Filling -/

omit [EquivBEq α] [LawfulDigest α] in
/-- There is a cell for each classifier that has an element. -/
theorem Represents.length_le_occupied {m : ClassifiedMultiset κ α} {ps : List (κ × α)}
    (h : Represents m ps) {ks : List κ} (hks : Distinct ks)
    (hin : ∀ k ∈ ks, (ps.map Prod.fst).contains k = true) : ks.length ≤ m.occupied := by
  rw [h.occupied_eq]
  refine hks.length_le_of_contains fun k hk => ?_
  rw [(eraseDups_spec _).2]
  exact hin k hk

/-- The additions of one element under each of several classifiers. -/
def filling (ks : List κ) (a : α) : List (Change κ α) :=
  ks.map fun k => .add (fun _ => k) a

omit [Digest κ] [LawfulDigest κ] [Digest α] [LawfulDigest α] [EquivBEq α] in
theorem contains_classifiers_insert (ps : List (κ × α)) (k l : κ) (a : α) :
    ((ps.insert (k, a)).map Prod.fst).contains l = (l == k || (ps.map Prod.fst).contains l) := by
  cases hp : ps.contains (k, a) with
  | false => rw [insert_of_contains_eq_false hp, List.map_cons, List.contains_cons]
  | true =>
      rw [List.insert, hp, if_pos rfl]
      cases hlk : l == k with
      | false => rfl
      | true =>
          obtain ⟨p, hmem, hkp⟩ := List.contains_iff_exists_mem_beq.1 hp
          obtain ⟨hk, -⟩ := Bool.and_eq_true_iff.1 hkp
          exact List.contains_iff_exists_mem_beq.2
            ⟨p.1, List.mem_map_of_mem hmem, BEq.trans hlk hk⟩

omit [Digest κ] [LawfulDigest κ] [Digest α] [LawfulDigest α] [EquivBEq α] in
/-- Afterwards, these are the classifiers of pairs, together with those there were. -/
theorem contains_filling (ks : List κ) (a : α) (ps : List (κ × α)) (k : κ) :
    (((filling ks a).foldl (fun ps c => c.pairs ps) ps).map Prod.fst).contains k =
      (ks.contains k || (ps.map Prod.fst).contains k) := by
  induction ks generalizing ps with
  | nil => rfl
  | cons l ks ih =>
      refine (ih (ps.insert (l, a))).trans ?_
      rw [contains_classifiers_insert, List.contains_cons, Bool.or_left_comm, Bool.or_assoc]

/-- A multiset with many cells has many buckets. -/
theorem length_le_capacity_filling {s : Sizing} (hs : s.Valid) {ks : List κ} (hks : Distinct ks)
    (a : α) : ks.length ≤ (run (empty s) (filling ks a)).capacity := by
  have hcells : ks.length ≤ (run (empty s) (filling ks a)).occupied := by
    refine ((Represents.empty hs.floor_isPowerOfTwo).run _).length_le_occupied hks fun k hk => ?_
    rw [contains_filling, List.contains_iff_exists_mem_beq.2 ⟨k, hk, BEq.rfl⟩, Bool.true_or]
  have hle := (run_holdsCells hs (filling ks a)).le_max hs
  have hmax : max s.growLoad (1 / 2) ≤ 1 := max_le hs.growLoad_le (by norm_num)
  have hone := mul_le_mul_of_nonneg_right hmax
    (Nat.cast_nonneg (α := Rat) (run (empty s) (filling ks a)).capacity)
  refine hcells.trans ?_
  rw [one_mul] at hone
  exact_mod_cast hle.trans hone

omit [EquivBEq α] [LawfulDigest α] in
/-- After a run, the sizing is the one of the multiset to begin with. -/
theorem WellFormed.sizing_run {m : ClassifiedMultiset κ α} (h : m.WellFormed)
    (cs : List (Change κ α)) : (ClassifiedMultiset.run m cs).sizing = m.sizing :=
  (h.stores.run h cs).2.sizing_eq

/-- A run of the empty multiset keeps multiset and pairs together, and the sizing as it is. -/
theorem represents_run {s : Sizing} (hs : s.Valid) (cs : List (Change κ α)) :
    Represents (run (empty s) cs) (cs.foldl (fun ps c => c.pairs ps) []) ∧
      (run (empty s) cs).sizing = s :=
  ⟨(Represents.empty hs.floor_isPowerOfTwo).run cs,
    (WellFormed.empty hs.floor_isPowerOfTwo).sizing_run cs⟩

/-! ### When the first size comes back -/

/-- **An emptied multiset is as small as it was to begin with, if its shrinking watermark is high
enough.**  If a table of four times the number of buckets to begin with is allowed to shrink as soon as
one cell is left, then the number of buckets is the one to begin with whenever no element is left, for
all accepted options that do not overflow and after every run.  If it is not, a multiset that has had an
element under so many classifiers can be emptied in such a way that it has more buckets than to begin
with. -/
theorem emptied_capacity {o : SizingOptions} (ho : o.fault? = none)
    (hword : o.capacity.toNat ≤ 2 ^ 63) :
    ∃ m₀ : ClassifiedMultiset κ α, ofOptions? o = .ok m₀ ∧ o.leastCapacity? = some m₀.capacity ∧
      (1 < 4 * o.shrinkLoad.toRat * (m₀.capacity : Rat) →
        ∀ cs : List (Change κ α), (run m₀ cs).size = 0 → (run m₀ cs).capacity = m₀.capacity) ∧
      (4 * o.shrinkLoad.toRat * (m₀.capacity : Rat) ≤ 1 →
        ∀ (ks : List κ) (a : α), Distinct ks → 4 * m₀.capacity ≤ ks.length →
          ∃ cs : List (Change κ α), (run m₀ (filling ks a ++ cs)).size = 0 ∧
            m₀.capacity < (run m₀ (filling ks a ++ cs)).capacity) := by
  obtain ⟨s, hm₀, hs, hfloor, -, hshrink⟩ := exists_ofOptions? (κ := κ) (α := α) ho hword
  have hempty := WellFormed.empty (κ := κ) (α := α) hs.floor_isPowerOfTwo
  refine ⟨empty s, hm₀, ?_⟩
  rw [capacity_empty, ← hshrink]
  refine ⟨hfloor, ?_, ?_⟩
  · intro hhigh cs hsize
    have hrun := (Represents.empty (κ := κ) (α := α) hs.floor_isPowerOfTwo).run cs
    have hle := run_returns hs hhigh cs
    have hge := hrun.wellFormed.floor_le
    rw [hrun.occupied_eq_zero_iff.2 hsize, Returns, Nat.pow_zero, Nat.mul_one] at hle
    rw [hempty.sizing_run] at hge
    exact Nat.le_antisymm hle hge
  · intro hlow ks a hks hlen
    have hfilled := (Represents.empty (κ := κ) (α := α) hs.floor_isPowerOfTwo).run (filling ks a)
    have hcap := length_le_capacity_filling (α := α) hs hks a
    have hsizing : (run (empty s) (filling ks a)).sizing = s := hempty.sizing_run _
    obtain ⟨cs, hsize, hlt⟩ := hfilled.exists_emptying (by rwa [hsizing]) (by rwa [hsizing])
      (by rw [hsizing]; exact hlen.trans hcap)
    rw [hsizing] at hlt
    refine ⟨cs, ?_⟩
    rw [run, List.foldl_append]
    exact ⟨hsize, hlt⟩

/-- Twenty words need thirty-two buckets, and sixteen are left when they have been removed again.  With
one bucket to begin with, four words are enough for a run that leaves more. -/
theorem emptied_capacity_of_words :
    let o := SizingOptions.standard
    let o' : SizingOptions := { SizingOptions.standard with capacity := 1 }
    let m₀ : ClassifiedMultiset UInt64 UInt64 := standard
    let added : List (Change UInt64 UInt64) := (List.range 20).map fun i => .add id i.toUInt64
    let removed : List (Change UInt64 UInt64) := (List.range 20).map fun i => .remove id i.toUInt64
    o.fault? = none ∧ o.capacity.toNat ≤ 2 ^ 63 ∧ ofOptions? o = .ok m₀ ∧
    1 < 4 * o.shrinkLoad.toRat * (m₀.capacity : Rat) ∧
    (run m₀ added).capacity = 32 ∧ (run m₀ (added ++ removed)).capacity = 16 ∧
    o'.fault? = none ∧ o'.capacity.toNat ≤ 2 ^ 63 ∧
    ∃ m₀' : ClassifiedMultiset UInt64 UInt64, ofOptions? o' = .ok m₀' ∧ m₀'.capacity = 1 ∧
      4 * o'.shrinkLoad.toRat * (m₀'.capacity : Rat) ≤ 1 ∧
      ∃ cs : List (Change UInt64 UInt64), (run m₀' (filling [1, 2, 3, 4] 0 ++ cs)).size = 0 ∧
        1 < (run m₀' (filling [1, 2, 3, 4] 0 ++ cs)).capacity := by
  intro o o' m₀ added removed
  have ho : o.fault? = none := by decide +kernel
  have hword : o.capacity.toNat ≤ 2 ^ 63 := by decide +kernel
  have hm₀ : ofOptions? o = .ok m₀ := ofOptions?_eq_ok SizingOptions.sizing?_standard
  have hhigh : 1 < 4 * o.shrinkLoad.toRat * (m₀.capacity : Rat) := by decide +kernel
  have hgrown : (run m₀ added).capacity = 32 := by decide +kernel
  have hsize : (run m₀ (added ++ removed)).size = 0 := by decide +kernel
  obtain ⟨m, hm, -, hback, -⟩ := emptied_capacity (κ := UInt64) (α := UInt64) ho hword
  obtain rfl : m = m₀ := Except.ok.inj (hm.symm.trans hm₀)
  have ho' : o'.fault? = none := by decide +kernel
  have hword' : o'.capacity.toNat ≤ 2 ^ 63 := by decide +kernel
  obtain ⟨m₀', hm₀', hfloor, -, hlarger⟩ := emptied_capacity (κ := UInt64) (α := UInt64) ho' hword'
  have hone : m₀'.capacity = 1 := by
    have hleast : o'.leastCapacity? = some 1 := by decide +kernel
    exact Option.some_inj.1 (hfloor.symm.trans hleast)
  rw [hone] at hlarger
  have hlow : 4 * o'.shrinkLoad.toRat * ((1 : Nat) : Rat) ≤ 1 := by decide +kernel
  exact ⟨ho, hword, hm₀, hhigh, hgrown, hback hhigh _ hsize, ho', hword', m₀', hm₀', hone,
    by rwa [hone], hlarger hlow [1, 2, 3, 4] 0 (by decide) (by decide)⟩

/-- With one bucket to begin with, two words need two buckets and then four, and when they have been
removed again, there are two buckets still. -/
theorem emptied_above_floor :
    let o : SizingOptions := { SizingOptions.standard with capacity := 1 }
    o.fault? = none ∧ 0 < o.shrinkLoad.toRat ∧ o.leastCapacity? = some 1 ∧
    ∃ m₀ : ClassifiedMultiset UInt64 UInt64, ofOptions? o = .ok m₀ ∧
      let m := run m₀ [.add id 1, .add id 2, .remove id 1, .remove id 2]
      m.size = 0 ∧ m.capacity = 2 := by
  intro o
  have ho : o.fault? = none := by decide +kernel
  have hfloor : o.leastCapacity? = some 1 := by decide +kernel
  have hm₀ : ofOptions? o =
      .ok (empty { Sizing.standard with floor := 1 } : ClassifiedMultiset UInt64 UInt64) :=
    ofOptions?_eq_ok (SizingOptions.sizing?_eq_ok ho hfloor (by decide +kernel) (by decide +kernel))
  exact ⟨ho, by decide +kernel, hfloor, _, hm₀, by decide +kernel⟩

end ClassifiedMultiset

end GraphIndex
