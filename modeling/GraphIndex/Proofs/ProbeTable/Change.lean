/-
**Changes of a probe table.**  What each operation does to the values, and why it keeps the
invariant.

Placing a value and vacating a slot keep a table consistent, and so a table that is built by placing
values is consistent; nothing is vacated in it.  Both changes of a table are made of these two steps
and of rebuilding, and the watermarks make the capacity that is chosen for a rebuilt table large
enough.

Main definitions:

* `ProbeTable.BuiltFrom` — a consistent table with given values and nothing vacated.

Main results:

* `ProbeTable.Consistent.place`, `ProbeTable.Consistent.vacate` — the two steps of a change;
* `ProbeTable.Consistent.rebuild` — **rebuilding keeps the values**;
* `ProbeTable.WellFormed.ofDistinct`, `ProbeTable.WellFormed.insertNew`,
  `ProbeTable.WellFormed.erase` — **tables are well formed**;
* `ProbeTable.WellFormed.insertNew_perm`, `ProbeTable.WellFormed.erase_perm` — what the two changes
  do to the values.
-/
import GraphIndex.Proofs.ProbeTable.Invariant

set_option autoImplicit false

namespace GraphIndex

namespace ProbeTable

variable {α : Type} [Digest α]

/-! ### Placing a value -/

/-- A table with room has a hole on every walk. -/
theorem Counted.exists_firstHole? {t : ProbeTable α} (h : t.Counted)
    (hroom : t.size < t.capacity) (a : α) : ∃ i, t.firstHole? a = some i := by
  have hhole : ∃ s ∈ t.slots.toList, s.isHole = true := by
    refine Classical.byContradiction fun hno => ?_
    have hall : t.slots.toList.countP (fun s => !s.isHole) = t.slots.toList.length := by
      refine List.countP_eq_length.2 fun s hs => ?_
      rw [Bool.not_eq_true']
      exact Bool.eq_false_iff.2 fun hsh => hno ⟨s, hs, hsh⟩
    rw [h.size_eq, Array.length_toList] at hall
    rw [capacity] at hroom
    omega
  obtain ⟨s, hs, hsh⟩ := hhole
  obtain ⟨p, hp⟩ := List.mem_iff_getElem?.1 hs
  rw [Array.getElem?_toList] at hp
  obtain ⟨hplt, -⟩ := Array.getElem?_eq_some_iff.1 hp
  have hhome : t.home a < t.slots.size := home_lt (by rw [capacity]; omega) a
  obtain ⟨d, hd, hdp⟩ := exists_steps hhome hplt
  exact Option.isSome_iff_exists.1 (holeFrom_isSome hhome hd (by rw [hdp]; exact hp) hsh)

/-- **What placing does.**  In a table with room, the value goes to the first hole on its walk, which
comes before the walk is around, and nothing else changes but the counters. -/
theorem Counted.place_eq {t : ProbeTable α} (h : t.Counted) (hroom : t.size < t.capacity) (a : α) :
    ∃ i s, t.slots[i]? = some s ∧ s.isHole = true ∧
      (∃ d < t.capacity, (t.home a + d) % t.capacity = i ∧
        ∀ j < d, ∃ b, t.slots[(t.home a + j) % t.capacity]? = some (.occupied b)) ∧
      t.place a = ⟨t.slots.setIfInBounds i (.occupied a), t.size + 1,
        if s.isVacated then t.vacated - 1 else t.vacated⟩ := by
  obtain ⟨i, hi⟩ := h.exists_firstHole? hroom a
  have hhome : t.home a < t.slots.size := home_lt (by omega) a
  obtain ⟨d, hd, hdi, ⟨s, hs, hsh⟩, hlive⟩ := holeFrom_eq_some hhome hi
  exact ⟨i, s, hs, hsh, ⟨d, hd, hdi, hlive⟩, by simp [place, hi, hs]⟩

theorem Counted.capacity_place {t : ProbeTable α} (h : t.Counted)
    (hroom : t.size < t.capacity) (a : α) : (t.place a).capacity = t.capacity := by
  obtain ⟨i, s, -, -, -, heq⟩ := h.place_eq hroom a
  rw [heq, capacity, capacity, Array.size_setIfInBounds]

theorem Counted.size_place {t : ProbeTable α} (h : t.Counted)
    (hroom : t.size < t.capacity) (a : α) : (t.place a).size = t.size + 1 := by
  obtain ⟨i, s, -, -, -, heq⟩ := h.place_eq hroom a
  rw [heq]

/-- Placing a value uses up a vacated slot or leaves their number as it is. -/
theorem Counted.vacated_place_le {t : ProbeTable α} (h : t.Counted)
    (hroom : t.size < t.capacity) (a : α) : (t.place a).vacated ≤ t.vacated := by
  obtain ⟨i, s, -, -, -, heq⟩ := h.place_eq hroom a
  rw [heq]
  dsimp only
  split
  · exact Nat.sub_le _ _
  · exact Nat.le_refl _

theorem Counted.place_perm {t : ProbeTable α} (h : t.Counted)
    (hroom : t.size < t.capacity) (a : α) : (t.place a).toList.Perm (a :: t.toList) := by
  obtain ⟨i, s, hs, hsh, -, heq⟩ := h.place_eq hroom a
  have hp := (cons_set_perm hs (.occupied a)).filterMap Slot.value?
  rw [List.filterMap_cons_none (value?_of_isHole hsh)] at hp
  rw [heq]
  exact hp

/-- **Placing keeps the counters right.** -/
theorem Counted.place {t : ProbeTable α} (h : t.Counted) (hroom : t.size < t.capacity) (a : α) :
    (t.place a).Counted := by
  obtain ⟨i, s, hs, hsh, -, heq⟩ := h.place_eq hroom a
  have hset := cons_set_perm hs (.occupied a)
  constructor
  · have hcount := hset.countP_eq fun s => !s.isHole
    rw [List.countP_cons_of_neg (by simp [hsh]), List.countP_cons_of_pos (by simp [Slot.isHole]),
      h.size_eq] at hcount
    rw [heq]
    exact hcount
  · have hcount := hset.countP_eq Slot.isVacated
    rw [List.countP_cons, List.countP_cons_of_neg (by simp [Slot.isVacated]), h.vacated_eq]
      at hcount
    rw [heq]
    dsimp only
    split
    · next hv => rw [if_pos hv] at hcount; exact Nat.eq_sub_of_add_eq hcount
    · next hv => rw [if_neg hv] at hcount; exact hcount

omit [Digest α] in
theorem Balanced.size_lt {t : ProbeTable α} (h : t.Balanced) : t.size < t.capacity := by
  have hleast := h.least_le
  have hload := h.load_le
  rw [leastCapacity] at hleast
  omega

/-- A balanced table stays so if there is room for the value that is placed. -/
theorem Balanced.place {t : ProbeTable α} (h : t.Balanced) {a : α}
    (hfit : 4 * (t.size + t.vacated + 1) ≤ 3 * t.capacity) : (t.place a).Balanced := by
  have hvac := h.vacated_place_le h.size_lt a
  refine ⟨h.toCounted.place h.size_lt a, ?_, ?_, ?_⟩
  · rw [h.capacity_place h.size_lt]
    exact h.isPowerOfTwo
  · rw [h.capacity_place h.size_lt]
    exact h.least_le
  · rw [h.capacity_place h.size_lt, h.size_place h.size_lt]
    omega

section Consistent

variable [BEq α]

/-- **Placing keeps a table consistent.** -/
theorem Consistent.place [EquivBEq α] {t : ProbeTable α} (h : t.Consistent)
    (hroom : t.size < t.capacity) {a : α} (ha : t.toList.contains a = false) :
    (t.place a).Consistent := by
  have hperm := h.place_perm hroom a
  have hcap := h.capacity_place hroom a
  obtain ⟨i, s, -, -, ⟨d, hd, hdi, hlive⟩, heq⟩ := h.place_eq hroom a
  refine ⟨h.toCounted.place hroom a, ?_, ?_⟩
  · exact (distinct_cons.2 ⟨ha, h.distinct⟩).perm hperm.symm
  · intro j b hb
    rw [home_eq_of_capacity_eq hcap]
    rw [heq] at hb ⊢
    rw [Array.getElem?_setIfInBounds] at hb
    split at hb
    · next hij =>
        split at hb
        · obtain rfl : a = b := by simpa using hb
          rw [← hij]
          exact linked_set hd hdi hlive
        · simp at hb
    · exact (h.linked j b hb).set _ (by simp)

end Consistent

/-! ### Vacating a slot -/

omit [Digest α] in
theorem capacity_vacate (t : ProbeTable α) (i : Nat) : (t.vacate i).capacity = t.capacity := by
  simp only [vacate, capacity, Array.size_setIfInBounds]

omit [Digest α] in
theorem vacate_perm {t : ProbeTable α} {i : Nat} {b : α}
    (hi : t.slots[i]? = some (.occupied b)) : (b :: (t.vacate i).toList).Perm t.toList :=
  (cons_set_perm hi .vacated).filterMap Slot.value?

omit [Digest α] in
/-- There is a live value in a table in which a value is found. -/
theorem Counted.size_pos {t : ProbeTable α} (h : t.Counted) {i : Nat} {b : α}
    (hi : t.slots[i]? = some (.occupied b)) : 0 < t.size := by
  have hlen := (vacate_perm hi).length_eq
  rw [List.length_cons, h.length_eq] at hlen
  omega

omit [Digest α] in
/-- **Vacating a live slot keeps the counters right.** -/
theorem Counted.vacate {t : ProbeTable α} (h : t.Counted) {i : Nat} {b : α}
    (hi : t.slots[i]? = some (.occupied b)) : (t.vacate i).Counted := by
  have hset := cons_set_perm hi .vacated
  constructor
  · have hcount := hset.countP_eq fun s => !s.isHole
    rw [List.countP_cons_of_pos (by simp [Slot.isHole]),
      List.countP_cons_of_neg (by simp [Slot.isHole]), h.size_eq] at hcount
    exact Nat.eq_sub_of_add_eq hcount
  · have hcount := hset.countP_eq Slot.isVacated
    rw [List.countP_cons_of_neg (by simp [Slot.isVacated]),
      List.countP_cons_of_pos (by simp [Slot.isVacated]), h.vacated_eq] at hcount
    exact hcount

omit [Digest α] in
/-- A balanced table stays so when a slot is vacated. -/
theorem Balanced.vacate {t : ProbeTable α} (h : t.Balanced) {i : Nat} {b : α}
    (hi : t.slots[i]? = some (.occupied b)) : (t.vacate i).Balanced := by
  have hpos := h.size_pos hi
  have hload := h.load_le
  refine ⟨h.toCounted.vacate hi, ?_, ?_, ?_⟩
  · rw [capacity_vacate]
    exact h.isPowerOfTwo
  · rw [capacity_vacate]
    exact h.least_le
  · rw [capacity_vacate]
    simp only [ProbeTable.vacate]
    omega

/-- **Vacating a live slot keeps a table consistent.** -/
theorem Consistent.vacate [BEq α] [EquivBEq α] {t : ProbeTable α} (h : t.Consistent) {i : Nat}
    {b : α} (hi : t.slots[i]? = some (.occupied b)) : (t.vacate i).Consistent := by
  refine ⟨h.toCounted.vacate hi, ?_, ?_⟩
  · exact (distinct_cons.1 (h.distinct.perm (vacate_perm hi).symm)).2
  · intro j c hc
    rw [home_eq_of_capacity_eq (capacity_vacate t i)]
    rw [ProbeTable.vacate] at hc ⊢
    rw [Array.getElem?_setIfInBounds] at hc
    split at hc
    · split at hc <;> simp at hc
    · exact (h.linked j c hc).set i (by simp)

/-! ### Filling a table -/

/-- The counters are right, the table has the given capacity and so many live values, and no slot of
it is vacated. -/
structure Filled (n c : Nat) (t : ProbeTable α) : Prop where
  counted : t.Counted
  capacity_eq : t.capacity = c
  size_eq : t.size = n
  vacated_eq : t.vacated = 0

omit [Digest α] in
theorem Filled.ofCapacity (c : Nat) : Filled 0 c (ofCapacity c : ProbeTable α) := by
  refine ⟨⟨?_, ?_⟩, ?_, rfl, rfl⟩
  · simp [ProbeTable.ofCapacity, List.countP_replicate, Slot.isHole]
  · simp [ProbeTable.ofCapacity, List.countP_replicate, Slot.isVacated]
  · simp [ProbeTable.ofCapacity, capacity]

/-- One more value is placed in a table that is being filled. -/
theorem Filled.place {n c : Nat} {t : ProbeTable α} (h : Filled n c t) (hroom : n < c) (a : α) :
    Filled (n + 1) c (t.place a) := by
  have hsize : t.size < t.capacity := by rwa [h.size_eq, h.capacity_eq]
  have hvac := h.counted.vacated_place_le hsize a
  rw [h.vacated_eq] at hvac
  refine ⟨h.counted.place hsize a, ?_, ?_, Nat.le_zero.1 hvac⟩
  · rw [h.counted.capacity_place hsize, h.capacity_eq]
  · rw [h.counted.size_place hsize, h.size_eq]

theorem Filled.foldl_place {n c : Nat} {t : ProbeTable α} (h : Filled n c t) {as : List α}
    (hroom : n + as.length ≤ c) : Filled (n + as.length) c (as.foldl ProbeTable.place t) := by
  induction as generalizing n t with
  | nil => exact h
  | cons a as ih =>
      rw [List.length_cons] at hroom ⊢
      have hrest := ih (h.place (by omega) a) (by omega)
      rwa [Nat.add_right_comm, Nat.add_assoc] at hrest

theorem Filled.rebuild {t : ProbeTable α} (h : t.Counted) {c : Nat} (hroom : t.size ≤ c) :
    Filled t.size c (t.rebuild c) := by
  have hfilled : Filled (0 + t.toList.length) c (t.rebuild c) :=
    (Filled.ofCapacity c).foldl_place (by rw [h.length_eq]; omega)
  rwa [h.length_eq, Nat.zero_add] at hfilled

omit [Digest α] in
/-- A table that is filled with enough room is balanced. -/
theorem Filled.balanced {n c : Nat} {t : ProbeTable α} (h : Filled n c t)
    (hpow : c.isPowerOfTwo) (hleast : leastCapacity ≤ c) (hload : 4 * n ≤ 3 * c) : t.Balanced where
  toCounted := h.counted
  isPowerOfTwo := by rwa [h.capacity_eq]
  least_le := by rwa [h.capacity_eq]
  load_le := by rwa [h.capacity_eq, h.vacated_eq, h.size_eq]

/-! ### Building a table -/

section Build

variable [BEq α]

/-- The table is consistent, has the given capacity and, up to order, the given values, and no slot
of it is vacated. -/
structure BuiltFrom (as : List α) (c : Nat) (t : ProbeTable α) : Prop where
  /-- The table is consistent. -/
  consistent : t.Consistent
  /-- The values are the given ones. -/
  perm : t.toList.Perm as
  /-- The capacity is the given one. -/
  capacity_eq : t.capacity = c
  /-- No slot is vacated. -/
  vacated_eq : t.vacated = 0

theorem BuiltFrom.size_eq {as : List α} {c : Nat} {t : ProbeTable α} (h : BuiltFrom as c t) :
    t.size = as.length := by
  rw [← h.consistent.length_eq, h.perm.length_eq]

theorem BuiltFrom.filled {as : List α} {c : Nat} {t : ProbeTable α} (h : BuiltFrom as c t) :
    Filled as.length c t :=
  ⟨h.consistent.toCounted, h.capacity_eq, h.size_eq, h.vacated_eq⟩

theorem BuiltFrom.ofCapacity (c : Nat) : BuiltFrom [] c (ofCapacity c : ProbeTable α) := by
  have hnil : (ProbeTable.ofCapacity c : ProbeTable α).toList = [] := by
    simp [toList, ProbeTable.ofCapacity, Slot.value?]
  have hfilled : Filled 0 c (ProbeTable.ofCapacity c : ProbeTable α) := .ofCapacity c
  refine ⟨⟨hfilled.counted, ?_, ?_⟩, ?_, hfilled.capacity_eq, hfilled.vacated_eq⟩
  · rw [hnil]
    exact Distinct.nil
  · intro i a ha
    simp [ProbeTable.ofCapacity, Array.getElem?_replicate] at ha
  · rw [hnil]

/-- One more value is placed in a table that is being built. -/
theorem BuiltFrom.place [EquivBEq α] {as : List α} {c : Nat} {t : ProbeTable α}
    (h : BuiltFrom as c t) (hroom : as.length < c) {a : α} (ha : as.contains a = false) :
    BuiltFrom (a :: as) c (t.place a) := by
  have hsize : t.size < t.capacity := by rwa [h.size_eq, h.capacity_eq]
  have hfilled := h.filled.place hroom a
  refine ⟨h.consistent.place hsize ?_, ?_, hfilled.capacity_eq, hfilled.vacated_eq⟩
  · rwa [h.perm.contains_eq]
  · exact (h.consistent.place_perm hsize a).trans (h.perm.cons a)

/-- **Placing distinct values one after the other builds a table of them.** -/
theorem BuiltFrom.foldl_place [EquivBEq α] {as bs : List α} {c : Nat} {t : ProbeTable α}
    (h : BuiltFrom as c t) (hroom : as.length + bs.length ≤ c) (hd : Distinct (bs ++ as)) :
    BuiltFrom (bs ++ as) c (bs.foldl ProbeTable.place t) := by
  induction bs generalizing as t with
  | nil => exact h
  | cons b bs ih =>
      rw [List.length_cons] at hroom
      have hmid : (bs ++ b :: as).Perm (b :: bs ++ as) := List.perm_middle
      have hb : (bs ++ as).contains b = false := (distinct_cons.1 hd).1
      rw [List.contains_append, Bool.or_eq_false_iff] at hb
      have hrest := ih (h.place (by omega) hb.2) (by rw [List.length_cons]; omega)
        (hd.perm hmid.symm)
      exact ⟨hrest.consistent, hrest.perm.trans hmid, hrest.capacity_eq, hrest.vacated_eq⟩

/-- **Rebuilding keeps the values**, and drops the vacated slots. -/
theorem Consistent.rebuild [EquivBEq α] {t : ProbeTable α} (h : t.Consistent) {c : Nat}
    (hroom : t.size ≤ c) : BuiltFrom t.toList c (t.rebuild c) := by
  have hbuilt : BuiltFrom (t.toList ++ []) c (t.rebuild c) :=
    (BuiltFrom.ofCapacity c).foldl_place (by rw [h.length_eq]; simpa using hroom)
      (by simpa using h.distinct)
  rwa [List.append_nil] at hbuilt

end Build

/-! ### Capacities -/

theorem isOverfull_eq_false_iff {used c : Nat} : isOverfull used c = false ↔ 4 * used ≤ 3 * c := by
  rw [isOverfull, decide_eq_false_iff_not]
  omega

/-- Doubling keeps a power of two and ends with enough room. -/
theorem doubleUntilHolding_spec (n c : Nat) (hc : 0 < c) (hpow : c.isPowerOfTwo) :
    (doubleUntilHolding n c hc).isPowerOfTwo ∧ c ≤ doubleUntilHolding n c hc ∧
      4 * n ≤ 3 * doubleUntilHolding n c hc := by
  induction c, hc using doubleUntilHolding.induct n with
  | case1 c hc hfull ih =>
      rw [doubleUntilHolding, dif_pos hfull]
      obtain ⟨hp, hle, hn⟩ := ih (by
        rw [Nat.mul_comm]
        exact Nat.isPowerOfTwo_mul_two_of_isPowerOfTwo hpow)
      exact ⟨hp, by omega, hn⟩
  | case2 c hc hfull =>
      rw [doubleUntilHolding, dif_neg hfull]
      rw [Bool.not_eq_true, isOverfull_eq_false_iff] at hfull
      exact ⟨hpow, Nat.le_refl c, hfull⟩

/-- The capacity of a new table is large enough. -/
theorem capacityHolding_spec (n : Nat) :
    (capacityHolding n).isPowerOfTwo ∧ leastCapacity ≤ capacityHolding n ∧
      4 * n ≤ 3 * capacityHolding n :=
  doubleUntilHolding_spec n leastCapacity (by decide) ⟨6, rfl⟩

omit [Digest α] in
/-- **The capacity to which a table is expanded is large enough**, also for the value to come: it
need not be doubled more than once. -/
theorem Balanced.expansion?_spec {t : ProbeTable α} (h : t.Balanced) {c : Nat}
    (hc : t.expansion? = some c) :
    (c = t.capacity ∨ c = t.capacity * 2) ∧ 4 * (t.size + 1) ≤ 3 * c := by
  have hleast := h.least_le
  have hload := h.load_le
  rw [leastCapacity] at hleast
  rw [expansion?] at hc
  split at hc
  · rw [Option.some_inj] at hc
    split at hc
    · exact ⟨.inr hc.symm, by omega⟩
    · next hfit =>
        rw [Bool.not_eq_true, isOverfull_eq_false_iff] at hfit
        exact ⟨.inl hc.symm, by omega⟩
  · simp at hc

omit [Digest α] in
/-- Without an expansion there is room for one more value. -/
theorem load_le_of_expansion?_eq_none {t : ProbeTable α} (h : t.expansion? = none) :
    4 * (t.size + t.vacated + 1) ≤ 3 * t.capacity := by
  rw [expansion?] at h
  split at h
  · simp at h
  · next hfit => rwa [Bool.not_eq_true, isOverfull_eq_false_iff] at hfit

omit [Digest α] in
/-- The capacity to which a table is contracted is half of it, and still large enough. -/
theorem contraction?_spec {t : ProbeTable α} {c : Nat} (hc : t.contraction? = some c) :
    c = t.capacity / 2 ∧ leastCapacity ≤ c ∧ 4 * t.size < t.capacity := by
  rw [contraction?] at hc
  split at hc
  · next hlow =>
      obtain rfl := Option.some_inj.1 hc
      exact ⟨rfl, hlow.1, by omega⟩
  · simp at hc

/-- Half of a power of two is one, unless nothing is left of it. -/
theorem isPowerOfTwo_half {n : Nat} (h : n.isPowerOfTwo) (hpos : 0 < n / 2) :
    (n / 2).isPowerOfTwo := by
  obtain ⟨k, rfl⟩ := h
  cases k with
  | zero => simp at hpos
  | succ k => exact ⟨k, by rw [Nat.pow_succ, Nat.mul_div_cancel _ (by decide)]⟩

/-! ### The numbers after a change -/

section Numbers

/-- A new table has the capacity for its values, whatever they are. -/
theorem Filled.ofDistinct (as : List α) :
    Filled as.length (capacityHolding as.length) (ofDistinct as) := by
  obtain ⟨-, -, hn⟩ := capacityHolding_spec as.length
  have hfilled : Filled (0 + as.length) (capacityHolding as.length) (ProbeTable.ofDistinct as) :=
    (Filled.ofCapacity _).foldl_place (by omega)
  rwa [Nat.zero_add] at hfilled

/-- A new table is balanced, whatever values it is built from. -/
theorem Balanced.ofDistinct (as : List α) : (ofDistinct as).Balanced := by
  obtain ⟨hpow, hleast, hn⟩ := capacityHolding_spec as.length
  exact (Filled.ofDistinct as).balanced hpow hleast hn

/-- An expanded table has the capacity that was chosen, and is balanced. -/
theorem Balanced.rebuild_expansion {t : ProbeTable α} (h : t.Balanced) {c : Nat}
    (hc : t.expansion? = some c) : Filled t.size c (t.rebuild c) ∧ (t.rebuild c).Balanced := by
  obtain ⟨hcap, hfit⟩ := h.expansion?_spec hc
  have hleast := h.least_le
  have hfilled := Filled.rebuild h.toCounted (c := c) (by omega)
  refine ⟨hfilled, hfilled.balanced ?_ ?_ ?_⟩
  · rcases hcap with rfl | rfl
    · exact h.isPowerOfTwo
    · exact Nat.isPowerOfTwo_mul_two_of_isPowerOfTwo h.isPowerOfTwo
  · omega
  · omega

theorem Balanced.insertNew {t : ProbeTable α} (h : t.Balanced) (a : α) :
    (t.insertNew a).Balanced := by
  rw [ProbeTable.insertNew]
  split
  · next hnone => exact h.place (load_le_of_expansion?_eq_none hnone)
  · next c hc =>
      obtain ⟨hfilled, hb⟩ := h.rebuild_expansion hc
      obtain ⟨-, hfit⟩ := h.expansion?_spec hc
      refine hb.place ?_
      rwa [hfilled.size_eq, hfilled.vacated_eq, hfilled.capacity_eq]

/-- A contracted table has the capacity that was chosen, and is balanced. -/
theorem Balanced.rebuild_contraction {t : ProbeTable α} (h : t.Balanced) {c : Nat}
    (hc : t.contraction? = some c) : Filled t.size c (t.rebuild c) ∧ (t.rebuild c).Balanced := by
  obtain ⟨hhalf, hleast, hlow⟩ := contraction?_spec hc
  have hfilled := Filled.rebuild h.toCounted (c := c) (by omega)
  refine ⟨hfilled, hfilled.balanced ?_ hleast (by omega)⟩
  rw [hhalf]
  exact isPowerOfTwo_half h.isPowerOfTwo (by rw [leastCapacity] at hleast; omega)

theorem Balanced.contract {t : ProbeTable α} (h : t.Balanced) : t.contract.Balanced := by
  rw [ProbeTable.contract]
  split
  · exact h
  · next c hc => exact (h.rebuild_contraction hc).2

theorem Balanced.erase [BEq α] {t : ProbeTable α} (h : t.Balanced) (a : α) :
    (t.erase a).Balanced := by
  rw [ProbeTable.erase]
  split
  · exact h
  · next i hi =>
      obtain ⟨b, hb, -⟩ := findFrom_eq_some hi
      exact (h.vacate hb).contract

end Numbers

/-! ### The changes -/

section Changes

variable [BEq α]

theorem WellFormed.of_balanced {t : ProbeTable α} (h : t.Consistent) (hb : t.Balanced) :
    t.WellFormed :=
  ⟨h, hb.isPowerOfTwo, hb.least_le, hb.load_le⟩

variable [EquivBEq α]

theorem BuiltFrom.ofDistinct {as : List α} (h : Distinct as) :
    BuiltFrom as (capacityHolding as.length) (ofDistinct as) := by
  obtain ⟨-, hleast, hn⟩ := capacityHolding_spec as.length
  have hbuilt : BuiltFrom (as ++ []) (capacityHolding as.length) (ProbeTable.ofDistinct as) :=
    (BuiltFrom.ofCapacity _).foldl_place (by rw [List.length_nil]; omega) (by simpa using h)
  rwa [List.append_nil] at hbuilt

/-- **A new table is well formed.** -/
theorem WellFormed.ofDistinct {as : List α} (h : Distinct as) :
    (ofDistinct as).WellFormed :=
  .of_balanced (BuiltFrom.ofDistinct h).consistent (.ofDistinct as)

/-- An expanded table is as good as the table it was made of, and has room for one more value. -/
theorem WellFormed.rebuild_expansion {t : ProbeTable α} (h : t.WellFormed) {c : Nat}
    (hc : t.expansion? = some c) :
    BuiltFrom t.toList c (t.rebuild c) ∧ (t.rebuild c).WellFormed := by
  obtain ⟨-, hfit⟩ := h.expansion?_spec hc
  have hbuilt := h.rebuild (c := c) (by omega)
  exact ⟨hbuilt, .of_balanced hbuilt.consistent (h.toBalanced.rebuild_expansion hc).2⟩

/-- A well-formed table stays so if there is room for the value that is placed. -/
theorem WellFormed.place {t : ProbeTable α} (h : t.WellFormed) {a : α}
    (hfit : 4 * (t.size + t.vacated + 1) ≤ 3 * t.capacity) (ha : t.toList.contains a = false) :
    (t.place a).WellFormed :=
  .of_balanced (h.toConsistent.place h.size_lt ha) (h.toBalanced.place hfit)

/-- **A table with one more value is well formed.** -/
theorem WellFormed.insertNew {t : ProbeTable α} (h : t.WellFormed) {a : α}
    (ha : t.toList.contains a = false) : (t.insertNew a).WellFormed := by
  rw [ProbeTable.insertNew]
  split
  · next hnone => exact h.place (load_le_of_expansion?_eq_none hnone) ha
  · next c hc =>
      obtain ⟨hbuilt, hwf⟩ := h.rebuild_expansion hc
      obtain ⟨-, hfit⟩ := h.expansion?_spec hc
      refine hwf.place ?_ ?_
      · rwa [hbuilt.size_eq, h.length_eq, hbuilt.vacated_eq, hbuilt.capacity_eq]
      · rwa [hbuilt.perm.contains_eq]

/-- The value that is inserted is added to the others. -/
theorem WellFormed.insertNew_perm {t : ProbeTable α} (h : t.WellFormed) (a : α) :
    (t.insertNew a).toList.Perm (a :: t.toList) := by
  rw [ProbeTable.insertNew]
  split
  · exact h.place_perm h.size_lt a
  · next c hc =>
      obtain ⟨hbuilt, hwf⟩ := h.rebuild_expansion hc
      exact (hwf.place_perm hwf.size_lt a).trans (hbuilt.perm.cons a)

/-- A well-formed table stays so when a slot is vacated. -/
theorem WellFormed.vacate {t : ProbeTable α} (h : t.WellFormed) {i : Nat} {b : α}
    (hi : t.slots[i]? = some (.occupied b)) : (t.vacate i).WellFormed :=
  .of_balanced (h.toConsistent.vacate hi) (h.toBalanced.vacate hi)

/-- A contracted table is as good as the table it was made of. -/
theorem WellFormed.rebuild_contraction {t : ProbeTable α} (h : t.WellFormed) {c : Nat}
    (hc : t.contraction? = some c) :
    BuiltFrom t.toList c (t.rebuild c) ∧ (t.rebuild c).WellFormed := by
  obtain ⟨hhalf, -, hlow⟩ := contraction?_spec hc
  have hbuilt := h.rebuild (c := c) (by omega)
  exact ⟨hbuilt, .of_balanced hbuilt.consistent (h.toBalanced.rebuild_contraction hc).2⟩

theorem WellFormed.contract {t : ProbeTable α} (h : t.WellFormed) : t.contract.WellFormed := by
  rw [ProbeTable.contract]
  split
  · exact h
  · next c hc => exact (h.rebuild_contraction hc).2

theorem WellFormed.contract_perm {t : ProbeTable α} (h : t.WellFormed) :
    t.contract.toList.Perm t.toList := by
  rw [ProbeTable.contract]
  split
  · exact List.Perm.refl _
  · next c hc => exact (h.rebuild_contraction hc).1.perm

variable [LawfulDigest α]

/-- **A table without a value is well formed.** -/
theorem WellFormed.erase {t : ProbeTable α} (h : t.WellFormed) (a : α) :
    (t.erase a).WellFormed := by
  rw [ProbeTable.erase]
  split
  · exact h
  · next i hi =>
      obtain ⟨b, hb, -⟩ := h.find?_eq_some_iff.1 hi
      exact (h.vacate hb).contract

/-- The value that is erased is taken out of the others, if it is there. -/
theorem WellFormed.erase_perm {t : ProbeTable α} (h : t.WellFormed) (a : α) :
    (t.erase a).toList.Perm (without t.toList a) := by
  rw [ProbeTable.erase]
  split
  · next hnone =>
      have ha : t.contains a = false := by rw [contains, hnone]; rfl
      rw [h.contains_eq] at ha
      rw [without_of_contains_eq_false ha]
  · next i hi =>
      obtain ⟨b, hb, hba⟩ := h.find?_eq_some_iff.1 hi
      exact (h.vacate hb).contract_perm.trans (perm_without (vacate_perm hb) hba h.distinct)

end Changes

end ProbeTable

end GraphIndex
