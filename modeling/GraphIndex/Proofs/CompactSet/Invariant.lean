/-
**The invariant of compact sets.**  A compact set is stored in the tier for its number of elements,
and its elements are distinct.

A set that may be empty represents a list of distinct elements if it is well formed and has these
elements in some order.  Then everything that can be asked of the set has its answer in the list:
there is a set at all if the list is not empty, the size is the length of the list, and the set
contains what the list contains.  Each operation on sets is an operation on the lists that they
represent.

Main definitions:

* `CompactSet.WellFormed` — the invariant;
* `CompactSet.Represents` — a possibly empty set has the elements of a list.

Main results:

* `CompactSet.WellFormed.contains_eq`, `CompactSet.WellFormed.length_eq` — the contents of a set;
* `CompactSet.WellFormed.insertNew`, `CompactSet.Represents.eraseMember` — **the two changes keep
  the invariant**, across all tiers;
* `CompactSet.Represents.add`, `CompactSet.Represents.remove`, `CompactSet.Represents.foldl_add` —
  what they do to the elements.
-/
import GraphIndex.CompactSet.View
import GraphIndex.Proofs.ProbeTable.Change

set_option autoImplicit false

namespace GraphIndex

namespace CompactSet

variable {α : Type}

/-! ### Tiers -/

theorem Tier.ofSize_eq_none_iff {n : Nat} : Tier.ofSize n = none ↔ n = 0 := by
  rw [Tier.ofSize]
  split
  · next h => simp [h]
  · next h =>
      split
      · simp [h]
      · split <;> simp [h]

theorem Tier.ofSize_eq_single_iff {n : Nat} : Tier.ofSize n = some .single ↔ n = 1 := by
  rw [Tier.ofSize]
  split
  · next h => simp [h]
  · split
    · next h => simp [h]
    · next h => split <;> simp [h]

/-- A list is chosen as storage if it is the first one with enough room. -/
theorem Tier.ofSize_eq_fixed_iff {n c : Nat} :
    Tier.ofSize n = some (.fixed c) ↔ 2 ≤ n ∧ Tier.listSizes.find? (n ≤ ·) = some c := by
  rw [Tier.ofSize]
  split
  · next h => simp [h]
  · next h0 =>
      split
      · next h => simp [h]
      · next h1 =>
          have h2 : 2 ≤ n := by omega
          split
          · next c' hc => simp [hc, h2]
          · next hnone => simp [hnone]

theorem Tier.ofSize_eq_overflow_iff {n : Nat} : Tier.ofSize n = some .overflow ↔ 24 < n := by
  rw [Tier.ofSize]
  split
  · next h => simp [h]
  · next h0 =>
      split
      · next h => simp [h]
      · next h1 =>
          split
          · next c hc =>
              have hle := List.find?_some hc
              have hmem := List.mem_of_find?_eq_some hc
              simp [Tier.listSizes] at hle hmem
              simp
              omega
          · next hnone =>
              simp [Tier.listSizes] at hnone
              simp
              omega

/-- Storage with room left is still the right one for one more element. -/
theorem Tier.ofSize_succ {n c : Nat} (h : Tier.ofSize n = some (.fixed c)) (hlt : n < c) :
    Tier.ofSize (n + 1) = some (.fixed c) := by
  obtain ⟨h2, hfind⟩ := Tier.ofSize_eq_fixed_iff.1 h
  obtain ⟨-, before, after, hsizes, hbefore⟩ := List.find?_eq_some_iff_append.1 hfind
  refine Tier.ofSize_eq_fixed_iff.2 ⟨by omega, ?_⟩
  refine List.find?_eq_some_iff_append.2 ⟨decide_eq_true hlt, before, after, hsizes, ?_⟩
  intro b hb
  have hnot := hbefore b hb
  simp at hnot ⊢
  omega

/-! ### The invariant -/

theorem toList_viewOf (s : CompactSet α) : (viewOf s).toList = s.toList := by
  cases s <;> rfl

/-- There is a set if it has elements. -/
theorem toList_view (s : Option (CompactSet α)) : (view s).toList = s.elim [] toList := by
  cases s with
  | none => rfl
  | some s => exact toList_viewOf s

variable [BEq α] [Digest α]

/-- The set is stored in the tier for its size, its elements are distinct, and a table in which it
is stored is well formed. -/
structure WellFormed (s : CompactSet α) : Prop where
  /-- The storage is in the right tier. -/
  tier_eq : Tier.ofSize s.size = some s.tier
  /-- The elements are distinct. -/
  distinct : Distinct s.toList
  /-- The table is well formed. -/
  table : ∀ t, s = overflow t → t.WellFormed

theorem WellFormed.length_eq {s : CompactSet α} (h : s.WellFormed) : s.toList.length = s.size := by
  cases s with
  | single a => rfl
  | fixed c items => rfl
  | overflow t => exact (h.table t rfl).length_eq

/-- A set has an element. -/
theorem WellFormed.toList_ne_nil {s : CompactSet α} (h : s.WellFormed) : s.toList ≠ [] := by
  intro hnil
  have hsize : s.size = 0 := by rw [← h.length_eq, hnil]; rfl
  have htier := h.tier_eq
  rw [hsize] at htier
  simp [Tier.ofSize] at htier

/-- **A set contains its elements and nothing else.** -/
theorem WellFormed.contains_eq [EquivBEq α] [LawfulDigest α] {s : CompactSet α}
    (h : s.WellFormed) (a : α) : s.contains a = s.toList.contains a := by
  cases s with
  | single b => simp [contains, toList, BEq.comm]
  | fixed c items =>
      rw [contains, toList, List.contains_eq_any_beq]
      exact List.any_congr rfl fun b => BEq.comm
  | overflow t => exact (h.table t rfl).contains_eq a

/-! ### Storing elements -/

section Store

variable [EquivBEq α]

theorem WellFormed.ofCons {a : α} {as : List α} (h : Distinct (a :: as)) :
    (ofCons a as).WellFormed := by
  rw [CompactSet.ofCons]
  split
  · next c hc => exact ⟨hc, h, by simp⟩
  · next hover =>
      have hwf := ProbeTable.WellFormed.ofDistinct h
      have hsize := (ProbeTable.BuiltFrom.ofDistinct h).size_eq
      refine ⟨?_, hwf.distinct, ?_⟩
      · rw [size, hsize]
        exact hover
      · intro t ht
        rwa [← overflow.inj ht]
  · exact ⟨rfl, List.pairwise_singleton _ a, by simp⟩

theorem ofCons_perm {a : α} {as : List α} (h : Distinct (a :: as)) :
    (ofCons a as).toList.Perm (a :: as) := by
  rw [CompactSet.ofCons]
  split
  · exact List.Perm.refl _
  · exact (ProbeTable.BuiltFrom.ofDistinct h).perm
  · next hfixed hover =>
      -- neither a list nor a table: there is no other element
      have hsingle : Tier.ofSize (as.length + 1) = some .single := by
        cases htier : Tier.ofSize (as.length + 1) with
        | none => simp [Tier.ofSize_eq_none_iff] at htier
        | some tier =>
            cases tier with
            | single => rfl
            | fixed c => exact absurd htier (hfixed c)
            | overflow => exact absurd htier hover
      rw [Tier.ofSize_eq_single_iff] at hsingle
      obtain rfl : as = [] := List.eq_nil_of_length_eq_zero (by omega)
      exact List.Perm.refl _

/-- **A set with one more element is well formed.** -/
theorem WellFormed.insertNew {s : CompactSet α} (h : s.WellFormed) {a : α}
    (ha : s.toList.contains a = false) : (s.insertNew a).WellFormed := by
  have hd : Distinct (s.toList ++ [a]) :=
    (distinct_cons.2 ⟨ha, h.distinct⟩).perm (List.perm_append_singleton a s.toList).symm
  cases s with
  | single b => exact WellFormed.ofCons hd
  | fixed c items =>
      cases items with
      | nil => exact absurd rfl h.toList_ne_nil
      | cons b bs =>
          rw [CompactSet.insertNew]
          split
          · next hroom =>
              refine ⟨?_, hd, by simp⟩
              rw [size, List.length_append]
              exact Tier.ofSize_succ h.tier_eq hroom
          · exact WellFormed.ofCons hd
  | overflow t =>
      have ht := h.table t rfl
      have hwf := ht.insertNew ha
      refine ⟨?_, hwf.distinct, ?_⟩
      · have hlen := (ht.insertNew_perm a).length_eq
        rw [hwf.length_eq, List.length_cons, ht.length_eq] at hlen
        have htier := Tier.ofSize_eq_overflow_iff.1 h.tier_eq
        rw [size] at htier
        rw [CompactSet.insertNew, size, hlen]
        exact Tier.ofSize_eq_overflow_iff.2 (by omega)
      · intro u hu
        rwa [← overflow.inj hu]

theorem WellFormed.insertNew_perm {s : CompactSet α} (h : s.WellFormed) {a : α}
    (ha : s.toList.contains a = false) : (s.insertNew a).toList.Perm (a :: s.toList) := by
  have hback := List.perm_append_singleton a s.toList
  have hd : Distinct (s.toList ++ [a]) := (distinct_cons.2 ⟨ha, h.distinct⟩).perm hback.symm
  cases s with
  | single b => exact (ofCons_perm hd).trans hback
  | fixed c items =>
      cases items with
      | nil => exact absurd rfl h.toList_ne_nil
      | cons b bs =>
          rw [CompactSet.insertNew]
          split
          · exact hback
          · exact (ofCons_perm hd).trans hback
  | overflow t => exact (h.table t rfl).insertNew_perm a

end Store

/-! ### Sets that may be empty -/

/-- The set is well formed if there is one, and its elements are the given ones, up to order. -/
structure Represents (s : Option (CompactSet α)) (as : List α) : Prop where
  /-- The set is well formed. -/
  wellFormed : ∀ t, s = some t → t.WellFormed
  /-- The elements are the given ones. -/
  perm : (view s).toList.Perm as

theorem WellFormed.represents {s : CompactSet α} (h : s.WellFormed) :
    Represents (some s) s.toList where
  wellFormed t ht := by rwa [← Option.some_inj.1 ht]
  perm := by rw [toList_view]; exact List.Perm.refl _

theorem Represents.none : Represents (none : Option (CompactSet α)) [] where
  wellFormed t ht := by simp at ht
  perm := List.Perm.refl _

theorem Represents.of_perm {s : Option (CompactSet α)} {as bs : List α} (h : Represents s as)
    (p : as.Perm bs) : Represents s bs :=
  ⟨h.wellFormed, h.perm.trans p⟩

/-- There is a set if there are elements. -/
theorem Represents.eq_none_iff {s : Option (CompactSet α)} {as : List α} (h : Represents s as) :
    s = Option.none ↔ as = [] := by
  constructor
  · rintro rfl
    exact h.perm.nil_eq.symm
  · rintro rfl
    cases s with
    | none => rfl
    | some t =>
        have hnil := h.perm.eq_nil
        rw [toList_view] at hnil
        exact absurd hnil (h.wellFormed t rfl).toList_ne_nil

theorem Represents.size_eq {t : CompactSet α} {as : List α} (h : Represents (some t) as) :
    t.size = as.length := by
  rw [← (h.wellFormed t rfl).length_eq, ← h.perm.length_eq, toList_view]
  rfl

section Lawful

variable [EquivBEq α]

theorem Represents.distinct {s : Option (CompactSet α)} {as : List α} (h : Represents s as) :
    Distinct as := by
  refine Distinct.perm ?_ h.perm
  rw [toList_view]
  cases s with
  | none => exact Distinct.nil
  | some t => exact (h.wellFormed t rfl).distinct

theorem Represents.ofDistinct {as : List α} (h : Distinct as) : Represents (ofDistinct as) as := by
  cases as with
  | nil => exact Represents.none
  | cons a as => exact (WellFormed.ofCons h).represents.of_perm (ofCons_perm h)

/-- **Whatever tier distinct elements are stored in, they end up in the right one.** -/
theorem Represents.settle {s : CompactSet α} (hd : Distinct s.toList)
    (ht : ∀ t, s = overflow t → t.WellFormed) : Represents s.settle s.toList := by
  rw [CompactSet.settle]
  split
  · next htier => exact WellFormed.represents ⟨htier.symm, hd, ht⟩
  · exact Represents.ofDistinct hd

variable [LawfulDigest α]

/-- **What is left of a set without an element.** -/
theorem Represents.eraseMember {s : CompactSet α} (h : s.WellFormed) {a : α}
    (ha : s.contains a = true) : Represents (s.eraseMember a) (without s.toList a) := by
  cases s with
  | single b =>
      have hnil : without [b] a = [] := by
        rw [without, List.filter_cons_of_neg (by simpa [contains] using ha), List.filter_nil]
      rw [toList, hnil]
      exact Represents.none
  | fixed c items =>
      rw [contains, List.any_eq_true] at ha
      have hsome : (items.findIdx? (· == a)).isSome = true := by
        rw [List.findIdx?_isSome, List.any_eq_true]
        exact ha
      obtain ⟨i, hi⟩ := Option.isSome_iff_exists.1 hsome
      obtain ⟨hlt, hia, -⟩ := List.findIdx?_eq_some_iff_getElem.1 hi
      have hperm := getElem_cons_swapErase_perm hlt
      have hd := (distinct_cons.1 (h.distinct.perm hperm.symm)).2
      have hset : Represents (fixed c (swapErase items i)).settle (swapErase items i) :=
        Represents.settle hd (by simp)
      rw [CompactSet.eraseMember, hi]
      exact hset.of_perm (perm_without hperm hia h.distinct)
  | overflow t =>
      have ht := h.table t rfl
      have hwf := ht.erase a
      have hset : Represents (overflow (t.erase a)).settle (t.erase a).toList := by
        refine Represents.settle hwf.distinct fun u hu => ?_
        rwa [← overflow.inj hu]
      exact hset.of_perm (ht.erase_perm a)

theorem Represents.mem_eq {s : Option (CompactSet α)} {as : List α} (h : Represents s as) (a : α) :
    mem s a = as.contains a := by
  rw [← h.perm.contains_eq, toList_view]
  cases s with
  | none => rfl
  | some t => exact (h.wellFormed t rfl).contains_eq a

/-- **Adding an element puts it in front, unless it is there.** -/
theorem Represents.add {s : Option (CompactSet α)} {as : List α} (h : Represents s as) (a : α) :
    Represents (add s a) (as.insert a) := by
  cases ha : mem s a with
  | true =>
      rw [add_of_mem ha, List.insert, ← h.mem_eq, if_pos ha]
      exact h
  | false =>
      have has : as.contains a = false := by rw [← h.mem_eq, ha]
      rw [insert_of_contains_eq_false has]
      cases s with
      | none =>
          have hwf : (single a).WellFormed := ⟨rfl, List.pairwise_singleton _ a, by simp⟩
          refine hwf.represents.of_perm ?_
          rw [h.eq_none_iff.1 rfl]
          exact List.Perm.refl _
      | some t =>
          have hwf := h.wellFormed t rfl
          have hp := h.perm
          rw [toList_view] at hp
          have hta : t.contains a = false := ha
          have htl := hta
          rw [hwf.contains_eq] at htl
          rw [CompactSet.add, hta]
          exact (hwf.insertNew htl).represents.of_perm ((hwf.insertNew_perm htl).trans (hp.cons a))

/-- **Removing an element takes it out, if it is there.** -/
theorem Represents.remove {s : Option (CompactSet α)} {as : List α} (h : Represents s as) (a : α) :
    Represents (remove s a) (without as a) := by
  cases ha : mem s a with
  | false =>
      have has : as.contains a = false := by rw [← h.mem_eq, ha]
      rw [remove_of_not_mem ha, without_of_contains_eq_false has]
      exact h
  | true =>
      cases s with
      | none => simp [mem] at ha
      | some t =>
          have hta : t.contains a = true := ha
          have hp := h.perm
          rw [toList_view] at hp
          rw [CompactSet.remove, CompactSet.erase, if_pos hta]
          exact (Represents.eraseMember (h.wellFormed t rfl) hta).of_perm (hp.filter _)

/-- Adding the elements of a list one after the other. -/
theorem Represents.foldl_add {s : Option (CompactSet α)} {as : List α} (h : Represents s as)
    (bs : List α) :
    Represents (bs.foldl CompactSet.add s) (bs.foldl (fun as b => as.insert b) as) := by
  induction bs generalizing s as with
  | nil => exact h
  | cons b bs ih => exact ih (h.add b)

end Lawful

end CompactSet

end GraphIndex
