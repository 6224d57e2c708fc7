/-
**Equality of compact sets.**  Two sets are equal exactly if they have the same elements, whatever has
happened to either of them.

Equality looks at one side only: the sets are of one size, and the second one contains the elements of
the first one.  That the first one contains those of the second one follows by counting, because no set
has an element twice.  So equality does not depend on the order in which sets are taken, nor on how they
are stored: their tables may have different capacities, other orders of slots and other holes.

Main definitions:

* `CompactSet.Reached` — the sets that runs lead to.

Main results:

* `CompactSet.WellFormed.equal_iff` — **sets are equal if they contain the same**;
* `CompactSet.Represents.same_iff` — the same for sets that may be empty;
* `CompactSet.equal_iff_contains_eq` — what kind of equality this is, for all sets that are reached.
-/
import GraphIndex.Proofs.CompactSet.Run

set_option autoImplicit false

namespace GraphIndex

namespace CompactSet

variable {α : Type} [BEq α] [Digest α] [EquivBEq α] [LawfulDigest α]

/-! ### Equal sets -/

variable {s t u : CompactSet α}

/-- **Sets are equal if they contain the same.** -/
theorem WellFormed.equal_iff (hs : s.WellFormed) (ht : t.WellFormed) :
    s.equal t = true ↔ ∀ a, s.contains a = t.contains a := by
  have hcontains : (∀ a, s.contains a = t.contains a) ↔
      ∀ a, s.toList.contains a = t.toList.contains a :=
    forall_congr' fun a => by rw [hs.contains_eq, ht.contains_eq]
  rw [hcontains, equal, Bool.and_eq_true, beq_iff_eq, List.all_eq_true, ← hs.length_eq,
    ← ht.length_eq]
  constructor
  · rintro ⟨hsize, hall⟩
    refine hs.distinct.contains_eq_of_length_le (fun a ha => ?_) (Nat.le_of_eq hsize.symm)
    rw [← ht.contains_eq]
    exact hall a ha
  · intro hsame
    refine ⟨hs.distinct.length_eq ht.distinct hsame, fun a ha => ?_⟩
    rw [ht.contains_eq, ← hsame]
    exact List.contains_iff_exists_mem_beq.2 ⟨a, ha, BEq.rfl⟩

theorem WellFormed.equal_self (hs : s.WellFormed) : s.equal s = true :=
  (hs.equal_iff hs).2 fun _ => rfl

theorem WellFormed.equal_comm (hs : s.WellFormed) (ht : t.WellFormed) : s.equal t = t.equal s := by
  rw [Bool.eq_iff_iff, hs.equal_iff ht, ht.equal_iff hs]
  exact forall_congr' fun a => eq_comm

theorem WellFormed.equal_trans (hs : s.WellFormed) (ht : t.WellFormed) (hu : u.WellFormed)
    (h : s.equal t = true) (h' : t.equal u = true) : s.equal u = true := by
  rw [hs.equal_iff ht] at h
  rw [ht.equal_iff hu] at h'
  exact (hs.equal_iff hu).2 fun a => (h a).trans (h' a)

omit [EquivBEq α] [LawfulDigest α] in
/-- Equal sets are stored in the same tier. -/
theorem WellFormed.tier_eq_of_equal (hs : s.WellFormed) (ht : t.WellFormed)
    (h : s.equal t = true) : s.size = t.size ∧ s.tier = t.tier := by
  rw [equal, Bool.and_eq_true, beq_iff_eq] at h
  refine ⟨h.1, Option.some_inj.1 ?_⟩
  rw [← hs.tier_eq, ← ht.tier_eq, h.1]

/-- **Possibly empty sets are equal if they have the same elements.** -/
theorem Represents.same_iff {s t : Option (CompactSet α)} {as bs : List α} (hs : Represents s as)
    (ht : Represents t bs) : same s t = true ↔ ∀ a, as.contains a = bs.contains a := by
  have hmem : (∀ a, as.contains a = bs.contains a) ↔ ∀ a, mem s a = mem t a :=
    forall_congr' fun a => by rw [hs.mem_eq, ht.mem_eq]
  have hnone : ∀ {u : CompactSet α} {cs : List α}, Represents (some u) cs →
      ∃ a, mem (some u) a = true := by
    intro u cs hu
    obtain ⟨a, ha⟩ := List.exists_mem_of_ne_nil _ (hu.wellFormed u rfl).toList_ne_nil
    refine ⟨a, ((hu.wellFormed u rfl).contains_eq a).trans ?_⟩
    exact List.contains_iff_exists_mem_beq.2 ⟨a, ha, BEq.rfl⟩
  rw [hmem]
  cases s with
  | none =>
      cases t with
      | none => exact ⟨fun _ a => rfl, fun _ => rfl⟩
      | some t =>
          obtain ⟨a, ha⟩ := hnone ht
          exact ⟨fun h => absurd h Bool.false_ne_true, fun h => absurd ((h a).trans ha)
            Bool.false_ne_true⟩
  | some s =>
      cases t with
      | none =>
          obtain ⟨a, ha⟩ := hnone hs
          exact ⟨fun h => absurd h Bool.false_ne_true, fun h => absurd ((h a).symm.trans ha)
            Bool.false_ne_true⟩
      | some t => exact (hs.wellFormed s rfl).equal_iff (ht.wellFormed t rfl)

/-! ### Runs -/

/-- A run leads to the set. -/
def Reached (s : CompactSet α) : Prop :=
  ∃ cs : List (Change α), run cs = some s

theorem Reached.wellFormed (h : Reached s) : s.WellFormed := by
  obtain ⟨cs, hs⟩ := h
  exact (represents_run cs).wellFormed s hs

omit [Digest α] [LawfulDigest α] in
/-- After insertions, the elements are those that were inserted and those there were. -/
theorem contains_foldl_insert (as bs : List α) (a : α) :
    (bs.foldl (fun as b => as.insert b) as).contains a = (bs.contains a || as.contains a) := by
  induction bs generalizing as with
  | nil => rfl
  | cons b bs ih =>
      rw [List.foldl_cons, ih, contains_insert, List.contains_cons, Bool.or_left_comm, Bool.or_assoc]

/-- **The order of additions does not matter**, nor how often an element is added. -/
theorem same_run_adds (cs : List (Change α)) {as bs : List α}
    (h : ∀ a, as.contains a = bs.contains a) :
    same (run (cs ++ as.map .add)) (run (cs ++ bs.map .add)) = true := by
  refine ((represents_run _).same_iff (represents_run _)).2 fun a => ?_
  have hadds : ∀ ds : List α, reference (cs ++ ds.map .add) =
      ds.foldl (fun as b => as.insert b) (reference cs) := by
    intro ds
    rw [reference, List.foldl_append, List.foldl_map]
    rfl
  rw [hadds, hadds, contains_foldl_insert, contains_foldl_insert, h]

/-- Nor does the order of a list of elements that a set is made of. -/
theorem same_ofList {as bs : List α} (h : ∀ a, as.contains a = bs.contains a) :
    same (CompactSet.ofList as) (CompactSet.ofList bs) = true := by
  refine ((represents_run [.ofList as]).same_iff (represents_run [.ofList bs])).2 fun a => ?_
  have hlist : ∀ ds : List α, reference [.ofList ds] = ds.foldl (fun as b => as.insert b) [] :=
    fun ds => rfl
  rw [hlist, hlist, contains_foldl_insert, contains_foldl_insert, h]

/-- **Equality of sets is equality of their elements.**  Of all sets that runs lead to, two are equal
exactly if they contain the same.  This is an equivalence; sets that are equal have the same size and are
stored in the same tier; and after whatever run, the same additions in another order lead to equal sets,
or to none both times, and so do lists of the same elements that a set is made of. -/
theorem equal_iff_contains_eq :
    (∀ s t : CompactSet α, Reached s → Reached t →
      (s.equal t = true ↔ ∀ a, s.contains a = t.contains a)) ∧
    (∀ s : CompactSet α, Reached s → s.equal s = true) ∧
    (∀ s t : CompactSet α, Reached s → Reached t → s.equal t = true → t.equal s = true) ∧
    (∀ s t u : CompactSet α, Reached s → Reached t → Reached u →
      s.equal t = true → t.equal u = true → s.equal u = true) ∧
    (∀ s t : CompactSet α, Reached s → Reached t → s.equal t = true →
      s.size = t.size ∧ s.tier = t.tier) ∧
    ∀ as bs : List α, (∀ a, as.contains a = bs.contains a) →
      (∀ cs : List (Change α),
        same (run (cs ++ as.map .add)) (run (cs ++ bs.map .add)) = true) ∧
      same (CompactSet.ofList as) (CompactSet.ofList bs) = true := by
  refine ⟨fun s t hs ht => hs.wellFormed.equal_iff ht.wellFormed,
    fun s hs => hs.wellFormed.equal_self, fun s t hs ht h => ?_,
    fun s t u hs ht hu => hs.wellFormed.equal_trans ht.wellFormed hu.wellFormed,
    fun s t hs ht => hs.wellFormed.tier_eq_of_equal ht.wellFormed,
    fun as bs h => ⟨fun cs => same_run_adds cs h, same_ofList h⟩⟩
  rwa [ht.wellFormed.equal_comm hs.wellFormed]

/-- Of fifty words in a table the last ten are removed, and the others are added in reverse to a table of
their own: two tables of different capacities, with holes and without, but one set. -/
theorem equal_iff_contains_eq_of_words :
    let cs := (List.range 50).map (fun n => Change.add (UInt64.ofNat n)) ++
      (List.range' 40 10).map fun n => .remove (UInt64.ofNat n)
    let ds := (List.range 40).reverse.map fun n => Change.add (UInt64.ofNat n)
    ∃ s t, run cs = some s ∧ run ds = some t ∧ (viewOf s).slotCount = 128 ∧ s.holes = 10 ∧
      (viewOf t).slotCount = 64 ∧ t.holes = 0 ∧ s.equal t = true ∧ t.equal s = true ∧
      s.tier = t.tier := by
  intro cs ds
  have hnumbers : ((run cs).map fun s => ((viewOf s).slotCount, s.holes)) = some (128, 10) := by
    decide +kernel
  have hnumbers' : ((run ds).map fun t => ((viewOf t).slotCount, t.holes)) = some (64, 0) := by
    decide +kernel
  have href : reference cs = (reference ds).reverse := by decide +kernel
  obtain ⟨s, hs, hst⟩ := Option.map_eq_some_iff.1 hnumbers
  obtain ⟨t, ht, htt⟩ := Option.map_eq_some_iff.1 hnumbers'
  simp only [Prod.mk.injEq] at hst htt
  have hsame : ∀ a, s.contains a = t.contains a := by
    intro a
    have hin := (represents_run cs).mem_eq a
    rw [href, (List.reverse_perm _).contains_eq, ← (represents_run ds).mem_eq, hs, ht] at hin
    exact hin
  obtain ⟨hiff, -, hsymm, -, htier, -⟩ := equal_iff_contains_eq (α := UInt64)
  have hequal := (hiff s t ⟨cs, hs⟩ ⟨ds, ht⟩).2 hsame
  exact ⟨s, t, hs, ht, hst.1, hst.2, htt.1, htt.2, hequal, hsymm s t ⟨cs, hs⟩ ⟨ds, ht⟩ hequal,
    (htier s t ⟨cs, hs⟩ ⟨ds, ht⟩ hequal).2⟩

end CompactSet

end GraphIndex
