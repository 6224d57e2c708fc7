/-
**Lists of distinct items.**  The reference that sets are measured against.

A set of values whose equality is only an equivalence has no canonical list of its elements, but it
has a list in which no two items are equal, and every other such list of the same elements is as
long.  Whether a list has an item is asked with `List.contains`, and an item that it does not have
is put in front with `List.insert`.

Main definitions:

* `Distinct` — no two items are equal;
* `without` — the items that are not equal to a value.

Main results:

* `Distinct.perm`, `Distinct.insert`, `Distinct.without` — what keeps items distinct;
* `perm_without` — taking out one item is taking out everything equal to it;
* `Distinct.length_le_of_contains`, `Distinct.length_eq` — distinct items that another list has are
  not more than its items;
* `Distinct.contains_eq_of_length_le` — distinct items that fill another list are its items;
* `eraseDups_spec` — the items of a list, listed once;
* `flatMap_groups_perm` — the groups of a list hold together what the list holds.
-/

set_option autoImplicit false

namespace GraphIndex

variable {α : Type} [BEq α]

/-- No two items of the list are equal. -/
def Distinct (as : List α) : Prop :=
  as.Pairwise fun a b => (a == b) = false

instance (as : List α) : Decidable (Distinct as) :=
  inferInstanceAs (Decidable (as.Pairwise fun a b => (a == b) = false))

/-- The items that are not equal to a value. -/
def without (as : List α) (a : α) : List α :=
  as.filter fun b => !(b == a)

theorem Distinct.nil : Distinct ([] : List α) :=
  List.Pairwise.nil

theorem contains_eq_false_iff {as : List α} {a : α} :
    as.contains a = false ↔ ∀ b ∈ as, (a == b) = false := by
  simp only [List.contains_eq_any_beq, List.any_eq_false, Bool.not_eq_true]

theorem distinct_cons {a : α} {as : List α} :
    Distinct (a :: as) ↔ as.contains a = false ∧ Distinct as := by
  rw [Distinct, List.pairwise_cons, contains_eq_false_iff]
  rfl

theorem Distinct.filter {as : List α} (h : Distinct as) (p : α → Bool) : Distinct (as.filter p) :=
  List.Pairwise.filter p h

theorem Distinct.without {as : List α} (h : Distinct as) (a : α) : Distinct (without as a) :=
  h.filter _

theorem Distinct.insert {as : List α} (h : Distinct as) (a : α) : Distinct (as.insert a) := by
  rw [List.insert]
  split
  · exact h
  · next ha => exact distinct_cons.2 ⟨by simpa using ha, h⟩

theorem insert_of_contains_eq_false {as : List α} {a : α} (h : as.contains a = false) :
    as.insert a = a :: as := by
  simp only [List.insert, h, Bool.false_eq_true, if_false]

variable [EquivBEq α]

/-- Whether items are distinct does not depend on their order. -/
theorem Distinct.perm {as bs : List α} (h : Distinct as) (p : as.Perm bs) : Distinct bs :=
  p.pairwise h fun hab => by rwa [BEq.comm]

/-- An item of the list is the only one that is equal to it. -/
theorem Distinct.eq_of_beq {as : List α} (h : Distinct as) {a b : α} (ha : a ∈ as) (hb : b ∈ as)
    (hab : (a == b) = true) : a = b := by
  induction as with
  | nil => exact absurd ha List.not_mem_nil
  | cons c cs ih =>
      obtain ⟨hc, hcs⟩ := distinct_cons.1 h
      rw [contains_eq_false_iff] at hc
      rcases List.mem_cons.1 ha with rfl | hacs
      · rcases List.mem_cons.1 hb with rfl | hbcs
        · rfl
        · rw [hc b hbcs] at hab
          exact absurd hab Bool.false_ne_true
      · rcases List.mem_cons.1 hb with rfl | hbcs
        · rw [BEq.comm, hc a hacs] at hab
          exact absurd hab Bool.false_ne_true
        · exact ih hcs hacs hbcs

/-- A list from which nothing is to be taken out stays as it is. -/
theorem without_of_contains_eq_false {as : List α} {a : α} (h : as.contains a = false) :
    without as a = as := by
  refine List.filter_eq_self.2 fun b hb => ?_
  rw [BEq.comm, contains_eq_false_iff.1 h b hb]
  rfl

theorem contains_without (as : List α) (a b : α) :
    (without as a).contains b = (!(b == a) && as.contains b) := by
  rw [without, List.contains_filter]
  induction as with
  | nil => simp
  | cons c cs ih =>
      rw [List.any_cons, ih, List.contains_cons, Bool.and_or_distrib_left]
      congr 1
      cases hbc : b == c with
      | false => simp
      | true => rw [BEq.congr_left hbc]; simp

theorem contains_insert (as : List α) (a b : α) :
    (as.insert a).contains b = (b == a || as.contains b) := by
  cases ha : as.contains a with
  | false => rw [insert_of_contains_eq_false ha, List.contains_cons]
  | true =>
      rw [List.insert, ha, if_pos rfl]
      cases hba : b == a with
      | false => rfl
      | true => rw [List.contains_congr hba, ha, Bool.true_or]

/-- Nothing but the first one of distinct items is equal to it. -/
theorem without_cons_of_beq {rest : List α} {a b : α} (h : Distinct (b :: rest))
    (hba : (b == a) = true) : without (b :: rest) a = rest := by
  rw [without, List.filter_cons_of_neg (by simp [hba])]
  refine without_of_contains_eq_false ?_
  rw [List.contains_congr (BEq.symm hba)]
  exact (distinct_cons.1 h).1

/-- Taking one item out of a list of distinct items is taking out everything equal to it. -/
theorem perm_without {as rest : List α} {a b : α} (p : (b :: rest).Perm as) (hba : (b == a) = true)
    (h : Distinct as) : rest.Perm (without as a) := by
  rw [← without_cons_of_beq (h.perm p.symm) hba]
  exact p.filter _

/-- An item of a list can be moved to its front. -/
theorem exists_perm_cons_of_contains {as : List α} {a : α} (h : as.contains a = true) :
    ∃ b rest, (b == a) = true ∧ (b :: rest).Perm as := by
  obtain ⟨b, hb, hab⟩ := List.contains_iff_exists_mem_beq.1 h
  obtain ⟨front, back, rfl⟩ := List.append_of_mem hb
  exact ⟨b, front ++ back, BEq.symm hab, List.perm_middle.symm⟩

/-- Distinct items that another list has are not more than its items. -/
theorem Distinct.length_le_of_contains {as bs : List α} (h : Distinct as)
    (hsub : ∀ a ∈ as, bs.contains a = true) : as.length ≤ bs.length := by
  induction as generalizing bs with
  | nil => exact Nat.zero_le _
  | cons a as ih =>
      obtain ⟨ha, has⟩ := distinct_cons.1 h
      obtain ⟨b, rest, hba, p⟩ := exists_perm_cons_of_contains (hsub a List.mem_cons_self)
      have hrest : ∀ c ∈ as, rest.contains c = true := by
        intro c hc
        have hbs : bs.contains c = true := hsub c (List.mem_cons_of_mem a hc)
        rw [← p.contains_eq, List.contains_cons, Bool.or_eq_true] at hbs
        refine hbs.resolve_left fun hcb => ?_
        have hne := contains_eq_false_iff.1 ha c hc
        rw [BEq.comm, BEq.trans hcb hba] at hne
        exact Bool.false_ne_true hne.symm
      have hle : as.length ≤ rest.length := ih has hrest
      have hlen : rest.length + 1 = bs.length := p.length_eq
      rw [List.length_cons]
      omega

/-- Lists of distinct items that have the same items are of the same length. -/
theorem Distinct.length_eq {as bs : List α} (has : Distinct as) (hbs : Distinct bs)
    (h : ∀ a, as.contains a = bs.contains a) : as.length = bs.length := by
  refine Nat.le_antisymm (has.length_le_of_contains ?_) (hbs.length_le_of_contains ?_)
  · intro a ha
    rw [← h]
    exact List.contains_iff_exists_mem_beq.2 ⟨a, ha, BEq.rfl⟩
  · intro b hb
    rw [h]
    exact List.contains_iff_exists_mem_beq.2 ⟨b, hb, BEq.rfl⟩

/-- **Distinct items that fill another list are its items.** -/
theorem Distinct.contains_eq_of_length_le {as bs : List α} (h : Distinct as)
    (hsub : ∀ a ∈ as, bs.contains a = true) (hlen : bs.length ≤ as.length) (a : α) :
    as.contains a = bs.contains a := by
  cases ha : as.contains a with
  | true =>
      obtain ⟨b, hb, hab⟩ := List.contains_iff_exists_mem_beq.1 ha
      rw [List.contains_congr hab, hsub b hb]
  | false =>
      cases hin : bs.contains a with
      | false => rfl
      | true =>
          -- with one item more they would be too many
          have hall : ∀ b ∈ a :: as, bs.contains b = true := by
            intro b hb
            rcases List.mem_cons.1 hb with rfl | hb
            · exact hin
            · exact hsub b hb
          have hmore := (distinct_cons.2 ⟨ha, h⟩).length_le_of_contains hall
          rw [List.length_cons] at hmore
          omega

/-! ### Items listed once -/

theorem eraseDups_spec (as : List α) :
    Distinct as.eraseDups ∧ ∀ a, as.eraseDups.contains a = as.contains a := by
  induction hn : as.length using Nat.strongRecOn generalizing as with
  | _ n ih =>
      cases as with
      | nil => exact ⟨Distinct.nil, fun a => rfl⟩
      | cons b bs =>
          -- what is left without the items equal to the first one is shorter
          have hlt : (without bs b).length < n := by
            rw [← hn, List.length_cons]
            exact Nat.lt_succ_of_le (List.length_filter_le _ bs)
          obtain ⟨hd, hc⟩ := ih _ hlt _ rfl
          have hcons : (b :: bs).eraseDups = b :: (without bs b).eraseDups := List.eraseDups_cons
          rw [hcons]
          refine ⟨distinct_cons.2 ⟨?_, hd⟩, fun a => ?_⟩
          · rw [hc, contains_without, BEq.rfl]
            rfl
          · rw [List.contains_cons, hc, contains_without, List.contains_cons]
            cases a == b <;> simp

/-! ### Groups -/

/-- The groups of a list by a key hold together what the list holds, if each group has the items with
its key and every item has the key of a group. -/
theorem flatMap_groups_perm {γ κ ι β : Type} [BEq κ] [EquivBEq κ] {key : γ → κ}
    {members : γ → List β} (keyOf : ι → κ) {f : ι → β} {gs : List γ} {ps : List ι}
    (hd : Distinct (gs.map key))
    (hmembers : ∀ g ∈ gs, (members g).Perm ((ps.filter fun p => keyOf p == key g).map f))
    (hcover : ∀ p ∈ ps, ∃ g ∈ gs, (keyOf p == key g) = true) :
    (gs.flatMap members).Perm (ps.map f) := by
  induction gs generalizing ps with
  | nil =>
      have hnil : ps = [] := by
        refine List.eq_nil_iff_forall_not_mem.2 fun p hp => ?_
        obtain ⟨g, hg, -⟩ := hcover p hp
        exact List.not_mem_nil hg
      rw [hnil]
      exact List.Perm.refl _
  | cons g gs ih =>
      obtain ⟨hg, hgs⟩ := distinct_cons.1 hd
      -- the items with other keys are left for the other groups
      have hrest : (gs.flatMap members).Perm ((ps.filter fun p => !(keyOf p == key g)).map f) := by
        refine ih hgs ?_ ?_
        · intro h hh
          have hne := contains_eq_false_iff.1 hg (key h) (List.mem_map_of_mem hh)
          rw [List.filter_filter, List.filter_congr (q := fun p => keyOf p == key h)]
          · exact hmembers h (List.mem_cons_of_mem g hh)
          · intro p _
            cases hp : keyOf p == key h with
            | false => rfl
            | true => rw [BEq.congr_left hp, BEq.comm, hne]; rfl
        · intro p hp
          obtain ⟨hp, hpg⟩ := List.mem_filter.1 hp
          obtain ⟨h, hh, hph⟩ := hcover p hp
          rcases List.mem_cons.1 hh with rfl | hh
          · rw [hph] at hpg
            exact absurd hpg Bool.false_ne_true
          · exact ⟨h, hh, hph⟩
      have hsplit := (List.filter_append_perm (fun p => keyOf p == key g) ps).map f
      rw [List.map_append] at hsplit
      exact ((hmembers g List.mem_cons_self).append hrest).trans hsplit

/-! ### Pairs -/

/-- Pairs of values whose equality is an equivalence are compared by an equivalence. -/
instance equivBEqProd {β : Type} [BEq β] [EquivBEq β] : EquivBEq (α × β) where
  rfl := by simp
  symm := by
    intro p q h
    obtain ⟨h₁, h₂⟩ := Bool.and_eq_true_iff.1 h
    exact Bool.and_eq_true_iff.2 ⟨BEq.symm h₁, BEq.symm h₂⟩
  trans := by
    intro p q r h h'
    obtain ⟨h₁, h₂⟩ := Bool.and_eq_true_iff.1 h
    obtain ⟨h₁', h₂'⟩ := Bool.and_eq_true_iff.1 h'
    exact Bool.and_eq_true_iff.2 ⟨BEq.trans h₁ h₁', BEq.trans h₂ h₂'⟩

end GraphIndex
