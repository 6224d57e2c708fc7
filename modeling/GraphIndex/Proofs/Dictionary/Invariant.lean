/-
**The invariant of dictionaries.**  A dictionary is stored in the tier for its number of keys, no key
comes twice, and inline storage has a value for every key.

The entries of a well-formed dictionary are a keyed list, whichever way they are stored.  Looking up a
key is looking it up in the entries, setting a key sets it there, in the same place, and removing a
key leaves the others, in some order.  In inline storage the keys and the values are two columns of
one list of entries, and what is done to both of them is done to the entries.

Main definitions:

* `Dictionary.WellFormed` — the invariant.

Main results:

* `Dictionary.WellFormed.get?_eq`, `Dictionary.entries_insert`, `Dictionary.entries_erase_perm` — the
  three operations on the entries;
* `Dictionary.WellFormed.insert`, `Dictionary.WellFormed.erase` — **setting and removing a key keep the
  invariant**, across all tiers;
* `Dictionary.get?_insert`, `Dictionary.get?_erase` — what they do to every look-up.
-/
import GraphIndex.Dictionary.Basic
import GraphIndex.Proofs.KeyedList

set_option autoImplicit false

namespace GraphIndex

theorem map_swapErase {α β : Type} (f : α → β) (xs : List α) (i : Nat) :
    swapErase (xs.map f) i = (swapErase xs i).map f := by
  rw [swapErase, swapErase, List.getLast?_map]
  cases xs.getLast? with
  | none => rfl
  | some last => simp only [Option.map_some, ← List.map_set, List.map_dropLast]

namespace Dictionary

open KeyedList (findPair insertPair)

/-! ### Tiers -/

theorem Tier.ofSize_eq_empty_iff {n : Nat} : Tier.ofSize n = .empty ↔ n = 0 := by
  rw [Tier.ofSize]
  by_cases h : n = 0
  · simp [h]
  · rw [if_neg h]
    split <;> simp [h]

/-- Inline storage is chosen if it is the first one with enough room. -/
theorem Tier.ofSize_eq_inline_iff {n c : Nat} :
    Tier.ofSize n = .inline c ↔ 0 < n ∧ Tier.inlineSizes.find? (n ≤ ·) = some c := by
  rw [Tier.ofSize]
  by_cases h : n = 0
  · simp [h]
  · rw [if_neg h]
    split
    · next c' hc => simp [hc, Nat.pos_of_ne_zero h]
    · next hnone => simp [hnone]

theorem Tier.ofSize_eq_map_iff {n : Nat} : Tier.ofSize n = .map ↔ 6 < n := by
  rw [Tier.ofSize]
  by_cases h : n = 0
  · simp [h]
  · rw [if_neg h]
    split
    · next c hc =>
        have hle := List.find?_some hc
        have hmem := List.mem_of_find?_eq_some hc
        simp [Tier.inlineSizes] at hle hmem
        simp
        omega
    · next hnone =>
        simp [Tier.inlineSizes] at hnone
        simp
        omega

theorem Tier.le_of_ofSize {n c : Nat} (h : Tier.ofSize n = .inline c) : n ≤ c := by
  simpa using List.find?_some (Tier.ofSize_eq_inline_iff.1 h).2

/-- Storage with room left is still the right one for one more entry. -/
theorem Tier.ofSize_succ {n c : Nat} (h : Tier.ofSize n = .inline c) (hlt : n < c) :
    Tier.ofSize (n + 1) = .inline c := by
  obtain ⟨-, hfind⟩ := Tier.ofSize_eq_inline_iff.1 h
  obtain ⟨-, before, after, hsizes, hbefore⟩ := List.find?_eq_some_iff_append.1 hfind
  refine Tier.ofSize_eq_inline_iff.2 ⟨Nat.succ_pos n, ?_⟩
  refine List.find?_eq_some_iff_append.2 ⟨decide_eq_true hlt, before, after, hsizes, ?_⟩
  intro b hb
  have hnot := hbefore b hb
  simp at hnot ⊢
  omega

/-! ### The columns of inline storage -/

section Columns

variable {es : List (String × Value)} {k : String}

/-- Two columns of one length come from a list of entries. -/
theorem exists_columns {ks : List String} {vs : List Value} (h : ks.length = vs.length) :
    ∃ es : List (String × Value), ks = es.map Prod.fst ∧ vs = es.map Prod.snd :=
  ⟨ks.zip vs, (List.map_fst_zip (Nat.le_of_eq h)).symm,
    (List.map_snd_zip (Nat.le_of_eq h.symm)).symm⟩

theorem zip_columns (es : List (String × Value)) :
    (es.map Prod.fst).zip (es.map Prod.snd) = es :=
  (List.zip_of_prod rfl rfl).symm

theorem get?_columns (es : List (String × Value)) (k : String) :
    (((es.map Prod.fst).idxOf? k).bind fun i => (es.map Prod.snd)[i]?) = findPair k es := by
  induction es with
  | nil => rfl
  | cons e es ih =>
      rw [List.map_cons, List.idxOf?_cons, findPair, ← ih]
      by_cases he : e.1 = k
      · simp [he]
      · cases hi : (es.map Prod.fst).idxOf? k with
        | none => simp [he]
        | some i => simp [he]

theorem set_columns {i : Nat} (h : (es.map Prod.fst).idxOf? k = some i) (v : Value) :
    (es.map Prod.fst).zip ((es.map Prod.snd).set i v) = insertPair k v es := by
  induction es generalizing i with
  | nil => simp at h
  | cons e es ih =>
      rw [List.map_cons, List.idxOf?_cons] at h
      by_cases he : e.1 = k
      · rw [if_pos (by simpa using he)] at h
        obtain rfl := Option.some_inj.1 h
        rw [insertPair, if_pos he, List.map_cons, List.map_cons, List.set_cons_zero,
          List.zip_cons_cons, zip_columns, he]
      · rw [if_neg (by simpa using he)] at h
        obtain ⟨j, hj, rfl⟩ := Option.map_eq_some_iff.1 h
        rw [insertPair, if_neg he, List.map_cons, List.map_cons, List.set_cons_succ,
          List.zip_cons_cons, ih hj]

/-- Without the entry at the position of a key, only the other keys are left. -/
theorem swapErase_perm (hn : (es.map Prod.fst).Nodup) {i : Nat}
    (h : (es.map Prod.fst).idxOf? k = some i) :
    (swapErase es i).Perm (es.filter fun e => e.1 ≠ k) := by
  obtain ⟨hkeys, hi, -⟩ := List.findIdx?_eq_some_iff_getElem.1 h
  have hlt : i < es.length := by simpa using hkeys
  have hik : es[i].1 = k := by simpa using hi
  have hperm := getElem_cons_swapErase_perm hlt
  have hrest := List.nodup_cons.1 ((hperm.map Prod.fst).nodup_iff.2 hn)
  have hfilter := hperm.filter fun e => decide (e.1 ≠ k)
  rw [List.filter_cons_of_neg (by simpa using hik),
    KeyedList.filter_ne_eq_self (hik ▸ hrest.1)] at hfilter
  exact hfilter

end Columns

/-! ### The invariant -/

/-- No key comes twice, the storage is in the right tier, and inline storage has a value for every
key. -/
structure WellFormed (d : Dictionary) : Prop where
  nodup : d.keys.Nodup
  tier_eq : d.tier = Tier.ofSize d.size
  columns : ∀ c ks vs, d = inline c ks vs → ks.length = vs.length

variable {d : Dictionary}

theorem size_eq_length (h : ∀ c ks vs, d = inline c ks vs → ks.length = vs.length) :
    d.size = d.entries.length := by
  cases d with
  | empty => rfl
  | inline c ks vs =>
      rw [size, entries, List.length_zip, ← h c ks vs rfl, Nat.min_self]
  | map table => rfl

theorem WellFormed.size_eq (h : d.WellFormed) : d.size = d.entries.length :=
  size_eq_length h.columns

theorem WellFormed.size_eq_length_keys (h : d.WellFormed) : d.size = d.keys.length := by
  rw [h.size_eq, keys, List.length_map]

theorem WellFormed.empty : WellFormed .empty where
  nodup := List.nodup_nil
  tier_eq := rfl
  columns c ks vs hd := by cases hd

theorem WellFormed.eq_empty_iff (h : d.WellFormed) : d = .empty ↔ d.entries = [] := by
  refine ⟨fun hd => hd ▸ rfl, fun hnil => ?_⟩
  have htier := h.tier_eq
  rw [h.size_eq, hnil] at htier
  cases d with
  | empty => rfl
  | inline c ks vs => cases htier
  | map table => cases htier

/-- **Looking up a key is looking it up in the entries.** -/
theorem WellFormed.get?_eq (h : d.WellFormed) (k : String) : d.get? k = findPair k d.entries := by
  cases d with
  | empty => rfl
  | inline c ks vs =>
      obtain ⟨es, rfl, rfl⟩ := exists_columns (h.columns c ks vs rfl)
      rw [get?, entries, zip_columns]
      exact get?_columns es k
  | map table => rfl

theorem WellFormed.get?_eq_some_iff (h : d.WellFormed) {k : String} {v : Value} :
    d.get? k = some v ↔ (k, v) ∈ d.entries := by
  rw [h.get?_eq]
  exact KeyedList.findPair_eq_some_iff h.nodup

theorem WellFormed.get?_eq_none_iff (h : d.WellFormed) {k : String} :
    d.get? k = none ↔ k ∉ d.keys := by
  rw [h.get?_eq]
  exact KeyedList.findPair_eq_none_iff

theorem WellFormed.mem_keys_iff (h : d.WellFormed) {k : String} :
    k ∈ d.keys ↔ ∃ v, d.get? k = some v := by
  rw [← Option.isSome_iff_exists, h.get?_eq]
  exact KeyedList.isSome_findPair_iff.symm

/-! ### Storing entries -/

theorem entries_ofEntries (es : List (String × Value)) : (ofEntries es).entries = es := by
  rw [ofEntries]
  split
  · next hempty =>
      exact (List.eq_nil_of_length_eq_zero (Tier.ofSize_eq_empty_iff.1 hempty)).symm
  · exact zip_columns es
  · rfl

theorem WellFormed.ofEntries {es : List (String × Value)} (h : (es.map Prod.fst).Nodup) :
    (ofEntries es).WellFormed := by
  have hcolumns : ∀ c ks vs, Dictionary.ofEntries es = inline c ks vs →
      ks.length = vs.length := by
    intro c ks vs hd
    rw [Dictionary.ofEntries] at hd
    split at hd
    · cases hd
    · cases hd
      rw [List.length_map, List.length_map]
    · cases hd
  refine ⟨?_, ?_, hcolumns⟩
  · rw [keys, entries_ofEntries]
    exact h
  · rw [size_eq_length hcolumns, entries_ofEntries, Dictionary.ofEntries]
    split
    · next htier => exact htier.symm
    · next htier => exact htier.symm
    · next htier => exact htier.symm

/-! ### Setting a key -/

/-- **Setting a key sets it in the entries.** -/
theorem entries_insert (h : d.WellFormed) (k : String) (v : Value) :
    (d.insert k v).entries = insertPair k v d.entries := by
  cases d with
  | empty => exact entries_ofEntries [(k, v)]
  | inline c ks vs =>
      obtain ⟨es, rfl, rfl⟩ := exists_columns (h.columns c ks vs rfl)
      rw [entries, zip_columns, insert]
      cases hi : (es.map Prod.fst).idxOf? k with
      | some i => exact set_columns hi v
      | none =>
          have hnew : k ∉ es.map Prod.fst := by simpa using hi
          rw [KeyedList.insertPair_of_not_mem hnew]
          dsimp only
          split
          · have hmap := zip_columns (es ++ [(k, v)])
            rwa [List.map_append, List.map_append] at hmap
          · rw [entries_ofEntries, zip_columns]
  | map table => rfl

/-- **Setting a key keeps the invariant.** -/
theorem WellFormed.insert (h : d.WellFormed) (k : String) (v : Value) :
    (d.insert k v).WellFormed := by
  have hnodup : (d.insert k v).keys.Nodup := by
    rw [keys, entries_insert h]
    exact KeyedList.nodup_insertPair h.nodup k v
  cases d with
  | empty =>
      have hone : ([(k, v)].map Prod.fst).Nodup := List.pairwise_singleton _ k
      exact WellFormed.ofEntries hone
  | inline c ks vs =>
      have hlen := h.columns c ks vs rfl
      rw [Dictionary.insert] at hnodup ⊢
      cases hi : ks.idxOf? k with
      | some i =>
          rw [hi] at hnodup
          refine ⟨hnodup, h.tier_eq, ?_⟩
          rintro c' ks' vs' ⟨⟩
          rw [List.length_set]
          exact hlen
      | none =>
          rw [hi] at hnodup
          dsimp only at hnodup ⊢
          by_cases hroom : ks.length < c
          · rw [if_pos hroom] at hnodup ⊢
            refine ⟨hnodup, ?_, ?_⟩
            · rw [size, List.length_append]
              exact (Tier.ofSize_succ h.tier_eq.symm hroom).symm
            · rintro c' ks' vs' ⟨⟩
              rw [List.length_append, List.length_append, hlen]
              rfl
          · rw [if_neg hroom] at hnodup ⊢
            rw [keys, entries_ofEntries] at hnodup
            exact WellFormed.ofEntries hnodup
  | map table =>
      refine ⟨hnodup, ?_, fun c ks vs hd => by cases hd⟩
      have hsize := Tier.ofSize_eq_map_iff.1 h.tier_eq.symm
      have hgrow : table.size ≤ (table.insert k v).size := by
        rw [KeyedList.size_eq_length_keys, KeyedList.size_eq_length_keys]
        exact KeyedList.length_keys_le_insert table k v
      refine (Tier.ofSize_eq_map_iff.2 ?_).symm
      rw [size] at hsize
      rw [Dictionary.insert, size]
      omega

/-- Setting a key changes the answer for that key only. -/
theorem get?_insert (h : d.WellFormed) (k l : String) (v : Value) :
    (d.insert k v).get? l = if k = l then some v else d.get? l := by
  rw [(h.insert k v).get?_eq, entries_insert h, KeyedList.findPair_insertPair, h.get?_eq]

/-! ### Removing a key -/

theorem entries_settle (d : Dictionary) : d.settle.entries = d.entries := by
  rw [settle]
  split
  · rfl
  · exact entries_ofEntries _

/-- **Whatever tier entries are stored in, they end up in the right one.** -/
theorem WellFormed.settle (hn : d.keys.Nodup)
    (hc : ∀ c ks vs, d = inline c ks vs → ks.length = vs.length) : d.settle.WellFormed := by
  rw [Dictionary.settle]
  split
  · next htier => exact ⟨hn, htier, hc⟩
  · exact WellFormed.ofEntries hn

/-- What removing a key that is there leaves: the dictionary before its storage is settled. -/
theorem WellFormed.erase?_cases (h : d.WellFormed) (k : String) :
    (k ∉ d.keys ∧ d.erase? k = none) ∨
    ∃ rest : Dictionary, k ∈ d.keys ∧ d.erase? k = some rest.settle ∧
      rest.entries.Perm (d.entries.filter fun e => e.1 ≠ k) ∧
      ∀ c ks vs, rest = inline c ks vs → ks.length = vs.length := by
  cases d with
  | empty => exact .inl ⟨List.not_mem_nil, rfl⟩
  | inline c ks vs =>
      obtain ⟨es, rfl, rfl⟩ := exists_columns (h.columns c ks vs rfl)
      have hn := h.nodup
      rw [keys, entries, zip_columns] at hn ⊢
      rw [erase?]
      cases hi : (es.map Prod.fst).idxOf? k with
      | none => exact .inl ⟨by simpa using hi, rfl⟩
      | some i =>
          have hin : k ∈ es.map Prod.fst := by
            rw [← List.isSome_idxOf?, hi]
            rfl
          refine .inr ⟨_, hin, rfl, ?_, ?_⟩
          · rw [map_swapErase, map_swapErase, entries, zip_columns]
            exact swapErase_perm hn hi
          · rintro c' ks' vs' ⟨⟩
            rw [length_swapErase, length_swapErase, List.length_map, List.length_map]
  | map table =>
      rw [erase?]
      by_cases hk : table.contains k = true
      · rw [if_pos hk]
        exact .inr ⟨_, KeyedList.contains_iff.1 hk, rfl, List.Perm.refl _, fun c ks vs hd => by
          cases hd⟩
      · rw [if_neg hk]
        exact .inl ⟨fun hin => hk (KeyedList.contains_iff.2 hin), rfl⟩

/-- Removing an absent key answers the dictionary itself. -/
theorem WellFormed.erase?_eq_none_iff (h : d.WellFormed) {k : String} :
    d.erase? k = none ↔ k ∉ d.keys := by
  rcases h.erase?_cases k with ⟨hk, hnone⟩ | ⟨rest, hk, hsome, -⟩
  · simp [hk, hnone]
  · simp [hk, hsome]

/-- **Removing a key leaves the entries of the others.** -/
theorem entries_erase_perm (h : d.WellFormed) (k : String) :
    (d.erase k).entries.Perm (d.entries.filter fun e => e.1 ≠ k) := by
  rcases h.erase?_cases k with ⟨hk, hnone⟩ | ⟨rest, -, hsome, hperm, -⟩
  · rw [erase, hnone, KeyedList.filter_ne_eq_self hk]
    exact List.Perm.refl _
  · rw [erase, hsome, Option.getD_some, entries_settle]
    exact hperm

/-- **Removing a key keeps the invariant.** -/
theorem WellFormed.erase (h : d.WellFormed) (k : String) : (d.erase k).WellFormed := by
  rcases h.erase?_cases k with ⟨-, hnone⟩ | ⟨rest, -, hsome, hperm, hcolumns⟩
  · rw [Dictionary.erase, hnone]
    exact h
  · rw [Dictionary.erase, hsome]
    refine WellFormed.settle ?_ hcolumns
    exact (hperm.map Prod.fst).nodup_iff.2 (KeyedList.nodup_filter h.nodup _)

/-- Removing a key changes the answer for that key only. -/
theorem get?_erase (h : d.WellFormed) (k l : String) :
    (d.erase k).get? l = if k = l then none else d.get? l := by
  rw [(h.erase k).get?_eq, KeyedList.findPair_perm (h.erase k).nodup (entries_erase_perm h k),
    KeyedList.findPair_filter, h.get?_eq]

end Dictionary

end GraphIndex
