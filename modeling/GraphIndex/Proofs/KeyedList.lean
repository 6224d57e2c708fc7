/-
**Keyed lists without a repeated key.**  What setting and removing a key do to the pairs.

A look-up takes the first pair with the key, so as long as no key is repeated, the pairs of the list
and the answers of look-ups say the same.  Setting a key that is present exchanges its pair and
leaves the others where they are, a new key goes to the end, and neither way is a key repeated.

Main results:

* `KeyedList.findPair_eq_some_iff` — a look-up finds the pairs of the list;
* `KeyedList.insertPair_of_mem`, `KeyedList.insertPair_of_not_mem` — the two ways of setting a key;
* `KeyedList.nodup_insert`, `KeyedList.nodup_erase` — **no change repeats a key**.
-/
import GraphIndex.KeyedList

set_option autoImplicit false

namespace GraphIndex

namespace KeyedList

variable {κ ν : Type} [DecidableEq κ]

theorem isSome_findPair_iff {k : κ} {ps : List (κ × ν)} :
    (findPair k ps).isSome = true ↔ k ∈ ps.map Prod.fst := by
  induction ps with
  | nil => simp [findPair]
  | cons p ps ih =>
      by_cases hp : p.1 = k
      · simp [findPair, hp]
      · simp [findPair, hp, ih, Ne.symm hp]

theorem findPair_eq_none_iff {k : κ} {ps : List (κ × ν)} :
    findPair k ps = none ↔ k ∉ ps.map Prod.fst := by
  rw [← isSome_findPair_iff, Option.not_isSome_iff_eq_none]

omit [DecidableEq κ] in
theorem ne_of_not_mem_keys {k : κ} {ps : List (κ × ν)} (h : k ∉ ps.map Prod.fst) {p : κ × ν}
    (hp : p ∈ ps) : p.1 ≠ k := by
  rintro rfl
  exact h (List.mem_map_of_mem hp)

/-- Removing a key that is absent leaves the pairs as they are. -/
theorem filter_ne_eq_self {k : κ} {ps : List (κ × ν)} (h : k ∉ ps.map Prod.fst) :
    (ps.filter fun p => p.1 ≠ k) = ps :=
  List.filter_eq_self.2 fun _ hp => decide_eq_true (ne_of_not_mem_keys h hp)

/-- **A look-up finds the pairs of the list.** -/
theorem findPair_eq_some_iff {k : κ} {v : ν} {ps : List (κ × ν)} (h : (ps.map Prod.fst).Nodup) :
    findPair k ps = some v ↔ (k, v) ∈ ps := by
  refine ⟨mem_of_findPair_eq_some, fun hmem => ?_⟩
  induction ps with
  | nil => simp at hmem
  | cons p ps ih =>
      rw [List.map_cons, List.nodup_cons] at h
      rcases List.mem_cons.1 hmem with rfl | hps
      · simp [findPair]
      · have hne : p.1 ≠ k := (ne_of_not_mem_keys h.1 hps).symm
        rw [findPair, if_neg hne]
        exact ih h.2 hps

/-- The order of the pairs does not matter. -/
theorem findPair_perm {k : κ} {ps qs : List (κ × ν)} (h : (ps.map Prod.fst).Nodup)
    (p : ps.Perm qs) : findPair k ps = findPair k qs := by
  ext v
  rw [findPair_eq_some_iff h, findPair_eq_some_iff ((p.map Prod.fst).nodup_iff.1 h), p.mem_iff]

/-- A new key goes to the end. -/
theorem insertPair_of_not_mem {k : κ} {ps : List (κ × ν)} (h : k ∉ ps.map Prod.fst) (v : ν) :
    insertPair k v ps = ps ++ [(k, v)] := by
  induction ps with
  | nil => rfl
  | cons p ps ih =>
      rw [List.map_cons, List.mem_cons, not_or] at h
      rw [insertPair, if_neg (Ne.symm h.1), ih h.2, List.cons_append]

/-- Setting a key that is present exchanges its pair and leaves the others where they are. -/
theorem insertPair_of_mem {k : κ} {ps : List (κ × ν)} (h : k ∈ ps.map Prod.fst)
    (hn : (ps.map Prod.fst).Nodup) (v : ν) :
    insertPair k v ps = ps.map fun p => if p.1 = k then (k, v) else p := by
  induction ps with
  | nil => simp at h
  | cons p ps ih =>
      rw [List.map_cons, List.nodup_cons] at hn
      by_cases hp : p.1 = k
      · -- the key does not come again
        have hrest : ∀ q ∈ ps, q.1 ≠ k := fun q hq => ne_of_not_mem_keys (hp ▸ hn.1) hq
        have hsame : (ps.map fun q => if q.1 = k then (k, v) else q) = ps.map id :=
          List.map_congr_left fun q hq => if_neg (hrest q hq)
        rw [insertPair, if_pos hp, List.map_cons, if_pos hp, hsame, List.map_id]
      · have hmem : k ∈ ps.map Prod.fst := (List.mem_cons.1 h).resolve_left (Ne.symm hp)
        rw [insertPair, if_neg hp, List.map_cons, if_neg hp, ih hmem hn.2]

theorem keys_insertPair (k : κ) (v : ν) (ps : List (κ × ν)) :
    (insertPair k v ps).map Prod.fst =
      if k ∈ ps.map Prod.fst then ps.map Prod.fst else ps.map Prod.fst ++ [k] := by
  induction ps with
  | nil => rfl
  | cons p ps ih =>
      by_cases hp : p.1 = k
      · simp [insertPair, hp]
      · rw [insertPair, if_neg hp, List.map_cons, ih, List.map_cons]
        by_cases hmem : k ∈ ps.map Prod.fst
        · rw [if_pos hmem, if_pos (List.mem_cons_of_mem _ hmem)]
        · have hnot : k ∉ p.1 :: ps.map Prod.fst := by
            rw [List.mem_cons, not_or]
            exact ⟨Ne.symm hp, hmem⟩
          rw [if_neg hmem, if_neg hnot, List.cons_append]

/-- **Setting a key repeats none.** -/
theorem nodup_insertPair {ps : List (κ × ν)} (h : (ps.map Prod.fst).Nodup) (k : κ) (v : ν) :
    ((insertPair k v ps).map Prod.fst).Nodup := by
  rw [keys_insertPair]
  by_cases hmem : k ∈ ps.map Prod.fst
  · rwa [if_pos hmem]
  · rw [if_neg hmem]
    exact (List.perm_append_singleton k _).nodup_iff.2 (List.nodup_cons.2 ⟨hmem, h⟩)

omit [DecidableEq κ] in
theorem nodup_filter {ps : List (κ × ν)} (h : (ps.map Prod.fst).Nodup) (f : κ × ν → Bool) :
    ((ps.filter f).map Prod.fst).Nodup :=
  (List.filter_sublist.map Prod.fst).nodup h

variable {m : KeyedList κ ν}

theorem contains_iff {k : κ} : m.contains k = true ↔ k ∈ m.keys :=
  isSome_findPair_iff

theorem nodup_insert (h : m.keys.Nodup) (k : κ) (v : ν) : (m.insert k v).keys.Nodup :=
  nodup_insertPair h k v

omit [DecidableEq κ] in
theorem size_eq_length_keys : m.size = m.keys.length := by
  rw [size, keys, List.length_map]

theorem length_keys_le_insert (m : KeyedList κ ν) (k : κ) (v : ν) :
    m.keys.length ≤ (m.insert k v).keys.length := by
  rw [keys, keys, insert, keys_insertPair]
  split
  · exact Nat.le_refl _
  · rw [List.length_append]
    exact Nat.le_add_right _ _

theorem nodup_erase (h : m.keys.Nodup) (k : κ) : (m.erase k).keys.Nodup :=
  nodup_filter h _

end KeyedList

end GraphIndex
