/-
**Dictionaries from entries, and finite maps.**  A dictionary is made of a list of entries by setting them
one after the other, and a finite map is made of a dictionary by forgetting how it is stored.

The last entry of a key counts, and the order of entries with different keys does not matter: it decides
how the dictionary is stored, but neither what its keys have nor its tier.  A finite map has no order at
all, so it can be turned into a dictionary in many ways.  All of them lead back to it, and a dictionary
that has been turned into a map comes back with the same contents in the same tier.

Main definitions:

* `Dictionary.Image` — the keys and the tier of one dictionary, with something done to the values.

Main results:

* `Dictionary.get?_ofList` — the last entry of a key counts;
* `Dictionary.WellFormed.image_ofList` — **the order in which entries are set does not matter**;
* `Dictionary.WellFormed.getElem?_toMap`, `Dictionary.WellFormed.toList_toMap_perm` — what the map of a
  dictionary has;
* `Dictionary.toMap_ofList` — **a map comes back from a dictionary**, in whatever order it is enumerated.
-/
import GraphIndex.Proofs.Dictionary.Run
import Mathlib.Data.List.Induction
import Mathlib.Data.List.Nodup
import Std.Data.ExtTreeMap.Lemmas

set_option autoImplicit false

namespace GraphIndex

namespace Dictionary

variable {d : Dictionary} {es : List (String × Value)}

/-! ### Setting entries one after the other -/

theorem WellFormed.ofList (es : List (String × Value)) : (ofList es).WellFormed :=
  (represents_run es []).wellFormed

theorem ofList_append (es : List (String × Value)) (e : String × Value) :
    Dictionary.ofList (es ++ [e]) = (Dictionary.ofList es).insert e.1 e.2 := by
  rw [Dictionary.ofList, List.foldl_append]
  rfl

/-- Entries with different keys stay in their order. -/
theorem entries_ofList (h : (es.map Prod.fst).Nodup) : (Dictionary.ofList es).entries = es := by
  induction es using List.reverseRecOn with
  | nil => rfl
  | append_singleton es e ih =>
      rw [List.map_append, List.map_singleton] at h
      have hnew : e.1 ∉ es.map Prod.fst := by
        intro hmem
        exact (List.nodup_append.1 h).2.2 _ hmem _ List.mem_cons_self rfl
      have hes := ih (List.nodup_append.1 h).1
      rw [ofList_append, entries_insert (WellFormed.ofList es), hes,
        KeyedList.insertPair_of_not_mem hnew]

/-- A dictionary is determined by its entries. -/
theorem WellFormed.eq_of_entries {e : Dictionary} (hd : d.WellFormed) (he : e.WellFormed)
    (h : d.entries = e.entries) : d = e := by
  have htier : d.tier = e.tier := by
    rw [hd.tier_eq, he.tier_eq, hd.size_eq, he.size_eq, h]
  cases d with
  | empty =>
      cases e with
      | empty => rfl
      | inline c ks vs => cases htier
      | map table => cases htier
  | inline c ks vs =>
      cases e with
      | empty => cases htier
      | inline c' ks' vs' =>
          obtain rfl := Tier.inline.inj htier
          obtain ⟨es, rfl, rfl⟩ := exists_columns (hd.columns c ks vs rfl)
          obtain ⟨es', rfl, rfl⟩ := exists_columns (he.columns c ks' vs' rfl)
          rw [entries, entries, zip_columns, zip_columns] at h
          rw [h]
      | map table => cases htier
  | map table =>
      cases e with
      | empty => cases htier
      | inline c ks vs => cases htier
      | map table' => exact congrArg (fun ps => map ⟨ps⟩) h

theorem mem_keys_ofList {k : String} : k ∈ (Dictionary.ofList es).keys ↔ k ∈ es.map Prod.fst := by
  induction es using List.reverseRecOn with
  | nil => exact Iff.rfl
  | append_singleton es e ih =>
      rw [ofList_append, keys, entries_insert (WellFormed.ofList es), KeyedList.keys_insertPair,
        List.map_append, List.mem_append, ← ih, keys]
      split
      · next hmem =>
          refine ⟨.inl, fun h => h.elim id fun hk => ?_⟩
          obtain rfl := List.mem_singleton.1 hk
          exact hmem
      · exact List.mem_append

/-- **The last entry of a key counts.** -/
theorem get?_ofList (es : List (String × Value)) (k : String) :
    (Dictionary.ofList es).get? k = ((es.filter fun e => e.1 = k).getLast?).map Prod.snd := by
  refine ((represents_run es []).get?_eq k).trans ?_
  have hkey : (fun c => decide (Change.key? c = some k)) ∘ (fun e : String × Value => .set e.1 e.2) =
      fun e => decide (e.1 = k) := by
    funext e
    simp [Change.key?]
  rw [history, List.append_nil, lastValue?, List.filter_map, hkey, List.getLast?_map]
  cases (es.filter fun e => decide (e.1 = k)).getLast? with
  | none => rfl
  | some e => rfl

/-! ### The order of entries -/

/-- The second dictionary has the keys of the first one, in the same tier, with something done to
their values. -/
structure Image (f : Value → Value) (d d' : Dictionary) : Prop where
  get?_eq : ∀ k, d'.get? k = (d.get? k).map f
  entries_perm : d'.entries.Perm (d.entries.map fun e => (e.1, f e.2))
  size_eq : d'.size = d.size
  tier_eq : d'.tier = d.tier

theorem Image.trans_id {f : Value → Value} {d d' d'' : Dictionary} (h : Image f d d')
    (h' : Image id d' d'') : Image f d d'' where
  get?_eq k := by rw [h'.get?_eq, Option.map_id, id, h.get?_eq]
  entries_perm := by
    have hperm := h'.entries_perm
    rw [show (d'.entries.map fun e => (e.1, id e.2)) = d'.entries from List.map_id _] at hperm
    exact hperm.trans h.entries_perm
  size_eq := h'.size_eq.trans h.size_eq
  tier_eq := h'.tier_eq.trans h.tier_eq

/-- **The order in which entries are set does not matter.** -/
theorem WellFormed.image_ofList (hd : d.WellFormed) {order : List (String × Value)}
    (h : order.Perm d.entries) (f : Value → Value) :
    Image f d (Dictionary.ofList (order.map fun e => (e.1, f e.2))) := by
  have hkeys : (order.map fun e => (e.1, f e.2)).map Prod.fst = order.map Prod.fst := by
    rw [List.map_map]
    rfl
  have hnodup : ((order.map fun e => (e.1, f e.2)).map Prod.fst).Nodup := by
    rw [hkeys]
    exact (h.map Prod.fst).nodup_iff.2 hd.nodup
  have hwf := WellFormed.ofList (order.map fun e => (e.1, f e.2))
  have hentries := entries_ofList hnodup
  have hsize : (Dictionary.ofList (order.map fun e => (e.1, f e.2))).size = d.size := by
    rw [hwf.size_eq, hentries, List.length_map, hd.size_eq, h.length_eq]
  refine ⟨fun k => ?_, ?_, hsize, ?_⟩
  · ext v
    rw [hwf.get?_eq_some_iff, hentries, List.mem_map, Option.map_eq_some_iff]
    constructor
    · rintro ⟨⟨k', w⟩, hmem, heq⟩
      obtain ⟨rfl, rfl⟩ := Prod.mk.inj heq
      exact ⟨w, hd.get?_eq_some_iff.2 (h.mem_iff.1 hmem), rfl⟩
    · rintro ⟨w, hw, rfl⟩
      exact ⟨(k, w), h.mem_iff.2 (hd.get?_eq_some_iff.1 hw), rfl⟩
  · rw [hentries]
    exact h.map _
  · rw [hwf.tier_eq, hsize, hd.tier_eq]

/-! ### Finite maps -/

/-- A map has the entries that the dictionary has. -/
theorem WellFormed.getElem?_toMap (hd : d.WellFormed) (k : String) : d.toMap[k]? = d.get? k := by
  have hdistinct : d.entries.Pairwise fun a b => ¬Text.compare a.1 b.1 = .eq :=
    (List.pairwise_map.1 hd.nodup).imp fun hne heq => hne (Std.LawfulEqCmp.eq_of_compare heq)
  rw [toMap]
  cases hk : d.get? k with
  | none =>
      refine Std.ExtTreeMap.getElem?_ofList_of_contains_eq_false ?_
      rw [← Bool.not_eq_true, List.contains_iff_mem]
      exact hd.get?_eq_none_iff.1 hk
  | some v =>
      exact Std.ExtTreeMap.getElem?_ofList_of_mem Std.ReflCmp.compare_self hdistinct
        (hd.get?_eq_some_iff.1 hk)

theorem nodup_keys_toList (m : Std.ExtTreeMap String Value Text.compare) :
    (m.toList.map Prod.fst).Nodup := by
  refine List.pairwise_map.2 (m.distinct_keys_toList.imp fun hne heq => hne ?_)
  rw [heq]
  exact Std.ReflCmp.compare_self

theorem WellFormed.toList_toMap_perm (hd : d.WellFormed) : d.toMap.toList.Perm d.entries := by
  refine (List.perm_ext_iff_of_nodup (List.Nodup.of_map _ (nodup_keys_toList _))
    (List.Nodup.of_map _ hd.nodup)).2 fun e => ?_
  rw [Std.ExtTreeMap.mem_toList_iff_getElem?_eq_some, hd.getElem?_toMap, hd.get?_eq_some_iff]

/-- **A map comes back from a dictionary**, in whatever order it is enumerated. -/
theorem toMap_ofList {m : Std.ExtTreeMap String Value Text.compare}
    (h : es.Perm m.toList) : (Dictionary.ofList es).toMap = m := by
  have hnodup : (es.map Prod.fst).Nodup := (h.map Prod.fst).nodup_iff.2 (nodup_keys_toList m)
  refine Std.ExtTreeMap.ext_toList ((WellFormed.ofList es).toList_toMap_perm.trans ?_)
  rwa [entries_ofList hnodup]

/-- A dictionary comes back from its map, in whatever order the map is enumerated. -/
theorem WellFormed.image_ofMap (hd : d.WellFormed) (h : es.Perm d.toMap.toList) :
    Image id d (Dictionary.ofList es) := by
  have himage := hd.image_ofList (h.trans hd.toList_toMap_perm) id
  rwa [show (es.map fun e => (e.1, id e.2)) = es from List.map_id es] at himage

end Dictionary

end GraphIndex
