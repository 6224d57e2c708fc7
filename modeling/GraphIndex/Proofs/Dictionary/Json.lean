/-
**Dictionaries as JSON text.**  A dictionary is read back from its text, in whatever order its members are
written, and an object is read if all its members are values.

Reading sets the members of an object in a finite map, one after the other, and then makes a dictionary of
the map.  So the last member of a name counts, and neither the order of members with different names nor
the order in which the map is enumerated changes the result.  All values are read back as they were,
except that a number that is not finite comes back as a null; so what has once been read stays as it is
when it is written and read again.  All this is said of every text layer that keeps the laws.

Main definitions:

* `Dictionary.textOf` — the text of an object with given entries.

Main results:

* `Dictionary.mapOfEntries_eq` — entries make the same map as the dictionary of them;
* `Dictionary.get?_of_members` — the last member of a name counts;
* `Dictionary.WellFormed.image_ofText?` — **a dictionary is read back from its text**;
* `Dictionary.text_round_trips` — both directions together.
-/
import GraphIndex.Dictionary.Json
import GraphIndex.Proofs.Dictionary.Entries
import GraphIndex.Proofs.Value.Json
import Mathlib.Data.Finset.Card
import Mathlib.Data.Finset.Dedup

set_option autoImplicit false

namespace GraphIndex

namespace Dictionary

variable {d : Dictionary} {es : List (String × Value)}

/-! ### Entries in a finite map -/

/-- **Entries make the same map as the dictionary of them.** -/
theorem mapOfEntries_eq (es : List (String × Value)) :
    mapOfEntries es = (Dictionary.ofList es).toMap := by
  induction es using List.reverseRecOn with
  | nil => rfl
  | append_singleton es e ih =>
      have hstep : mapOfEntries (es ++ [e]) = (mapOfEntries es).insert e.1 e.2 := by
        rw [mapOfEntries, List.foldl_append]
        rfl
      refine Std.ExtTreeMap.ext_getElem? fun k => ?_
      rw [hstep, ih, Std.ExtTreeMap.getElem?_insert, (WellFormed.ofList es).getElem?_toMap,
        (WellFormed.ofList (es ++ [e])).getElem?_toMap, ofList_append,
        get?_insert (WellFormed.ofList es)]
      simp only [Std.LawfulEqCmp.compare_eq_iff_eq]

/-- A dictionary made of a map has what the entries of the map say. -/
theorem image_ofMapOfEntries (order : MapOrder) (es : List (String × Value)) :
    Image id (Dictionary.ofList es) (Dictionary.ofList (order.entries (mapOfEntries es))) := by
  rw [mapOfEntries_eq]
  exact (WellFormed.ofList es).image_ofMap (order.perm _)

/-- The map of the entries of a dictionary is its map. -/
theorem WellFormed.mapOfEntries_entries (hd : d.WellFormed) : mapOfEntries d.entries = d.toMap := by
  rw [mapOfEntries_eq, (WellFormed.ofList _).eq_of_entries hd (entries_ofList hd.nodup)]

/-! ### Writing and reading -/

variable {c : Json.Codec}

/-- The text of an object with the given entries. -/
def textOf (c : Json.Codec) (es : List (String × Value)) : String :=
  c.render (.object (es.map fun e => (e.1, e.2.toJson c)))

/-- Every text of entries is read. -/
theorem ofText?_textOf (hc : c.Faithful) (order : MapOrder) (es : List (String × Value)) :
    ofText? c order (textOf c es) = some (Dictionary.ofList
      (order.entries (mapOfEntries (es.map fun e => (e.1, e.2.written))))) := by
  have hflat : ∀ m ∈ es.map (fun e => (e.1, e.2.toJson c)), m.2.Spelled False ∧ m.2.IsFlat := by
    intro m hm
    obtain ⟨e, -, rfl⟩ := List.mem_map.1 hm
    exact e.2.spelled_toJson hc
  have hread := hc.ofString?_render (fun m hm => (hflat m hm).2) (.object fun m hm => (hflat m hm).1)
  have hentries : entriesOfMembers? c (es.map fun e => (e.1, e.2.toJson c)) =
      some (es.map fun e => (e.1, e.2.written)) := by
    rw [entriesOfMembers?, mapM_eq_some_iff, List.forall₂_map_left_iff,
      List.forall₂_map_right_iff, List.forall₂_same]
    intro e _
    simp only [Value.ofJson?_toJson hc, Option.map_some]
  rw [ofText?, textOf, hread, Option.bind_some, ofJson?, hentries]
  rfl

/-- **A dictionary is read back from its text**, in whatever order its members are written. -/
theorem WellFormed.image_ofText? (hc : c.Faithful) (order : MapOrder) (hd : d.WellFormed)
    {es' : List (String × Value)} (h : es'.Perm d.entries) :
    ∃ d', ofText? c order (textOf c es') = some d' ∧ Image Value.written d d' :=
  ⟨_, ofText?_textOf hc order es',
    (hd.image_ofList h Value.written).trans_id (image_ofMapOfEntries order _)⟩

/-! ### Reading objects -/

section Objects

variable {members : List (String × Json)}

theorem member?_append (members : List (String × Json)) (m : String × Json) (k : String) :
    Json.member? k (members ++ [m]) = if m.1 = k then some m.2 else Json.member? k members := by
  induction members with
  | nil => rfl
  | cons first members ih =>
      rw [List.cons_append, Json.member?, ih, Json.member?]
      by_cases hm : m.1 = k
      · rw [if_pos hm, if_pos hm]
      · rw [if_neg hm, if_neg hm]

/-- **The last member of a name counts.** -/
theorem get?_of_members (h : entriesOfMembers? c members = some es) (k : String) :
    (Dictionary.ofList es).get? k = (Json.member? k members).bind (Value.ofJson? c) := by
  -- members are set from the first to the last, so the last one is taken off
  induction members using List.reverseRecOn generalizing es with
  | nil =>
      obtain rfl := Option.some_inj.1 h
      rfl
  | append_singleton members m ih =>
      rw [entriesOfMembers?, List.mapM_append] at h
      obtain ⟨before, hbefore, hrest⟩ := Option.bind_eq_some_iff.1 h
      obtain ⟨last, hlast, heq⟩ := Option.bind_eq_some_iff.1 hrest
      obtain rfl := Option.some_inj.1 heq
      rw [mapM_eq_some_iff] at hlast
      obtain ⟨e, _, he, hnil, rfl⟩ := List.forall₂_cons_left_iff.1 hlast
      obtain rfl := List.forall₂_nil_left_iff.1 hnil
      obtain ⟨v, hv, rfl⟩ := Option.map_eq_some_iff.1 he
      rw [ofList_append, get?_insert (WellFormed.ofList before), ih hbefore, member?_append]
      by_cases hm : m.1 = k
      · rw [if_pos hm, if_pos hm, Option.bind_some, hv]
      · rw [if_neg hm, if_neg hm]

/-- The entries have the names of the members. -/
theorem keys_of_members (h : entriesOfMembers? c members = some es) :
    es.map Prod.fst = members.map Prod.fst := by
  have hentries := mapM_eq_some_iff.1 h
  clear h
  induction hentries with
  | nil => rfl
  | @cons m e members es hm hrest ih =>
      obtain ⟨v, -, rfl⟩ := Option.map_eq_some_iff.1 hm
      rw [List.map_cons, List.map_cons, ih]

/-- There are as many keys as different names. -/
theorem size_of_members (h : entriesOfMembers? c members = some es) :
    (Dictionary.ofList es).size = (members.map Prod.fst).toFinset.card := by
  have hwf := WellFormed.ofList es
  have hkeys : (Dictionary.ofList es).keys.toFinset = (members.map Prod.fst).toFinset := by
    ext k
    rw [List.mem_toFinset, List.mem_toFinset, mem_keys_ofList, keys_of_members h]
  rw [hwf.size_eq_length_keys, ← hkeys, List.toFinset_card_of_nodup hwf.nodup]

/-- **An object is read** if all its members are values. -/
theorem isSome_entriesOfMembers?_iff :
    (entriesOfMembers? c members).isSome = true ↔ ∀ m ∈ members, m.2.IsValue c.Reads := by
  rw [entriesOfMembers?, isSome_mapM_iff]
  refine forall₂_congr fun m _ => ?_
  rw [Option.isSome_map, Value.isSome_ofJson?_iff]

/-- Nothing is lost of what was read. -/
theorem written_of_members (hc : c.Faithful) (h : entriesOfMembers? c members = some es)
    {e : String × Value} (he : e ∈ (Dictionary.ofList es).entries) : e.2.written = e.2 := by
  have hget := (WellFormed.ofList es).get?_eq_some_iff.2 he
  rw [get?_of_members h] at hget
  obtain ⟨j, -, hj⟩ := Option.bind_eq_some_iff.1 hget
  exact Value.written_of_ofJson? hc hj

end Objects

/-- What is not changed by writing stays as it is. -/
theorem map_written (hwritten : ∀ e ∈ d.entries, e.2.written = e.2) {es' : List (String × Value)}
    (h : es'.Perm d.entries) : (es'.map fun e => (e.1, e.2.written)) = es' :=
  (List.map_congr_left fun e he => by rw [hwritten e (h.mem_iff.1 he)]; rfl).trans (List.map_id _)

/-- So it is read back as it was, in whatever order it is written and read. -/
theorem WellFormed.image_ofText?_of_written (hc : c.Faithful) (order : MapOrder) (hd : d.WellFormed)
    (hwritten : ∀ e ∈ d.entries, e.2.written = e.2) {es' : List (String × Value)}
    (h : es'.Perm d.entries) :
    ∃ d', ofText? c order (textOf c es') = some d' ∧ Image id d d' := by
  have himage := hd.image_ofList h id
  have hread := ofText?_textOf hc order es'
  rw [map_written hwritten h] at hread
  rw [show (es'.map fun e => (e.1, id e.2)) = es' from List.map_id _] at himage
  exact ⟨_, hread, himage.trans_id (image_ofMapOfEntries order es')⟩

/-- What was made of a map in one order is the same when it is made of a map in this order again. -/
theorem ofText?_toText (hc : c.Faithful) (order : MapOrder) (es : List (String × Value))
    (hd : d = Dictionary.ofList (order.entries (mapOfEntries es)))
    (hwritten : ∀ e ∈ d.entries, e.2.written = e.2) :
    ofText? c order (d.toText c) = some d := by
  have hwf : d.WellFormed := hd ▸ WellFormed.ofList _
  have hmap : mapOfEntries d.entries = mapOfEntries es := by
    rw [hwf.mapOfEntries_entries, hd, toMap_ofList (order.perm _)]
  have hread := ofText?_textOf hc order d.entries
  rw [map_written hwritten (List.Perm.refl _), hmap, ← hd] at hread
  exact hread

/-- **Dictionaries and JSON texts stand for each other**, in every text layer that keeps the laws.
Every dictionary is read back from its text, with the same keys in the same tier and all values as they
were, except that a number that is not finite comes back as a null.  Neither the order in which its
members are written matters nor the order in which those of a map are enumerated.  Of all objects, those
are read that have only values for members, and numbers within the range of double precision are
values.  The last member of a name counts, there are as many keys as names, and what has been read is
read back unchanged when it is written. -/
theorem text_round_trips {c : Json.Codec} (hc : c.Faithful) (order : MapOrder) :
    (∀ es cs,
      (∃ d, ofText? c order ((run es cs).toText c) = some d ∧ Image Value.written (run es cs) d) ∧
      ∀ es', es'.Perm (run es cs).entries →
        ∃ d, ofText? c order (textOf c es') = some d ∧ Image Value.written (run es cs) d) ∧
    ∀ text members, c.ofString? text = some (.object members) →
      ((ofText? c order text).isSome = true ↔ ∀ m ∈ members, m.2.IsValue c.Reads) ∧
      ((∀ m ∈ members, m.2.IsValue Numeral.InRange) → (ofText? c order text).isSome = true) ∧
      ∀ d, ofText? c order text = some d →
        (∀ k, d.get? k = (Json.member? k members).bind (Value.ofJson? c)) ∧
        d.size = (members.map Prod.fst).toFinset.card ∧
        d.tier = Tier.ofSize d.size ∧
        ofText? c order (d.toText c) = some d ∧
        ∀ (again : MapOrder) es', es'.Perm d.entries →
          ∃ d', ofText? c again (textOf c es') = some d' ∧ Image id d d' := by
  refine ⟨fun es cs => ?_, fun text members htext => ?_⟩
  · have hwf := (represents_run es cs).wellFormed
    exact ⟨hwf.image_ofText? hc order (List.Perm.refl _), fun _ h => hwf.image_ofText? hc order h⟩
  · have hread : ofText? c order text = (entriesOfMembers? c members).map fun es =>
        Dictionary.ofList (order.entries (mapOfEntries es)) := by
      rw [ofText?, htext]
      rfl
    have hiff : (ofText? c order text).isSome = true ↔ ∀ m ∈ members, m.2.IsValue c.Reads := by
      rw [hread, Option.isSome_map, isSome_entriesOfMembers?_iff]
    refine ⟨hiff, fun hrange => hiff.2 fun m hm => ?_, fun d hd => ?_⟩
    · obtain - | - | - | - | - | hmembers | - := hc.spelled_of_ofString? htext
      exact (hrange m hm).reads hc (hmembers m hm)
    · rw [hread] at hd
      obtain ⟨es, hes, heq⟩ := Option.map_eq_some_iff.1 hd
      have himage : Image id (Dictionary.ofList es) d := heq ▸ image_ofMapOfEntries order es
      have hwf : d.WellFormed := heq ▸ WellFormed.ofList _
      have hwritten : ∀ e ∈ d.entries, e.2.written = e.2 := by
        intro e he
        obtain ⟨f, hf, rfl⟩ := List.mem_map.1 (himage.entries_perm.mem_iff.1 he)
        exact written_of_members hc hes hf
      refine ⟨fun k => ?_, himage.size_eq.trans (size_of_members hes), hwf.tier_eq,
        ofText?_toText hc order es heq.symm hwritten,
        fun again _ h => hwf.image_ofText?_of_written hc again hwritten h⟩
      rw [himage.get?_eq, Option.map_id, id, get?_of_members hes]

/-- A NaN comes back as a null; of two members of one name the last one counts, and a zero with a sign
keeps it. -/
theorem text_round_trips_of_numbers :
    let c := Json.Codec.shortest
    let order := MapOrder.sorted
    (∃ d, ofText? c order ((run [("x", .float .quietNaN)] [.set "y" (.bytes [])]).toText c) =
        some d ∧
      d.get? "x" = some .null ∧ d.get? "y" = some (.bytes []) ∧ d.tier = .inline 2) ∧
    ∃ text members d, c.ofString? text = some (.object members) ∧
      members = [("a", .number ⟨false, [1], [], none⟩), ("b", .array []),
        ("a", .number ⟨true, [0], [], none⟩)] ∧
      ofText? c order text = some d ∧ d.get? "a" = some (.float Binary64.zero.neg) ∧ d.size = 2 ∧
      ofText? c order (d.toText c) = some d := by
  intro c order
  obtain ⟨hruns, hobjects⟩ := text_round_trips Json.Codec.faithful_shortest order
  refine ⟨?_, ?_⟩
  · obtain ⟨⟨d, hd, himage⟩, -⟩ := hruns [("x", .float .quietNaN)] [.set "y" (.bytes [])]
    refine ⟨d, hd, (himage.get?_eq "x").trans ?_, (himage.get?_eq "y").trans ?_,
      himage.tier_eq.trans ?_⟩
    · decide +kernel
    · decide +kernel
    · decide +kernel
  · let members : List (String × Json) := [("a", .number ⟨false, [1], [], none⟩), ("b", .array []),
      ("a", .number ⟨true, [0], [], none⟩)]
    have hspelled : (Json.object members).Spelled False := by
      refine .object fun m hm => ?_
      simp only [members, List.mem_cons, List.not_mem_nil, or_false] at hm
      rcases hm with rfl | rfl | rfl
      · exact .number ⟨by decide, by decide, by simp⟩
      · exact .array nofun
      · exact .number ⟨by decide, by decide, by simp⟩
    have htext : c.ofString? (Json.object members).render = some (.object members) :=
      Json.ofString?_render hspelled
    obtain ⟨hiff, -, hread⟩ := hobjects _ _ htext
    have hvalues : ∀ m ∈ members, m.2.IsValue c.Reads := by
      intro m hm
      rw [← Value.isSome_ofJson?_iff]
      revert m
      decide +kernel
    obtain ⟨d, hd⟩ := Option.isSome_iff_exists.1 (hiff.2 hvalues)
    obtain ⟨hget, hsize, -, hagain, -⟩ := hread d hd
    refine ⟨_, members, d, htext, rfl, hd, (hget "a").trans ?_, hsize.trans ?_, hagain⟩
    · decide +kernel
    · decide +kernel

end Dictionary

end GraphIndex
