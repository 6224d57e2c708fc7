/-
**An index as a map of filings.**  Whatever elements an index is given, it is a finite map from a key
and a number to the element that was filed under both.

Nothing is asked of the elements here: one number may come with different values and so be filed under
several keys, an element may be removed in a state in which it was never added, and deleted elements
may come as well.  Adding an element files it under its key and its number, unless it is deleted, has
no key, or something is filed there.  Removing it takes out what is filed there, deleted or not.  The
set under each key of the index represents the elements that the map holds under this key.

Main definitions:

* `Filings` — the map, with `Filings.file`, `Filings.withdraw` and `Filings.under`;
* `Index.Represents` — the index is a map of filings;
* `Index.Answers` — what can be asked of an index;
* `Index.Change`, `Index.run`, `filingsOf` — runs of an index, and the map after them.

Main results:

* `isFound_iff_state` — which elements an index finds, by their state and their value;
* `Filings.file_cases`, `Filings.under_file_perm` — what filing does to the map, and to the elements
  under a key;
* `Index.Represents.file`, `Index.Represents.withdraw` — **filing and withdrawing keep index and map
  together**;
* `Index.Represents.answers` — what can be asked has its answer in the map;
* `Index.run_answers_filings` — **after every run, nothing was refused and the answers are those of
  the map**.
-/
import GraphIndex.Proofs.Index.Invariant
import GraphIndex.Proofs.KeyedList

set_option autoImplicit false

namespace GraphIndex

variable {kind : ElementKind}

/-- For a key and a number, the element that was filed under both. -/
abbrev Filings (kind : ElementKind) : Type :=
  KeyedList (ValueKey × ElementId) (Element kind)

/-- An index on a property finds an active element by the key of its value. -/
theorem isFound_iff_state {e : Element kind} {name : String} {k : ValueKey} :
    e.isFound name k = true ↔
      e.state = .active ∧ (e.property? name).bind ValueKey.ofValue? = some k := by
  rw [isFound_iff, Element.keyFor?, Element.isDeleted]
  cases e.state <;> simp

namespace Filings

/-- An active element is filed by its value of a property, if that is present and has a key, unless
something is filed there. -/
def file (name : String) (m : Filings kind) (e : Element kind) : Filings kind :=
  match e.state, (e.property? name).bind ValueKey.ofValue? with
  | .active, some k => if m.contains (k, e.id) then m else m.insert (k, e.id) e
  | _, _ => m

/-- What is filed where an element would be is taken out, whatever its state. -/
def withdraw (name : String) (m : Filings kind) (e : Element kind) : Filings kind :=
  match (e.property? name).bind ValueKey.ofValue? with
  | none => m
  | some k => m.erase (k, e.id)

/-- The elements under a key. -/
def under (m : Filings kind) (k : ValueKey) : List (Element kind) :=
  (m.pairs.filter fun p => p.1.1 == k).map Prod.snd

/-- The keys under which something is filed. -/
def valueKeys (m : Filings kind) : List ValueKey :=
  (m.keys.map Prod.fst).eraseDups

variable {m : Filings kind}

theorem mem_under_iff {k : ValueKey} {e : Element kind} :
    e ∈ m.under k ↔ ∃ id, ((k, id), e) ∈ m.pairs := by
  rw [under, List.mem_map]
  constructor
  · rintro ⟨⟨⟨l, id⟩, f⟩, hp, rfl⟩
    obtain ⟨hmem, hl⟩ := List.mem_filter.1 hp
    obtain rfl : l = k := by simpa using hl
    exact ⟨id, hmem⟩
  · rintro ⟨id, hmem⟩
    exact ⟨((k, id), e), List.mem_filter.2 ⟨hmem, by simp⟩, rfl⟩

/-- Something is filed under the key of an element, with its number, if the map has the place. -/
theorem contains_under (hid : ∀ p ∈ m.pairs, p.2.id = p.1.2) (k : ValueKey) (e : Element kind) :
    (m.under k).contains e = m.contains (k, e.id) := by
  rw [Bool.eq_iff_iff, List.contains_iff_exists_mem_beq, KeyedList.contains_iff]
  constructor
  · rintro ⟨f, hf, hef⟩
    obtain ⟨id, hmem⟩ := mem_under_iff.1 hf
    obtain rfl : f.id = id := hid _ hmem
    have hsame : e.id = f.id := by simpa [BEq.beq] using hef
    rw [hsame]
    exact List.mem_map_of_mem hmem
  · intro hk
    obtain ⟨⟨place, f⟩, hmem, rfl⟩ := List.mem_map.1 hk
    refine ⟨f, mem_under_iff.2 ⟨e.id, hmem⟩, ?_⟩
    have hsame : f.id = e.id := hid _ hmem
    simp [BEq.beq, hsame]

theorem under_insert {k : ValueKey} {e : Element kind} (h : m.contains (k, e.id) = false)
    (l : ValueKey) : under (m.insert (k, e.id) e) l =
      if k = l then m.under k ++ [e] else m.under l := by
  have hnew : (k, e.id) ∉ m.pairs.map Prod.fst := by
    intro hk
    rw [KeyedList.contains_iff.2 hk] at h
    cases h
  rw [under, KeyedList.insert, KeyedList.insertPair_of_not_mem hnew, List.filter_append]
  by_cases hkl : k = l
  · simp [hkl, under]
  · simp [hkl, under]

theorem under_erase (hid : ∀ p ∈ m.pairs, p.2.id = p.1.2) (k l : ValueKey) (e : Element kind) :
    under (m.erase (k, e.id)) l = if k = l then without (m.under k) e else m.under l := by
  rw [under, KeyedList.erase, List.filter_filter]
  by_cases hkl : k = l
  · rw [if_pos hkl, under, without, List.filter_map, List.filter_filter, hkl]
    refine congrArg (List.map Prod.snd) (List.filter_congr fun p hp => ?_)
    -- with the key and the number of the element, that is at its place
    by_cases hpl : p.1.1 = l
    · by_cases hpe : p.1.2 = e.id
      · simp [BEq.beq, Prod.ext_iff, hid p hp, hpl, hpe]
      · simp [BEq.beq, Prod.ext_iff, hid p hp, hpl, hpe]
    · rw [beq_eq_false_iff_ne.2 hpl]
      simp
  · rw [if_neg hkl, under]
    refine congrArg (List.map Prod.snd) (List.filter_congr fun p _ => ?_)
    by_cases hpl : p.1.1 = l
    · simp [Prod.ext_iff, hpl, Ne.symm hkl]
    · simp [hpl]

/-- **Filing changes nothing, or fills the free place of an element that is to be found.** -/
theorem file_cases (name : String) (m : Filings kind) (e : Element kind) :
    (m.file name e = m ∧ ∀ k, e.isFound name k = true → m.contains (k, e.id) = true) ∨
      ∃ k, e.isFound name k = true ∧ m.contains (k, e.id) = false ∧
        m.file name e = m.insert (k, e.id) e := by
  simp only [file, isFound_iff_state]
  cases hstate : e.state with
  | removed => exact .inl ⟨rfl, fun k hk => nomatch hk.1⟩
  | active =>
      cases hkey : (e.property? name).bind ValueKey.ofValue? with
      | none => exact .inl ⟨rfl, fun k hk => nomatch hk.2⟩
      | some k =>
          cases hin : m.contains (k, e.id) with
          | true =>
              refine .inl ⟨by simp [hin], ?_⟩
              rintro l ⟨-, hl⟩
              rwa [← Option.some_inj.1 hl]
          | false => exact .inr ⟨k, ⟨rfl, rfl⟩, hin, by simp [hin]⟩

theorem nodup_file {name : String} {e : Element kind} (h : m.keys.Nodup) :
    (m.file name e).keys.Nodup := by
  rcases file_cases name m e with ⟨hsame, -⟩ | ⟨k, -, -, hnew⟩
  · rwa [hsame]
  · rw [hnew]
    exact KeyedList.nodup_insert h _ _

/-- What is filed was filed before, or it is the element, under its key and its number. -/
theorem mem_file {name : String} {e : Element kind} {p : (ValueKey × ElementId) × Element kind}
    (hp : p ∈ (m.file name e).pairs) :
    p ∈ m.pairs ∨ e.isFound name p.1.1 = true ∧ p = ((p.1.1, e.id), e) := by
  rcases file_cases name m e with ⟨hsame, -⟩ | ⟨k, hk, -, hnew⟩
  · rw [hsame] at hp
    exact .inl hp
  · rw [hnew] at hp
    rcases KeyedList.mem_insertPair hp with rfl | hp
    · exact .inr ⟨hk, rfl⟩
    · exact .inl hp

/-- Up to order, an element is inserted among those under the key by which it is found. -/
theorem under_file_perm (hid : ∀ p ∈ m.pairs, p.2.id = p.1.2) (name : String) (e : Element kind)
    (l : ValueKey) : (under (m.file name e) l).Perm
      (if e.isFound name l = true then (m.under l).insert e else m.under l) := by
  rcases file_cases name m e with ⟨hsame, htaken⟩ | ⟨k, hk, hfree, hnew⟩
  · rw [hsame]
    split
    · next hl => rw [List.insert, contains_under hid, htaken l hl, if_pos rfl]
    · exact .refl _
  · rw [hnew, under_insert hfree]
    by_cases hkl : k = l
    · subst hkl
      rw [if_pos rfl, if_pos hk,
        insert_of_contains_eq_false ((contains_under hid k e).trans hfree)]
      exact List.perm_append_singleton e _
    · rw [if_neg hkl, if_neg]
      -- an element is found by one key at most
      intro hl
      exact hkl (Option.some_inj.1 ((isFound_iff.1 hk).2.symm.trans (isFound_iff.1 hl).2))

end Filings

namespace Index

/-! ### Indexes and filings -/

/-- No place is filled twice, everything that is filed is at its place, and the set under each key
represents the elements that are filed under it. -/
structure Represents (ix : Index kind) (m : Filings kind) : Prop where
  nodup : m.keys.Nodup
  number : ∀ p ∈ m.pairs, p.2.id = p.1.2
  found : ∀ p ∈ m.pairs, p.2.isFound ix.key p.1.1 = true
  sets : ∀ k, CompactSet.Represents ix.entries[k]? (m.under k)

theorem Represents.ofKey (name : String) (owner : LockId) :
    Represents (ofKey name owner : Index kind) .empty where
  nodup := List.nodup_nil
  number _ hp := absurd hp List.not_mem_nil
  found _ hp := absurd hp List.not_mem_nil
  sets := Files.ofKey name owner

variable {ix : Index kind} {m : Filings kind}

/-- An element that is not to be filed changes nothing. -/
theorem Represents.of_entries (h : Represents ix m) {next : Index kind} (hkey : next.key = ix.key)
    (hentries : ∀ k : ValueKey, next.entries[k]? = ix.entries[k]?) : Represents next m where
  nodup := h.nodup
  number := h.number
  found p hp := by
    rw [hkey]
    exact h.found p hp
  sets k := by
    rw [hentries]
    exact h.sets k

/-- **Filing keeps index and map together.** -/
theorem Represents.file (h : Represents ix m) (e : Element kind) :
    Represents (ix.file e) (m.file ix.key e) := by
  have hkey := (file_fixed ix e).1
  refine ⟨Filings.nodup_file h.nodup, ?_, ?_, fun l => ?_⟩
  · intro p hp
    rcases Filings.mem_file hp with hold | ⟨-, hnew⟩
    · exact h.number p hold
    · rw [hnew]
  · intro p hp
    rw [hkey]
    rcases Filings.mem_file hp with hold | ⟨hfound, hnew⟩
    · exact h.found p hold
    · rwa [hnew]
  · have hunder := Filings.under_file_perm h.number ix.key e l
    rw [getElem?_file]
    split
    · next hfound =>
        rw [if_pos hfound] at hunder
        exact ((h.sets l).add e).of_perm hunder.symm
    · next hfound =>
        rw [if_neg hfound] at hunder
        exact (h.sets l).of_perm hunder.symm

/-- **Withdrawing keeps index and map together.** -/
theorem Represents.withdraw (h : Represents ix m) (e : Element kind) :
    Represents (ix.withdraw e) (m.withdraw ix.key e) := by
  have hkey := (withdraw_fixed ix e).1
  rw [Filings.withdraw, ← Element.keyFor?]
  cases hk : e.keyFor? ix.key with
  | none =>
      refine h.of_entries hkey fun l => ?_
      rw [getElem?_withdraw, hk, if_neg (by simp)]
  | some k =>
      have hsub : ∀ p ∈ (m.erase (k, e.id)).pairs, p ∈ m.pairs := fun p hp =>
        (List.mem_filter.1 hp).1
      refine ⟨KeyedList.nodup_erase h.nodup _, fun p hp => h.number p (hsub p hp), ?_, fun l => ?_⟩
      · intro p hp
        rw [hkey]
        exact h.found p (hsub p hp)
      · rw [getElem?_withdraw, hk, Filings.under_erase h.number]
        by_cases hl : k = l
        · rw [if_pos (by rw [hl]), if_pos hl, ← hl]
          exact (h.sets k).remove e
        · rw [if_neg (by simpa using hl), if_neg hl]
          exact h.sets l

theorem Represents.foldl_file (h : Represents ix m) (es : List (Element kind)) :
    Represents (es.foldl Index.file ix) (es.foldl (Filings.file ix.key) m) := by
  induction es generalizing ix m with
  | nil => exact h
  | cons e es ih =>
      have hstep := ih (h.file e)
      rwa [(file_fixed ix e).1] at hstep

/-! ### What can be asked -/

/-- What can be asked of an index has its answer in a map of filings. -/
structure Answers (ix : Index kind) (m : Filings kind) : Prop where
  nodup : m.keys.Nodup
  /-- There is a set under a key if something is filed there. -/
  exists_entry?_iff : ∀ k, (∃ s, ix.entry? k = some s) ↔ ∃ id e, m.get? (k, id) = some e
  /-- A value with a key yields one copy for each place under its key, of what is filed there. -/
  get_perm : ∀ v k, ValueKey.ofValue? v = some k → (ix.get v).Perm (m.under k)
  /-- A null yields nothing. -/
  get_of_no_key : ∀ v, ValueKey.ofValue? v = none → ix.get v = []
  /-- A value without a set under its key yields nothing. -/
  get_of_no_entry : ∀ v k, ValueKey.ofValue? v = some k → ix.entry? k = none → ix.get v = []
  /-- An element in a set is active, its own value has the key of the set, the index files it there,
  and it is what is filed there under its number. -/
  stored : ∀ k s e, ix.entry? k = some s → e ∈ s.toList →
    e.state = .active ∧ (e.property? ix.key).bind ValueKey.ofValue? = some k ∧
      ix.keyOf? e = some k ∧ m.get? (k, e.id) = some e
  size_eq : ix.size = m.size
  valueCount_eq : ix.valueCount = m.valueKeys.length
  /-- An index without sets is one without elements. -/
  isEmpty_iff : ix.isEmpty = true ↔ ix.size = 0

theorem Represents.entry?_eq_none_iff (h : Represents ix m) (k : ValueKey) :
    ix.entries[k]? = none ↔ ∀ p ∈ m.pairs, p.1.1 ≠ k := by
  rw [(h.sets k).eq_none_iff, Filings.under, List.map_eq_nil_iff, List.filter_eq_nil_iff]
  simp

theorem Represents.mem_valueKeys_iff (h : Represents ix m) (k : ValueKey) :
    k ∈ ix.entries.keys ↔ k ∈ m.keys.map Prod.fst := by
  rw [Std.TreeMap.mem_keys, ← Std.TreeMap.isSome_getElem?_iff_mem, ← Option.ne_none_iff_isSome,
    ne_eq, h.entry?_eq_none_iff]
  simp [KeyedList.keys]

theorem values_eq (ix : Index kind) : ix.entries.values = ix.entries.toList.map Prod.snd := by
  have hfold : ix.entries.values = ix.entries.foldr (fun _ s ss => s :: ss) [] := rfl
  rw [hfold, Std.TreeMap.foldr_eq_foldr_toList]
  induction ix.entries.toList with
  | nil => rfl
  | cons p ps ih => rw [List.foldr_cons, ih, List.map_cons]

/-- The sets hold together what is filed. -/
theorem Represents.flatMap_perm (h : Represents ix m) :
    (ix.entries.toList.flatMap fun p => p.2.toList).Perm (m.pairs.map Prod.snd) := by
  have hdistinct : Distinct (ix.entries.toList.map Prod.fst) := by
    rw [Std.TreeMap.map_fst_toList_eq_keys]
    exact Std.TreeMap.nodup_keys.imp fun hne => beq_eq_false_iff_ne.2 hne
  refine flatMap_groups_perm (fun p => p.1.1) hdistinct ?_ ?_
  · intro p hp
    have hperm := (h.sets p.1).perm
    rwa [Std.TreeMap.mem_toList_iff_getElem?_eq_some.1 hp, CompactSet.toList_view] at hperm
  · intro p hp
    have hkey : p.1.1 ∈ ix.entries.toList.map Prod.fst := by
      rw [Std.TreeMap.map_fst_toList_eq_keys, h.mem_valueKeys_iff]
      exact List.mem_map_of_mem (List.mem_map_of_mem hp)
    obtain ⟨q, hq, hqp⟩ := List.mem_map.1 hkey
    exact ⟨q, hq, beq_iff_eq.2 hqp.symm⟩

theorem Represents.size_eq (h : Represents ix m) : ix.size = m.size := by
  have hsum : ix.size = (ix.entries.toList.map fun p => p.2.size).sum := by
    rw [size, Index.sets, values_eq, List.sum, List.foldr_map, List.foldr_map]
  have hlength : ∀ p ∈ ix.entries.toList, p.2.size = p.2.toList.length := by
    intro p hp
    have hs := Std.TreeMap.mem_toList_iff_getElem?_eq_some.1 hp
    exact (((h.sets p.1).wellFormed p.2) hs).length_eq.symm
  rw [hsum, List.map_congr_left hlength, ← List.length_flatMap, h.flatMap_perm.length_eq,
    List.length_map, KeyedList.size]

theorem Represents.valueCount_eq (h : Represents ix m) : ix.valueCount = m.valueKeys.length := by
  obtain ⟨hd, hc⟩ := eraseDups_spec (m.keys.map Prod.fst)
  have hkeys : Distinct ix.entries.keys :=
    Std.TreeMap.nodup_keys.imp fun hne => beq_eq_false_iff_ne.2 hne
  rw [valueCount, ← Std.TreeMap.length_keys, Filings.valueKeys]
  refine hkeys.length_eq hd fun k => ?_
  rw [hc, Bool.eq_iff_iff, List.contains_iff_mem, List.contains_iff_mem, h.mem_valueKeys_iff]

theorem Represents.isEmpty_iff (h : Represents ix m) : ix.isEmpty = true ↔ ix.size = 0 := by
  rw [isEmpty, beq_iff_eq, h.size_eq, KeyedList.size, List.length_eq_zero_iff, valueCount,
    ← Std.TreeMap.length_keys, List.length_eq_zero_iff, List.eq_nil_iff_forall_not_mem,
    List.eq_nil_iff_forall_not_mem]
  simp only [h.mem_valueKeys_iff, KeyedList.keys, List.map_map, List.mem_map]
  constructor
  · intro hno p hp
    exact hno p.1.1 ⟨p, hp, rfl⟩
  · rintro hno k ⟨p, hp, -⟩
    exact hno p hp

/-- What a set holds is filed, and nothing else is. -/
theorem Represents.stored (h : Represents ix m) {k : ValueKey} {s : CompactSet (Element kind)}
    (hs : ix.entry? k = some s) {e : Element kind} (he : e ∈ s.toList) :
    e.state = .active ∧ (e.property? ix.key).bind ValueKey.ofValue? = some k ∧
      ix.keyOf? e = some k ∧ m.get? (k, e.id) = some e := by
  have hset : ix.entries[k]? = some s := hs
  have hperm := (h.sets k).perm
  rw [hset, CompactSet.toList_view] at hperm
  obtain ⟨id, hmem⟩ := Filings.mem_under_iff.1 (hperm.mem_iff.1 he)
  have hid : e.id = id := h.number _ hmem
  obtain ⟨hstate, hkey⟩ := isFound_iff_state.1 (h.found _ hmem)
  refine ⟨hstate, hkey, hkey, ?_⟩
  rw [hid]
  exact (KeyedList.findPair_eq_some_iff h.nodup).2 hmem

/-- **What can be asked of an index has its answer in the map.** -/
theorem Represents.answers (h : Represents ix m) : Answers ix m where
  nodup := h.nodup
  exists_entry?_iff k := by
    have hget : ∀ id, (∃ e, m.get? (k, id) = some e) ↔ (k, id) ∈ m.pairs.map Prod.fst := by
      intro id
      rw [← Option.isSome_iff_exists]
      exact KeyedList.isSome_findPair_iff
    rw [← Option.isSome_iff_exists, ← Option.ne_none_iff_isSome, entry?, ne_eq,
      h.entry?_eq_none_iff]
    simp [hget]
  get_perm v k hv := by
    have hperm := (h.sets k).perm
    rw [CompactSet.toList_view] at hperm
    rw [get, hv, Option.bind_some, entry?]
    cases hs : ix.entries[k]? with
    | none =>
        rw [hs] at hperm
        exact hperm
    | some s =>
        rw [hs] at hperm
        dsimp only
        rw [Element.map_detached]
        exact hperm
  get_of_no_key v hv := by rw [get, hv]; rfl
  get_of_no_entry v k hv hk := by rw [get, hv, Option.bind_some, hk]
  stored k s e hs he := h.stored hs he
  size_eq := h.size_eq
  valueCount_eq := h.valueCount_eq
  isEmpty_iff := h.isEmpty_iff

/-! ### Runs -/

/-- A change of an index. -/
inductive Change (kind : ElementKind) where
  | load (es : List (Element kind))
  | add (e : Element kind)
  | remove (e : Element kind)

/-- What a change does to an index, with a permit. -/
def Change.apply (p : Permit) (ix : Index kind) :
    Change kind → Except IndexError Unit × Index kind
  | load es => ix.load p es
  | add e => ix.add p e
  | remove e => ix.remove p e

/-- What a change does to the filings by a property. -/
def Change.filings (name : String) (m : Filings kind) : Change kind → Filings kind
  | load es => es.foldl (Filings.file name) m
  | add e => m.file name e
  | remove e => m.withdraw name e

/-- Changes with a permit, one after the other, until one is refused. -/
def run (p : Permit) : Index kind → List (Change kind) → Except IndexError Unit × Index kind
  | ix, [] => (.ok (), ix)
  | ix, c :: cs =>
      match Change.apply p ix c with
      | (.ok (), next) => run p next cs
      | (.error e, stopped) => (.error e, stopped)

/-- What is filed by a property after a run. -/
def filingsOf (name : String) (cs : List (Change kind)) : Filings kind :=
  cs.foldl (Change.filings name) .empty

/-- **Every change with the right permit is made, and keeps index and map together.** -/
theorem Represents.apply (h : Represents ix m) {p : Permit} (hp : ix.owner = p.owner)
    (c : Change kind) :
    ∃ next, c.apply p ix = (.ok (), next) ∧ next.key = ix.key ∧ next.owner = ix.owner ∧
      Represents next (c.filings ix.key m) := by
  cases c with
  | load es =>
      have hfixed := foldl_file_fixed ix es
      exact ⟨_, changeWith_of_owner hp (es.foldl Index.file ·), hfixed.1, hfixed.2,
        h.foldl_file es⟩
  | add e =>
      have hfixed := file_fixed ix e
      exact ⟨_, changeWith_of_owner hp (·.file e), hfixed.1, hfixed.2, h.file e⟩
  | remove e =>
      have hfixed := withdraw_fixed ix e
      exact ⟨_, changeWith_of_owner hp (·.withdraw e), hfixed.1, hfixed.2, h.withdraw e⟩

theorem Represents.run (h : Represents ix m) {p : Permit} (hp : ix.owner = p.owner)
    (cs : List (Change kind)) :
    ∃ last, run p ix cs = (.ok (), last) ∧ last.key = ix.key ∧
      Represents last (cs.foldl (Change.filings ix.key) m) := by
  induction cs generalizing ix m with
  | nil => exact ⟨ix, rfl, rfl, h⟩
  | cons c cs ih =>
      obtain ⟨next, hnext, hkey, howner, hstep⟩ := h.apply hp c
      obtain ⟨last, hlast, hkeys, hrun⟩ := ih hstep (howner.trans hp)
      rw [hkey] at hkeys hrun
      refine ⟨last, ?_, hkeys, hrun⟩
      rw [Index.run, hnext]
      exact hlast

/-- **After every run, nothing was refused and the answers are those of the map.**  The run may load,
add and remove any elements in any order, with a permit of the lock of the index. -/
theorem run_answers_filings (name : String) (p : Permit) (cs : List (Change kind)) :
    ∃ ix : Index kind, run p (ofKey name p.owner) cs = (.ok (), ix) ∧ ix.key = name ∧
      Answers ix (filingsOf name cs) := by
  have hstart : Represents (ofKey name p.owner : Index kind) .empty := .ofKey name p.owner
  obtain ⟨ix, hrun, hkey, h⟩ := hstart.run rfl cs
  exact ⟨ix, hrun, hkey, h.answers⟩

/-- A person comes again with another label, which is not filed, and with another age, which is.  Of
the others, one has no age, one is deleted before being added, and one after it. -/
theorem run_answers_filings_of_vertices :
    let p : Permit := ⟨⟨0⟩⟩
    let ofAge (id : UInt64) (label : String) (age : Value) : Vertex :=
      (Element.ofId ⟨id⟩ label () : Vertex).setProperty "age" age
    let a := ofAge 1 "person" (.int 30)
    let b := ofAge 2 "person" (.int 30)
    let c := ofAge 3 "person" (.int 31)
    ∃ ix : Index .vertex,
      run p (ofKey "age" p.owner)
        [.load [a, b, ofAge 1 "friend" (.int 30), ofAge 4 "person" .null],
          .add (ofAge 1 "person" (.int 31)), .add c.softDelete, .remove c, .remove b.softDelete] =
          (.ok (), ix) ∧
        ix.get (.int 30) = [a] ∧ ix.get (.int 31) = [ofAge 1 "person" (.int 31)] ∧
        ix.get .null = [] ∧ ix.size = 2 ∧ ix.valueCount = 2 := by
  intro p ofAge a b c
  obtain ⟨ix, hrun, -, h⟩ := run_answers_filings "age" p
    [.load [a, b, ofAge 1 "friend" (.int 30), ofAge 4 "person" .null],
      .add (ofAge 1 "person" (.int 31)), .add c.softDelete, .remove c, .remove b.softDelete]
  refine ⟨ix, hrun, ?_, ?_, h.get_of_no_key .null rfl, ?_, ?_⟩
  · exact (h.get_perm (.int 30) (.int 30) rfl).eq_singleton
  · exact (h.get_perm (.int 31) (.int 31) rfl).eq_singleton
  · exact h.size_eq
  · rw [h.valueCount_eq]
    rfl

end Index

end GraphIndex
