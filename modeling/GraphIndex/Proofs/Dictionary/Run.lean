/-
**Runs of dictionaries.**  A dictionary is a finite map from names to values, whatever has happened to
it.

A run begins with the dictionary of a list of entries, which may be the empty one, and sets keys,
removes keys and takes copies.  What a key has after the run is decided by the last change of this
key alone: it has the value that was set, and none if the key was removed or never set.  All answers
of the dictionary follow from this, and its tier from the number of keys.

Main definitions:

* `Dictionary.Change`, `Dictionary.run` — the changes, and what they do to a dictionary;
* `Dictionary.lastValue?` — the value of a key by the last change of it;
* `Dictionary.Answers` — what can be asked of a dictionary, and what one change more does to it.

Main results:

* `Dictionary.Represents.apply`, `Dictionary.Represents.foldl` — every change, and so every run, keeps
  dictionary and last values together;
* `Dictionary.run_answers_last_values` — **what can be asked of a dictionary has its answer in the
  last values**.
-/
import GraphIndex.Proofs.Dictionary.Invariant

set_option autoImplicit false

namespace GraphIndex

namespace Dictionary

/-- A change of a dictionary. -/
inductive Change where
  | set (k : String) (v : Value)
  | remove (k : String)
  /-- The dictionary gives way to an independent copy of it. -/
  | copy

namespace Change

/-- What a change does to a dictionary. -/
def apply : Change → Dictionary → Dictionary
  | set k v, d => d.insert k v
  | remove k, d => d.erase k
  | copy, d => d.copy

/-- The key that a change is about. -/
def key? : Change → Option String
  | set k _ => some k
  | remove k => some k
  | copy => none

/-- The value that a change gives its key. -/
def value? : Change → Option Value
  | set _ v => some v
  | remove _ => none
  | copy => none

end Change

/-- The value that the last change of a key gives it. -/
def lastValue? (cs : List Change) (k : String) : Option Value :=
  (cs.filter fun c => c.key? = some k).getLast?.bind Change.value?

/-- The dictionary after a run from the dictionary of a list of entries. -/
def run (es : List (String × Value)) (cs : List Change) : Dictionary :=
  cs.foldl (fun d c => c.apply d) (ofList es)

/-- All changes of a run, those that set the entries to begin with included. -/
def history (es : List (String × Value)) (cs : List Change) : List Change :=
  es.map (fun e => .set e.1 e.2) ++ cs

/-- Only a change of its key changes what a key has. -/
theorem lastValue?_append (cs : List Change) (c : Change) (k : String) :
    lastValue? (cs ++ [c]) k = if c.key? = some k then c.value? else lastValue? cs k := by
  rw [lastValue?, lastValue?, List.filter_append, List.getLast?_append]
  by_cases hc : c.key? = some k
  · simp [hc]
  · simp [hc]

/-! ### Dictionaries and last values -/

/-- The dictionary is well formed, and its keys have the given values. -/
structure Represents (d : Dictionary) (f : String → Option Value) : Prop where
  wellFormed : d.WellFormed
  get?_eq : ∀ k, d.get? k = f k

/-- **Every change keeps dictionary and last values together.** -/
theorem Represents.apply {d : Dictionary} {cs : List Change} (h : Represents d (lastValue? cs))
    (c : Change) : Represents (c.apply d) (lastValue? (cs ++ [c])) := by
  cases c with
  | set k v =>
      refine ⟨h.wellFormed.insert k v, fun l => ?_⟩
      rw [Change.apply, get?_insert h.wellFormed, lastValue?_append, h.get?_eq]
      simp only [Change.key?, Option.some_inj, Change.value?]
  | remove k =>
      refine ⟨h.wellFormed.erase k, fun l => ?_⟩
      rw [Change.apply, get?_erase h.wellFormed, lastValue?_append, h.get?_eq]
      simp only [Change.key?, Option.some_inj, Change.value?]
  | copy =>
      rw [Change.apply, copy_eq]
      refine ⟨h.wellFormed, fun l => ?_⟩
      rw [lastValue?_append, if_neg (by simp [Change.key?])]
      exact h.get?_eq l

theorem Represents.foldl {d : Dictionary} {before : List Change}
    (h : Represents d (lastValue? before)) (cs : List Change) :
    Represents (cs.foldl (fun d c => c.apply d) d) (lastValue? (before ++ cs)) := by
  induction cs generalizing d before with
  | nil => rwa [List.append_nil]
  | cons c cs ih =>
      have hstep := ih (h.apply c)
      rwa [List.append_assoc, List.singleton_append] at hstep

theorem represents_run (es : List (String × Value)) (cs : List Change) :
    Represents (run es cs) (lastValue? (history es cs)) := by
  have hempty : Represents .empty (lastValue? []) := ⟨WellFormed.empty, fun k => rfl⟩
  have hlist : ofList es =
      (es.map fun e => Change.set e.1 e.2).foldl (fun d c => c.apply d) .empty := by
    rw [ofList, List.foldl_map]
    rfl
  have h := hempty.foldl (history es cs)
  rw [history, List.nil_append, List.foldl_append, ← hlist] at h
  exact h

/-! ### What can be asked -/

/-- What can be asked of a dictionary has its answer in the values of the keys. -/
structure Answers (d : Dictionary) (f : String → Option Value) : Prop where
  get?_eq : ∀ k, d.get? k = f k
  keys_nodup : d.keys.Nodup
  /-- The entries are the keys with their values. -/
  mem_entries_iff : ∀ k v, (k, v) ∈ d.entries ↔ f k = some v
  size_eq : d.size = d.keys.length
  tier_eq : d.tier = Tier.ofSize d.size
  /-- A dictionary without keys has no storage. -/
  isEmpty_iff : d.isEmpty = true ↔ ∀ k, f k = none
  /-- There is no storage for zero keys. -/
  size_pos : d.isEmpty = false → 0 < d.size
  /-- Inline storage has a value for every key, and room for all of them. -/
  inline_fits : ∀ c ks vs, d = inline c ks vs → ks.length = vs.length ∧ ks.length ≤ c ∧
    ∀ k i, ks.idxOf? k = some i → i < vs.length
  /-- Setting a key that is present changes its entry, where it stands, and nothing else. -/
  insert_present : ∀ k v, (f k).isSome = true → (d.insert k v).size = d.size ∧
    (d.insert k v).tier = d.tier ∧
    (d.insert k v).entries = d.entries.map fun e => if e.1 = k then (k, v) else e
  /-- Removing an absent key leaves the storage as it is. -/
  erase_absent : ∀ k, f k = none → d.erase? k = none ∧ d.erase k = d
  /-- A copy has the same entries in the same tier. -/
  copy_eq : d.copy.entries = d.entries ∧ d.copy.tier = d.tier

variable {d : Dictionary} {f : String → Option Value}

theorem Represents.isEmpty_iff (h : Represents d f) : d.isEmpty = true ↔ ∀ k, f k = none := by
  have hempty : d.isEmpty = true ↔ d = .empty := by cases d <;> simp [isEmpty]
  rw [hempty, h.wellFormed.eq_empty_iff, List.eq_nil_iff_forall_not_mem]
  constructor
  · intro hnone k
    rw [← h.get?_eq, h.wellFormed.get?_eq_none_iff]
    intro hk
    obtain ⟨e, he, -⟩ := List.mem_map.1 hk
    exact hnone e he
  · intro hnone e he
    have hsome := h.wellFormed.get?_eq_some_iff.2 he
    rw [h.get?_eq, hnone] at hsome
    cases hsome

theorem Represents.insert_present (h : Represents d f) {k : String} (hk : (f k).isSome = true)
    (v : Value) : (d.insert k v).size = d.size ∧ (d.insert k v).tier = d.tier ∧
      (d.insert k v).entries = d.entries.map fun e => if e.1 = k then (k, v) else e := by
  have hmem : k ∈ d.entries.map Prod.fst := by
    rwa [← h.get?_eq, h.wellFormed.get?_eq, KeyedList.isSome_findPair_iff] at hk
  have hinsert := h.wellFormed.insert k v
  have hentries : (d.insert k v).entries = d.entries.map fun e => if e.1 = k then (k, v) else e := by
    rw [entries_insert h.wellFormed, KeyedList.insertPair_of_mem hmem h.wellFormed.nodup]
  have hsize : (d.insert k v).size = d.size := by
    rw [hinsert.size_eq, hentries, List.length_map, h.wellFormed.size_eq]
  refine ⟨hsize, ?_, hentries⟩
  rw [hinsert.tier_eq, hsize, h.wellFormed.tier_eq]

/-- **What can be asked of a dictionary has its answer in the values of the keys.** -/
theorem Represents.answers (h : Represents d f) : Answers d f where
  get?_eq := h.get?_eq
  keys_nodup := h.wellFormed.nodup
  mem_entries_iff k v := by rw [← h.get?_eq, h.wellFormed.get?_eq_some_iff]
  size_eq := h.wellFormed.size_eq_length_keys
  tier_eq := h.wellFormed.tier_eq
  isEmpty_iff := h.isEmpty_iff
  size_pos hne := by
    rw [h.wellFormed.size_eq, List.length_pos_iff]
    intro hnil
    rw [h.wellFormed.eq_empty_iff.2 hnil] at hne
    cases hne
  inline_fits := by
    rintro c ks vs rfl
    have hlen := h.wellFormed.columns c ks vs rfl
    refine ⟨hlen, Tier.le_of_ofSize h.wellFormed.tier_eq.symm, fun k i hi => ?_⟩
    obtain ⟨hlt, -⟩ := List.findIdx?_eq_some_iff_getElem.1 hi
    omega
  insert_present k v hk := h.insert_present hk v
  erase_absent k hk := by
    have hnone : d.erase? k = none := by
      rw [h.wellFormed.erase?_eq_none_iff, ← h.wellFormed.get?_eq_none_iff, h.get?_eq, hk]
    rw [erase, hnone]
    exact ⟨rfl, rfl⟩
  copy_eq := by rw [Dictionary.copy_eq]; exact ⟨rfl, rfl⟩

/-- **What can be asked of a dictionary has its answer in the last values.**  After every run from
the dictionary of a list of entries, each key has the value that the last change of it gives it, the
first entries included, and all other answers are those that these values give. -/
theorem run_answers_last_values (es : List (String × Value)) (cs : List Change) :
    Answers (run es cs) (lastValue? (history es cs)) :=
  (represents_run es cs).answers

example : (run [("a", .null)] [.set "b" (.bool true), .copy, .remove "a"]).entries =
    [("b", .bool true)] := rfl

end Dictionary

end GraphIndex
