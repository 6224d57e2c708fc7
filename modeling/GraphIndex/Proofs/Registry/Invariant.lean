/-
**The invariant of registries.**  Every index of a registry belongs to the lock of the registry and is
on the property under which it is registered, and no property is registered twice.

The changes that a writer makes are to set up an index, to give one up, and to add, remove and replace
elements.  A change that fails leaves the registry as it is.  Since a new index gets the lock and the
property from the registry, and no change of an index touches them, every run keeps the invariant.
It is what the permit of a writer is checked against, and so no index ever refuses a writer.

Main definitions:

* `Registry.Change`, `Registry.run` — the changes, and what they do to a registry;
* `Registry.WellFormed` — the invariant.

Main results:

* `Registry.WellFormed.add_eq`, `Registry.WellFormed.remove_eq`, `Registry.WellFormed.replace_eq` —
  what a change of an element does to a well-formed registry;
* `Registry.WellFormed.apply`, `Registry.WellFormed.run` — **every change, and so every run, keeps the
  invariant**.
-/
import GraphIndex.Proofs.Index.Invariant
import GraphIndex.Proofs.KeyedList

set_option autoImplicit false

namespace GraphIndex

namespace Registry

variable {kind : ElementKind}

/-! ### Changes and runs -/

/-- A change of a registry, made by a writer. -/
inductive Change (kind : ElementKind) where
  | create (key : String) (es : List (Element kind))
  | drop (key : String)
  | add (e : Element kind)
  | remove (e : Element kind)
  /-- An element takes the place of an earlier state of it. -/
  | replace (old new : Element kind)

/-- How a change ends, and the registry after it. -/
def Change.apply (r : Registry kind) : Change kind → Except IndexError Unit × Registry kind
  | create key es =>
      match r.create? key es with
      | .ok next => (.ok (), next)
      | .error e => (.error e, r)
  | drop key => (.ok (), (r.drop? key).getD r)
  | add e => r.add e
  | remove e => r.remove e
  | replace old new => r.replace old new

/-- The registry after a run, in which some changes may have failed. -/
def run (r : Registry kind) (cs : List (Change kind)) : Registry kind :=
  cs.foldl (fun r c => (c.apply r).2) r

/-! ### What the changes do to the indexes -/

variable {r : Registry kind}

theorem index?_mapIndexes (r : Registry kind) (g : Index kind → Index kind) (key : String) :
    (r.mapIndexes g).index? key = (r.index? key).map g := by
  rw [index?, index?, mapIndexes, KeyedList.get?, KeyedList.get?]
  dsimp only
  induction r.indexes.pairs with
  | nil => rfl
  | cons p ps ih =>
      by_cases hp : p.1 = key
      · simp [KeyedList.findPair, hp]
      · simp only [List.map_cons, KeyedList.findPair, if_neg hp, ih]

theorem keys_mapIndexes (r : Registry kind) (g : Index kind → Index kind) :
    (r.mapIndexes g).indexes.keys = r.indexes.keys := by
  rw [mapIndexes, KeyedList.keys, KeyedList.keys, List.map_map]
  rfl

theorem create?_of_isIndexed {key : String} (h : r.isIndexed key = true) (es : List (Element kind)) :
    r.create? key es = .error (.indexExists key) := by
  rw [create?, h, if_pos rfl]

theorem drop?_of_isIndexed {key : String} (h : r.isIndexed key = true) :
    r.drop? key = some { r with indexes := r.indexes.erase key } := by
  rw [drop?, h, if_pos rfl]

theorem drop?_of_not_isIndexed {key : String} (h : r.isIndexed key = false) :
    r.drop? key = none := by
  rw [drop?, h, if_neg Bool.false_ne_true]

/-! ### The invariant -/

/-- No property is registered twice, and every index is on the property under which it is registered
and belongs to the lock of the registry. -/
structure WellFormed (r : Registry kind) : Prop where
  nodup : r.indexes.keys.Nodup
  keyed : ∀ p ∈ r.indexes.pairs, p.2.key = p.1
  owned : ∀ p ∈ r.indexes.pairs, p.2.owner = r.owner

theorem WellFormed.ofLock (owner : LockId) (counters : Option Counters) :
    (ofLock owner counters : Registry kind).WellFormed where
  nodup := List.nodup_nil
  keyed _ hp := absurd hp List.not_mem_nil
  owned _ hp := absurd hp List.not_mem_nil

/-- An element is added to every index. -/
theorem WellFormed.add_eq (h : r.WellFormed) (e : Element kind) :
    r.add e = (.ok (), r.mapIndexes (·.file e)) :=
  changeAll_eq h.owned (·.file e)

/-- An element is removed from every index. -/
theorem WellFormed.remove_eq (h : r.WellFormed) (e : Element kind) :
    r.remove e = (.ok (), r.mapIndexes (·.withdraw e)) :=
  changeAll_eq h.owned (·.withdraw e)

/-- A change that leaves the property and the lock of an index alone keeps the invariant. -/
theorem WellFormed.mapIndexes (h : r.WellFormed) {g : Index kind → Index kind}
    (hg : ∀ ix, (g ix).key = ix.key ∧ (g ix).owner = ix.owner) : (r.mapIndexes g).WellFormed := by
  refine ⟨?_, ?_, ?_⟩
  · rw [keys_mapIndexes]
    exact h.nodup
  · intro q hq
    obtain ⟨p, hp, rfl⟩ := List.mem_map.1 hq
    exact (hg p.2).1.trans (h.keyed p hp)
  · intro q hq
    obtain ⟨p, hp, rfl⟩ := List.mem_map.1 hq
    exact (hg p.2).2.trans (h.owned p hp)

/-- An element takes the place of an earlier state of it in every index. -/
theorem WellFormed.replace_eq (h : r.WellFormed) (old new : Element kind) :
    r.replace old new = (.ok (), r.mapIndexes fun ix => (ix.withdraw old).file new) := by
  have hremoved := h.mapIndexes (Index.withdraw_fixed · old)
  rw [replace, h.remove_eq]
  dsimp only
  rw [hremoved.add_eq, Registry.mapIndexes, Registry.mapIndexes, Registry.mapIndexes]
  simp only [List.map_map]
  rfl

/-- **Setting up an index keeps the invariant.** -/
theorem WellFormed.insert (h : r.WellFormed) (key : String) (es : List (Element kind)) :
    WellFormed
      { r with indexes := r.indexes.insert key (es.foldl Index.file (.ofKey key r.owner)) } := by
  obtain ⟨hkey, howner⟩ := Index.foldl_file_fixed (Index.ofKey key r.owner) es
  refine ⟨KeyedList.nodup_insert h.nodup _ _, ?_, ?_⟩
  · intro q hq
    rcases KeyedList.mem_insertPair hq with rfl | hq
    · exact hkey
    · exact h.keyed q hq
  · intro q hq
    rcases KeyedList.mem_insertPair hq with rfl | hq
    · exact howner
    · exact h.owned q hq

/-- **Giving up an index keeps the invariant.** -/
theorem WellFormed.erase (h : r.WellFormed) (key : String) :
    WellFormed { r with indexes := r.indexes.erase key } where
  nodup := KeyedList.nodup_erase h.nodup key
  keyed q hq := h.keyed q (List.mem_filter.1 hq).1
  owned q hq := h.owned q (List.mem_filter.1 hq).1

/-- **Every change keeps the invariant**, and the registry its lock. -/
theorem WellFormed.apply (h : r.WellFormed) (c : Change kind) :
    (c.apply r).2.WellFormed ∧ (c.apply r).2.owner = r.owner := by
  cases c with
  | create key es =>
      rw [Change.apply]
      cases hkey : r.isIndexed key with
      | true =>
          rw [create?_of_isIndexed hkey]
          exact ⟨h, rfl⟩
      | false =>
          rw [create?_of_not_isIndexed hkey]
          exact ⟨h.insert key es, rfl⟩
  | drop key =>
      rw [Change.apply]
      cases hkey : r.isIndexed key with
      | true =>
          rw [drop?_of_isIndexed hkey]
          exact ⟨h.erase key, rfl⟩
      | false =>
          rw [drop?_of_not_isIndexed hkey]
          exact ⟨h, rfl⟩
  | add e =>
      rw [Change.apply, h.add_eq]
      exact ⟨h.mapIndexes (Index.file_fixed · e), rfl⟩
  | remove e =>
      rw [Change.apply, h.remove_eq]
      exact ⟨h.mapIndexes (Index.withdraw_fixed · e), rfl⟩
  | replace old new =>
      have hfixed : ∀ ix : Index kind, ((ix.withdraw old).file new).key = ix.key ∧
          ((ix.withdraw old).file new).owner = ix.owner := by
        intro ix
        obtain ⟨hkey, howner⟩ := Index.withdraw_fixed ix old
        obtain ⟨hkey', howner'⟩ := Index.file_fixed (ix.withdraw old) new
        exact ⟨hkey'.trans hkey, howner'.trans howner⟩
      rw [Change.apply, h.replace_eq]
      exact ⟨h.mapIndexes hfixed, rfl⟩

theorem WellFormed.run (h : r.WellFormed) (cs : List (Change kind)) :
    (run r cs).WellFormed ∧ (run r cs).owner = r.owner := by
  induction cs generalizing r with
  | nil => exact ⟨h, rfl⟩
  | cons c cs ih =>
      obtain ⟨hstep, howner⟩ := h.apply c
      obtain ⟨hrun, howners⟩ := ih hstep
      exact ⟨hrun, howners.trans howner⟩

end Registry

end GraphIndex
