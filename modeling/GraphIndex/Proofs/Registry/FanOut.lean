/-
**Changes of elements reach every index.**  A writer of a registry changes all indexes or none.

The indexes are changed one after the other, and should one of them refuse, those before it would
have changed already.  In a registry that a run has led to, none refuses: every index belongs to the
lock that the permit of the writer is of.  So each change of an element is made to every index once,
in whichever order they stand.  With a permit of another lock, an index refuses every change and stays
as it is.

Main definitions:

* `Registry.Reordered` — the same indexes, in another order;
* `Registry.FansOut` — changes of elements reach every index.

Main results:

* `Registry.WellFormed.fansOut` — changes reach every index of a well-formed registry;
* `Index.Change.apply_of_foreign` — an index refuses a permit of another lock;
* `Registry.run_fans_out` — **changes reach every index after every run, in every order**.
-/
import GraphIndex.Proofs.Index.Filings
import GraphIndex.Proofs.Registry.Invariant

set_option autoImplicit false

namespace GraphIndex

variable {kind : ElementKind}

/-- **An index refuses a permit of another lock**, and stays as it is. -/
theorem Index.Change.apply_of_foreign {ix : Index kind} {p : Permit} (h : p.owner ≠ ix.owner)
    (c : Index.Change kind) : c.apply p ix = (.error .foreignPermit, ix) := by
  have hrefused : ∀ change : Index kind → Index kind,
      ix.changeWith p change = (.error .foreignPermit, ix) := by
    intro change
    rw [Index.changeWith, Permit.check, if_neg h]
  cases c with
  | load es => exact hrefused (es.foldl Index.file ·)
  | add e => exact hrefused (·.file e)
  | remove e => exact hrefused (·.withdraw e)

namespace Registry

/-- The registries have the same lock and the same indexes, in some order. -/
structure Reordered (r r' : Registry kind) : Prop where
  owner_eq : r'.owner = r.owner
  perm : r'.indexes.pairs.Perm r.indexes.pairs

/-- No index refuses a change with the permit of a writer, and changes of elements reach every index
once. -/
structure FansOut (r : Registry kind) : Prop where
  /-- No index refuses a writer. -/
  accepts : ∀ p ∈ r.indexes.pairs, ∀ c : Index.Change kind, (c.apply r.permit p.2).1 = .ok ()
  /-- An element is added to every index. -/
  add_eq : ∀ e, r.add e = (.ok (), r.mapIndexes fun ix => (ix.add r.permit e).2)
  /-- An element is removed from every index. -/
  remove_eq : ∀ e, r.remove e = (.ok (), r.mapIndexes fun ix => (ix.remove r.permit e).2)
  /-- An element takes the place of an earlier state of it in every index. -/
  replace_eq : ∀ old new, r.replace old new =
    (.ok (), r.mapIndexes fun ix => ((ix.remove r.permit old).2.add r.permit new).2)

variable {r r' : Registry kind}

/-- Changes that are the same for every registered index are the same for the registry. -/
theorem mapIndexes_congr {f g : Index kind → Index kind}
    (h : ∀ p ∈ r.indexes.pairs, f p.2 = g p.2) : r.mapIndexes f = r.mapIndexes g := by
  rw [mapIndexes, mapIndexes, List.map_congr_left fun p hp => congrArg (Prod.mk p.1) (h p hp)]

/-- **Changes reach every index of a well-formed registry.** -/
theorem WellFormed.fansOut (h : r.WellFormed) : FansOut r where
  accepts p hp c := by
    have howner : p.2.owner = r.permit.owner := h.owned p hp
    cases c with
    | load es => exact congrArg Prod.fst (Index.changeWith_of_owner howner (es.foldl Index.file ·))
    | add e => exact congrArg Prod.fst (Index.changeWith_of_owner howner (·.file e))
    | remove e => exact congrArg Prod.fst (Index.changeWith_of_owner howner (·.withdraw e))
  add_eq e := by
    rw [h.add_eq, mapIndexes_congr fun p hp => ?_]
    rw [Index.add, Index.changeWith_of_owner (h.owned p hp)]
  remove_eq e := by
    rw [h.remove_eq, mapIndexes_congr fun p hp => ?_]
    rw [Index.remove, Index.changeWith_of_owner (h.owned p hp)]
  replace_eq old new := by
    rw [h.replace_eq, mapIndexes_congr fun p hp => ?_]
    have howner := h.owned p hp
    have hwithdrawn := (Index.withdraw_fixed p.2 old).2.trans howner
    rw [Index.remove, Index.changeWith_of_owner howner, Index.add]
    dsimp only
    rw [Index.changeWith_of_owner hwithdrawn]

theorem WellFormed.reordered (h : r.WellFormed) (hr : Reordered r r') : r'.WellFormed where
  nodup := (hr.perm.map Prod.fst).nodup_iff.2 h.nodup
  keyed p hp := h.keyed p (hr.perm.mem_iff.1 hp)
  owned p hp := (h.owned p (hr.perm.mem_iff.1 hp)).trans hr.owner_eq.symm

/-- **Changes reach every index after every run, in every order.**  Every index belongs to the lock of
the registry and is on the property under which it is registered.  In whichever order the indexes
stand, a writer adds, removes and replaces every element in all of them, once and without a refusal,
and a new index is never refused for its permit.  An index that is given a permit of another lock
refuses every change and stays as it is. -/
theorem run_fans_out (owner : LockId) (counters : Option Counters) (cs : List (Change kind)) :
    (run (ofLock owner counters) cs).owner = owner ∧
    (∀ key ix, (run (ofLock owner counters) cs).index? key = some ix →
      ix.owner = owner ∧ ix.key = key) ∧
    (∀ r', Reordered (run (ofLock owner counters) cs) r' → FansOut r') ∧
    (∀ key es, (run (ofLock owner counters) cs).create? key es ≠ .error .foreignPermit) ∧
    ∀ (ix : Index kind) (p : Permit), p.owner ≠ ix.owner →
      ∀ c : Index.Change kind, c.apply p ix = (.error .foreignPermit, ix) := by
  have hstart : (ofLock owner counters : Registry kind).WellFormed := .ofLock owner counters
  obtain ⟨h, howner⟩ := hstart.run cs
  refine ⟨howner, ?_, fun r' hr => (h.reordered hr).fansOut, ?_, ?_⟩
  · intro key ix hix
    have hmem := KeyedList.mem_of_findPair_eq_some hix
    exact ⟨(h.owned _ hmem).trans howner, h.keyed _ hmem⟩
  · intro key es hforeign
    cases hkey : (run (ofLock owner counters) cs).isIndexed key with
    | true =>
        rw [create?_of_isIndexed hkey] at hforeign
        cases hforeign
    | false =>
        rw [create?_of_not_isIndexed hkey] at hforeign
        cases hforeign
  · intro ix p hp c
    exact c.apply_of_foreign hp

/-- Two indexes that are enumerated the other way round get an element, and one of them refuses it
from the writer of another registry. -/
theorem run_fans_out_of_two_indexes :
    let r : Registry .vertex := run (ofLock ⟨0⟩ none) [.create "city" [], .create "name" []]
    let r' : Registry .vertex := { r with indexes := ⟨r.indexes.pairs.reverse⟩ }
    let e := (Element.ofId ⟨1⟩ "person" () : Vertex).setProperty "city" (.string "oslo")
    let ix : Index .vertex := .ofKey "city" ⟨0⟩
    Reordered r r' ∧ (r'.add e).1 = .ok () ∧
      (r'.add e).2.index? "city" = some (ix.add r'.permit e).2 ∧
      (r'.add e).2.index? "name" = some ((Index.ofKey "name" ⟨0⟩).add r'.permit e).2 ∧
      ix.owner = ⟨0⟩ ∧ ix.key = "city" ∧
      (Index.Change.load [e]).apply ⟨⟨1⟩⟩ ix = (.error .foreignPermit, ix) := by
  intro r r' e ix
  let cs : List (Change .vertex) := [.create "city" [], .create "name" []]
  obtain ⟨-, hindexes, hfans, -, hforeign⟩ := run_fans_out ⟨0⟩ none cs
  have hr : Reordered r r' := ⟨rfl, List.reverse_perm _⟩
  have hadd := (hfans r' hr).add_eq e
  obtain ⟨howner, hkey⟩ := hindexes "city" ix rfl
  refine ⟨hr, ?_, ?_, ?_, howner, hkey, hforeign ix ⟨⟨1⟩⟩ (by decide) (.load [e])⟩
  · rw [hadd]
  · rw [hadd, index?_mapIndexes]
    rfl
  · rw [hadd, index?_mapIndexes]
    rfl

end Registry

end GraphIndex
