/-
**Runs of a graph with its indexes.**  An index and a full scan agree, whatever has happened to the
graph.

The elements of a graph have different numbers, and some of them may be deleted but still there.
The graph changes together with the registry of its indexes: an index is set up with all elements
or given up, an element is inserted under a new number and added, removed by its present state and
taken out, marked as deleted and removed, or replaced by another state of it.  These changes can
follow one another in any order.

Main definitions:

* `IndexedGraph` — a graph and the registry of its indexes;
* `IndexedGraph.Change`, `IndexedGraph.Allows`, `IndexedGraph.apply` — the changes, when they may be
  made, and what they do;
* `IndexedGraph.Reachable` — the graphs after runs.

Main results:

* `IndexedGraph.consistent_apply`, `IndexedGraph.Reachable.consistent` — every change, and so every
  run, keeps indexes and graph together;
* `IndexedGraph.reachable_get_perm_scan` — **an index finds what a scan finds**.
-/
import GraphIndex.Proofs.Index.Invariant

set_option autoImplicit false

namespace GraphIndex

/-- A graph and the registry of its indexes. -/
structure IndexedGraph (kind : ElementKind) where
  /-- The elements as they are at present, deleted ones included. -/
  elements : List (Element kind)
  /-- The indexes. -/
  registry : Registry kind

namespace IndexedGraph

variable {kind : ElementKind}

/-- A change of a graph, or a look-up. -/
inductive Change (kind : ElementKind) where
  /-- An index on a property is set up with the given elements. -/
  | create (key : String) (es : List (Element kind))
  | drop (key : String)
  | insert (e : Element kind)
  /-- An element is deleted for good. -/
  | delete (e : Element kind)
  | softDelete (e : Element kind)
  /-- An element takes the place of an earlier state of it. -/
  | replace (old new : Element kind)
  | lookup (key : String) (v : Value)

/-- When a change may be made: an index is set up with all elements, a new element has a new
number, and an element that is changed is given as it is at present. -/
def Allows (g : IndexedGraph kind) : Change kind → Prop
  | .create _ es => es.Perm g.elements
  | .drop _ => True
  | .insert e => ∀ f ∈ g.elements, f.id ≠ e.id
  | .delete e => e ∈ g.elements
  | .softDelete e => e ∈ g.elements
  | .replace old new => old ∈ g.elements ∧ new.id = old.id
  | .lookup _ _ => True

/-- What a change does to the elements. -/
def elementsAfter (g : IndexedGraph kind) : Change kind → List (Element kind)
  | .create _ _ => g.elements
  | .drop _ => g.elements
  | .insert e => e :: g.elements
  | .delete e => g.elements.filter (·.id ≠ e.id)
  | .softDelete e => e.softDelete :: g.elements.filter (·.id ≠ e.id)
  | .replace old new => new :: g.elements.filter (·.id ≠ old.id)
  | .lookup _ _ => g.elements

/-- What a writer of the registry does about a change; setting up an index on a property that has
one fails. -/
def write (g : IndexedGraph kind) : Change kind → Except IndexError Unit × Registry kind
  | .create key es =>
      match g.registry.create? key es with
      | .ok r => (.ok (), r)
      | .error e => (.error e, g.registry)
  | .drop key => (.ok (), (g.registry.drop? key).getD g.registry)
  | .insert e => g.registry.add e
  | .delete e => g.registry.remove e
  | .softDelete e => g.registry.remove e.softDelete
  | .replace old new => g.registry.replace old new
  | .lookup key v => (.ok (), (g.registry.lookup g.elements key v).2)

/-- The graph after a change. -/
def apply (g : IndexedGraph kind) (c : Change kind) : IndexedGraph kind :=
  ⟨g.elementsAfter c, (g.write c).2⟩

/-- The graphs that runs lead to.  At first there are elements with different numbers, and no
index. -/
inductive Reachable : IndexedGraph kind → Prop where
  | start (es : List (Element kind)) (owner : LockId) (counters : Option Counters)
      (h : (es.map Element.id).Nodup) : Reachable ⟨es, Registry.ofLock owner counters⟩
  | step {g : IndexedGraph kind} {c : Change kind} (h : Reachable g) (hc : g.Allows c) :
      Reachable (g.apply c)

/-- **Every change keeps indexes and graph together**, and the registry refuses none, but for a
second index on a property. -/
theorem consistent_apply {g : IndexedGraph kind} (h : g.registry.Consistent g.elements)
    {c : Change kind} (hc : g.Allows c) :
    (g.apply c).registry.Consistent (g.apply c).elements ∧
      ((g.write c).1 = .ok () ∨
        ∃ key es, c = .create key es ∧ g.registry.isIndexed key = true) := by
  cases c with
  | create key es =>
      rw [apply, elementsAfter, write]
      cases hkey : g.registry.isIndexed key with
      | true =>
          have herror : g.registry.create? key es = .error (.indexExists key) := by
            rw [Registry.create?, hkey, if_pos rfl]
          rw [herror]
          exact ⟨h, .inr ⟨key, es, rfl, hkey⟩⟩
      | false =>
          obtain ⟨r, hr, hcons⟩ := h.create hkey hc
          rw [hr]
          exact ⟨hcons, .inl rfl⟩
  | drop key =>
      rw [apply, elementsAfter, write]
      cases hr : g.registry.drop? key with
      | none => exact ⟨h, .inl rfl⟩
      | some r => exact ⟨h.drop hr, .inl rfl⟩
  | insert e =>
      obtain ⟨r, hr, hcons⟩ := h.add (contains_eq_false_of_id_ne hc)
      rw [apply, elementsAfter, write, hr]
      exact ⟨hcons, .inl rfl⟩
  | delete e =>
      obtain ⟨r, hr, hcons⟩ := h.remove hc BEq.rfl fun _ => rfl
      rw [apply, elementsAfter, write, hr, filter_id_ne]
      exact ⟨hcons, .inl rfl⟩
  | softDelete e =>
      -- the marked state has the number and the values of the present one
      have hsame : (e == e.softDelete) = true := BEq.rfl (a := e)
      obtain ⟨r, hr, hcons⟩ := h.remove hc hsame fun _ => rfl
      have hgone : (without g.elements e.softDelete).contains e.softDelete = false := by
        rw [contains_without, BEq.rfl]
        rfl
      have hfilter : g.elements.filter (·.id ≠ e.id) = without g.elements e.softDelete :=
        filter_id_ne g.elements e.softDelete
      rw [apply, elementsAfter, write, hr, hfilter]
      exact ⟨hcons.cons_of_isDeleted hgone rfl, .inl rfl⟩
  | replace old new =>
      obtain ⟨hold, hid⟩ := hc
      have hsame : (new == old) = true := by simpa [BEq.beq] using hid
      obtain ⟨r, hr, hcons⟩ := h.replace hold hsame
      rw [apply, elementsAfter, write, hr, filter_id_ne]
      exact ⟨hcons, .inl rfl⟩
  | lookup key v =>
      rw [apply, elementsAfter, write]
      exact ⟨h.lookup key v, .inl rfl⟩

theorem Reachable.consistent {g : IndexedGraph kind} (h : Reachable g) :
    g.registry.Consistent g.elements := by
  induction h with
  | start es owner counters hids =>
      exact Registry.Consistent.ofLock owner counters (distinct_iff_nodup.2 hids)
  | step _ hc ih => exact (consistent_apply ih hc).1

/-- The registry refuses nothing but a second index on a property. -/
theorem Reachable.write_ok {g : IndexedGraph kind} (h : Reachable g) {c : Change kind}
    (hc : g.Allows c) (hnew : ∀ key es, c = .create key es → g.registry.isIndexed key = false) :
    (g.write c).1 = .ok () := by
  refine (consistent_apply h.consistent hc).2.resolve_right ?_
  rintro ⟨key, es, rfl, hkey⟩
  rw [hnew key es rfl] at hkey
  exact Bool.false_ne_true hkey

/-- **An index finds what a scan finds.**  After every run, a property that is indexed yields, for
every value, the elements that a scan of the graph in any order yields, each number once and each
element as it is at present.  A look-up with a scan to fall back on therefore answers the same in
all states with these elements, whether the property is indexed or not.  And the registry refuses
no change of the graph, but for a second index on a property. -/
theorem reachable_get_perm_scan {g : IndexedGraph kind} (h : Reachable g)
    {es : List (Element kind)} (p : es.Perm g.elements) (key : String) (v : Value) :
    (g.registry.isIndexed key = true →
      ∃ found, (g.registry.get key v).1 = .ok found ∧ found.Perm (scanFor es key v) ∧
        (found.map Element.id).Nodup ∧ ∀ e ∈ found, e ∈ g.elements) ∧
    (g.registry.lookup es key v).1.Perm (scanFor es key v) ∧
    (∀ g' : IndexedGraph kind, Reachable g' → g'.elements.Perm g.elements →
      (g'.registry.lookup es key v).1.Perm (g.registry.lookup es key v).1) ∧
    ∀ c, g.Allows c → (∀ key es, c = .create key es → g.registry.isIndexed key = false) →
      (g.write c).1 = .ok () := by
  have hcons := h.consistent.perm p.symm
  refine ⟨?_, hcons.lookup_perm key v, ?_, fun c hc hnew => h.write_ok hc hnew⟩
  · intro hkey
    obtain ⟨found, hfound, hperm⟩ := hcons.get_perm hkey v
    have hsub := scanFor_sublist es key v
    refine ⟨found, congrArg Prod.fst hfound, hperm, ?_, ?_⟩
    · have hnodup := (hsub.map Element.id).nodup (distinct_iff_nodup.1 hcons.distinct)
      exact (hperm.map Element.id).nodup_iff.2 hnodup
    · intro e he
      exact p.mem_iff.1 (hsub.subset (hperm.mem_iff.1 he))
  · intro g' h' p'
    have hcons' := h'.consistent.perm (p'.trans p.symm)
    exact (hcons'.lookup_perm key v).trans (hcons.lookup_perm key v).symm

/-- Of two persons in a city, one moves there after being indexed and the other one is deleted. -/
theorem reachable_get_perm_scan_of_vertices :
    let a := (Element.ofId ⟨1⟩ "person" () : Vertex).setProperty "city" (.string "oslo")
    let b := (Element.ofId ⟨2⟩ "person" () : Vertex).setProperty "city" (.string "rome")
    let c := b.setProperty "city" (.string "oslo")
    let g : IndexedGraph .vertex := ⟨[a], Registry.ofLock ⟨0⟩ none⟩
    let g' := (((g.apply (.create "city" [a])).apply (.insert b)).apply (.replace b c)).apply
      (.softDelete a)
    Reachable g' ∧ g'.registry.isIndexed "city" = true ∧
      (g'.registry.get "city" (.string "oslo")).1 = .ok [c] := by
  intro a b c g g'
  have hreach : Reachable g' := by
    have h₀ : Reachable g := .start _ _ _ (by decide)
    have h₁ : Reachable (g.apply (.create "city" [a])) := h₀.step (List.Perm.refl _)
    have h₂ : Reachable ((g.apply (.create "city" [a])).apply (.insert b)) := by
      refine h₁.step fun f hf => ?_
      rw [List.mem_singleton.1 hf]
      decide
    have h₃ := h₂.step (c := .replace b c) ⟨List.mem_cons_self, rfl⟩
    refine h₃.step (c := .softDelete a) (List.mem_cons_of_mem _ (List.mem_filter.2 ⟨?_, ?_⟩))
    · exact List.mem_cons_of_mem _ List.mem_cons_self
    · decide
  have hkey : g'.registry.isIndexed "city" = true := by decide
  obtain ⟨hget, -⟩ := reachable_get_perm_scan hreach (List.Perm.refl _) "city" (.string "oslo")
  obtain ⟨found, hfound, hperm, -⟩ := hget hkey
  have hscan : scanFor g'.elements "city" (.string "oslo") = [c] := rfl
  rw [hscan] at hperm
  rw [hperm.eq_singleton] at hfound
  exact ⟨hreach, hkey, hfound⟩

end IndexedGraph

end GraphIndex
