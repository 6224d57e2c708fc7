/-
**The keys of a registry.**  After every run, the indexed properties are those that were set up and
not given up since.

All that can be asked about keys agrees with them.  A look-up fails for the other properties, and then
names all that are indexed, in order.  Setting up an index fails for the indexed ones, and then changes
nothing; otherwise the new index holds the given elements, whatever an earlier index on the property
held, and the others stay.  Setting up and giving up an index leave look-ups by the other indexed
properties alone.  A look-up by a property that is not indexed fails before and after, but the
properties it names are those of the time: `create_changes_missing_keys`.

Main definitions:

* `Registry.liveKeys` — the properties that were set up and not given up since;
* `Registry.HasKeys` — what can be asked about keys, and how it ends.

Main results:

* `Registry.WellFormed.keys_sorted` — the keys stand in strict order;
* `Registry.index?_create`, `Registry.index?_drop` — setting up and giving up an index, seen under
  every key;
* `Registry.isIndexed_apply_iff` — **every change keeps the keys those of the run**;
* `Registry.run_has_live_keys` — **after every run, the keys are those set up and not given up
  since**.
-/
import GraphIndex.Proofs.Registry.Invariant

set_option autoImplicit false

namespace GraphIndex

namespace Text

theorem le_trans (a b c : String) (hab : le a b = true) (hbc : le b c = true) : le a c = true :=
  Std.TransCmp.isLE_trans hab hbc

theorem le_total (a b : String) : (le a b || le b a) = true := by
  have hswap : compare b a = (compare a b).swap := Std.OrientedCmp.eq_swap
  rw [le, le, hswap]
  cases compare a b <;> rfl

theorem compare_eq_lt_of_le {a b : String} (hle : le a b = true) (hne : a ≠ b) :
    compare a b = .lt := by
  cases hab : compare a b with
  | lt => rfl
  | eq => exact absurd (Std.LawfulEqCmp.eq_of_compare hab) hne
  | gt =>
      rw [le, hab] at hle
      cases hle

end Text

namespace Registry

variable {kind : ElementKind} {r : Registry kind}

/-! ### Keys and look-ups -/

theorem mem_keys_iff {k : String} : k ∈ r.keys ↔ r.isIndexed k = true := by
  rw [keys, (List.mergeSort_perm _ _).mem_iff, isIndexed, KeyedList.contains_iff]

theorem WellFormed.keys_sorted (h : r.WellFormed) :
    r.keys.Pairwise fun a b => Text.compare a b = .lt := by
  have hle : r.keys.Pairwise fun a b => Text.le a b = true :=
    List.pairwise_mergeSort Text.le_trans Text.le_total _
  have hne : r.keys.Nodup := (List.mergeSort_perm _ _).nodup_iff.2 h.nodup
  exact hle.imp₂ (fun _ _ => Text.compare_eq_lt_of_le) hne

/-- A new index stands under its key, unless there was one. -/
theorem index?_create (r : Registry kind) (k : String) (es : List (Element kind)) (l : String) :
    ((Change.create k es).apply r).2.index? l =
      if k = l ∧ r.isIndexed k = false then some (es.foldl Index.file (.ofKey k r.owner))
      else r.index? l := by
  rw [Change.apply]
  cases hk : r.isIndexed k with
  | true =>
      rw [create?_of_isIndexed hk, if_neg (by simp)]
  | false =>
      rw [create?_of_not_isIndexed hk]
      dsimp only
      rw [index?, KeyedList.get?_insert, index?]
      simp

theorem index?_drop (r : Registry kind) (k l : String) :
    ((Change.drop k).apply r).2.index? l = if k = l then none else r.index? l := by
  rw [Change.apply]
  cases hk : r.isIndexed k with
  | true =>
      rw [drop?_of_isIndexed hk, Option.getD_some, index?, KeyedList.get?_erase, index?]
  | false =>
      rw [drop?_of_not_isIndexed hk, Option.getD_none]
      by_cases hl : k = l
      · rw [isIndexed, KeyedList.contains, Option.isSome_eq_false_iff, Option.isNone_iff_eq_none] at hk
        rw [if_pos hl, ← hl, index?, hk]
      · rw [if_neg hl]

theorem isIndexed_eq_isSome (r : Registry kind) (k : String) :
    r.isIndexed k = (r.index? k).isSome := rfl

/-- A look-up depends on the index that stands under the key. -/
theorem get_congr {r' : Registry kind} {k : String} (h : r'.index? k = r.index? k)
    (hk : r.isIndexed k = true) (v : Value) : (r'.get k v).1 = (r.get k v).1 := by
  rw [isIndexed_eq_isSome, Option.isSome_iff_exists] at hk
  obtain ⟨ix, hix⟩ := hk
  rw [get, get, h, hix]

/-! ### The keys of a run -/

/-- The property whose index a change sets up or gives up. -/
def Change.key? : Change kind → Option String
  | create key _ => some key
  | drop key => some key
  | _ => none

/-- What a change does to the properties that are set up. -/
def Change.live (ks : List String) : Change kind → List String
  | create key _ => ks.insert key
  | drop key => ks.filter (· ≠ key)
  | _ => ks

/-- The properties that were set up and not given up since. -/
def liveKeys (cs : List (Change kind)) : List String :=
  cs.foldl Change.live []

/-- **Every change keeps the keys those of the run.** -/
theorem isIndexed_apply_iff (h : r.WellFormed) {ks : List String}
    (hks : ∀ k, r.isIndexed k = true ↔ k ∈ ks) (c : Change kind) (l : String) :
    (c.apply r).2.isIndexed l = true ↔ l ∈ c.live ks := by
  -- a change of an element keeps the keys
  have hmap : ∀ g : Index kind → Index kind, (r.mapIndexes g).isIndexed l = true ↔ l ∈ ks := by
    intro g
    rw [isIndexed_eq_isSome, index?_mapIndexes, Option.isSome_map, ← isIndexed_eq_isSome, hks]
  cases c with
  | create k es =>
      rw [isIndexed_eq_isSome, index?_create, Change.live, List.mem_insert_iff]
      by_cases hl : k = l
      · cases hk : r.isIndexed k with
        | true => simp [← hl, hk, ← isIndexed_eq_isSome]
        | false => simp [hl]
      · rw [if_neg fun hc => hl hc.1, ← isIndexed_eq_isSome, hks]
        simp [Ne.symm hl]
  | drop k =>
      rw [isIndexed_eq_isSome, index?_drop, Change.live, List.mem_filter]
      by_cases hl : k = l
      · simp [hl]
      · rw [if_neg hl, ← isIndexed_eq_isSome, hks]
        simp [Ne.symm hl]
  | add e =>
      rw [Change.apply, h.add_eq]
      exact hmap _
  | remove e =>
      rw [Change.apply, h.remove_eq]
      exact hmap _
  | replace old new =>
      rw [Change.apply, h.replace_eq]
      exact hmap _

theorem isIndexed_run_iff (h : r.WellFormed) {ks : List String}
    (hks : ∀ k, r.isIndexed k = true ↔ k ∈ ks) (cs : List (Change kind)) (l : String) :
    (run r cs).isIndexed l = true ↔ l ∈ cs.foldl Change.live ks := by
  induction cs generalizing r ks with
  | nil => exact hks l
  | cons c cs ih => exact ih (h.apply c).1 (isIndexed_apply_iff h hks c)

/-! ### What can be asked about keys -/

/-- What can be asked about the keys of a registry, and how it ends, if the given properties are the
indexed ones. -/
structure HasKeys (r : Registry kind) (ks : List String) : Prop where
  /-- The keys stand in strict order. -/
  sorted : r.keys.Pairwise fun a b => Text.compare a b = .lt
  mem_keys_iff : ∀ k, k ∈ r.keys ↔ k ∈ ks
  isIndexed_iff : ∀ k, r.isIndexed k = true ↔ k ∈ ks
  isSome_index?_iff : ∀ k, (r.index? k).isSome = true ↔ k ∈ ks
  /-- A look-up by an indexed property yields what its index has. -/
  get_of_mem : ∀ k ∈ ks, ∀ v, ∃ ix, r.index? k = some ix ∧ (r.get k v).1 = .ok (ix.get v)
  /-- A look-up by another property fails and names the indexed ones. -/
  get_of_not_mem : ∀ k, k ∉ ks → ∀ v, (r.get k v).1 = .error (.missingIndex k r.keys)
  /-- Setting up an index again fails and changes nothing. -/
  create_of_mem : ∀ k ∈ ks, ∀ es, (Change.create k es).apply r = (.error (.indexExists k), r)
  /-- Setting up an index adds one with the given elements, and changes no other. -/
  create_of_not_mem : ∀ k, k ∉ ks → ∀ es, ∃ ix next,
    (Index.ofKey k r.owner).load r.permit es = (.ok (), ix) ∧
    (Change.create k es).apply r = (.ok (), next) ∧
    ∀ l, next.index? l = if k = l then some ix else r.index? l
  /-- There is something to give up if the property is indexed. -/
  isSome_drop?_iff : ∀ k, (r.drop? k).isSome = true ↔ k ∈ ks
  /-- Giving up an index changes no other. -/
  index?_drop : ∀ k l,
    ((Change.drop k).apply r).2.index? l = if k = l then none else r.index? l
  /-- A look-up by an indexed property stays when an index on another is set up or given up. -/
  get_apply_of_mem : ∀ (c : Change kind) k, c.key? = some k → ∀ l ∈ ks, l ≠ k → ∀ v,
    ((c.apply r).2.get l v).1 = (r.get l v).1
  /-- A look-up by a property that is not indexed still fails then, and names those indexed now. -/
  get_apply_of_not_mem : ∀ (c : Change kind) k, c.key? = some k → ∀ l, l ∉ ks → l ≠ k → ∀ v,
    ((c.apply r).2.get l v).1 = .error (.missingIndex l (c.apply r).2.keys)

/-- Setting up or giving up an index changes nothing under other keys. -/
theorem index?_apply_of_ne {c : Change kind} {k : String} (hc : c.key? = some k) {l : String}
    (hl : l ≠ k) : (c.apply r).2.index? l = r.index? l := by
  cases c with
  | create key es =>
      obtain rfl : key = k := Option.some.inj hc
      rw [index?_create, if_neg fun hk => hl hk.1.symm]
  | drop key =>
      obtain rfl : key = k := Option.some.inj hc
      rw [index?_drop, if_neg (Ne.symm hl)]
  | add e => cases hc
  | remove e => cases hc
  | replace old new => cases hc

theorem WellFormed.hasKeys (h : r.WellFormed) {ks : List String}
    (hks : ∀ k, r.isIndexed k = true ↔ k ∈ ks) : HasKeys r ks := by
  have hnot : ∀ {k}, k ∉ ks → r.isIndexed k = false := fun hk =>
    Bool.eq_false_iff.2 fun hin => hk ((hks _).1 hin)
  refine
    { sorted := h.keys_sorted
      mem_keys_iff := fun k => mem_keys_iff.trans (hks k)
      isIndexed_iff := hks
      isSome_index?_iff := hks
      get_of_mem := ?_
      get_of_not_mem := fun k hk v => congrArg Prod.fst (get_of_not_isIndexed (hnot hk) v)
      create_of_mem := ?_
      create_of_not_mem := ?_
      isSome_drop?_iff := ?_
      index?_drop := index?_drop r
      get_apply_of_mem := ?_
      get_apply_of_not_mem := ?_ }
  · intro k hk v
    obtain ⟨ix, hix⟩ := Option.isSome_iff_exists.1 ((hks k).2 hk)
    exact ⟨ix, hix, by rw [get, index?, hix]⟩
  · intro k hk es
    rw [Change.apply, create?_of_isIndexed ((hks k).2 hk)]
  · intro k hk es
    have howner : (Index.ofKey k r.owner : Index kind).owner = r.permit.owner := rfl
    refine ⟨es.foldl Index.file (.ofKey k r.owner), ((Change.create k es).apply r).2,
      Index.changeWith_of_owner howner (es.foldl Index.file ·), ?_, fun l => ?_⟩
    · rw [Change.apply, create?_of_not_isIndexed (hnot hk)]
    · rw [index?_create, hnot hk]
      simp
  · intro k
    rw [← hks]
    cases hk : r.isIndexed k with
    | true => simp [drop?_of_isIndexed hk]
    | false => simp [drop?_of_not_isIndexed hk]
  · intro c k hc l hl hne v
    exact get_congr (index?_apply_of_ne hc hne) ((hks l).2 hl) v
  · intro c k hc l hl hne v
    have hout : (c.apply r).2.isIndexed l = false := by
      rw [isIndexed_eq_isSome, index?_apply_of_ne hc hne]
      exact hnot hl
    exact congrArg Prod.fst (get_of_not_isIndexed hout v)

/-- **After every run, the keys are those set up and not given up since.** -/
theorem run_has_live_keys (owner : LockId) (counters : Option Counters) (cs : List (Change kind)) :
    HasKeys (run (ofLock owner counters) cs) (liveKeys cs) := by
  have hstart : (ofLock owner counters : Registry kind).WellFormed := .ofLock owner counters
  refine (hstart.run cs).1.hasKeys (isIndexed_run_iff hstart (fun k => ?_) cs)
  exact ⟨fun hk => absurd hk Bool.false_ne_true, fun hk => absurd hk List.not_mem_nil⟩

/-- What a look-up by a property that is not indexed names changes when an index on another property
is set up. -/
theorem create_changes_missing_keys :
    let r : Registry .vertex := run (ofLock ⟨0⟩ none) []
    let next := ((Change.create "a" []).apply r).2
    (r.get "b" (.string "x")).1 = .error (.missingIndex "b" []) ∧
      (next.get "b" (.string "x")).1 = .error (.missingIndex "b" ["a"]) ∧
      (next.get "b" (.string "x")).1 ≠ (r.get "b" (.string "x")).1 := by
  intro r next
  have hnone : r.keys = [] := List.mergeSort_nil
  have hone : next.keys = ["a"] := List.mergeSort_singleton "a"
  have hbefore : (r.get "b" (.string "x")).1 = .error (.missingIndex "b" []) := by
    rw [get_of_not_isIndexed rfl, hnone]
  have hafter : (next.get "b" (.string "x")).1 = .error (.missingIndex "b" ["a"]) := by
    rw [get_of_not_isIndexed rfl, hone]
  refine ⟨hbefore, hafter, fun hsame => ?_⟩
  rw [hbefore, hafter] at hsame
  cases hsame

end Registry

end GraphIndex
