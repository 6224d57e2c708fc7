/-
**The invariant of indexes.**  An index files every element of the graph that a scan would find,
once and as it is at present, under the key of its value, and nothing else.

Elements are compared by their numbers alone, and so a graph is a list of distinct elements.  For
each key, the set filed under it represents the elements of the graph with this key.  Filing a new
element and withdrawing a present one keep this so.  An element may be withdrawn by any state of it
that still has the filed value.

Main definitions:

* `foundAt` — the elements of a graph with a key;
* `Index.Files` — the index agrees with the elements of a graph;
* `Registry.Consistent` — all indexes of a registry do.

Main results:

* `Index.Files.file`, `Index.Files.withdraw`, `Index.Files.foldl_file` — **filing, withdrawing and
  loading keep an index and the graph together**;
* `Registry.Consistent.add`, `Registry.Consistent.remove`, `Registry.Consistent.replace`,
  `Registry.Consistent.create`, `Registry.Consistent.drop` — the same for a registry;
* `inspect_eq` — a scan takes every element, unless a null is looked for;
* `Registry.Consistent.get_perm`, `Registry.Consistent.lookup_perm` — **a registered index finds
  what a scan finds**.
-/
import GraphIndex.Index.Scan
import GraphIndex.Proofs.CompactSet.Invariant
import Std.Data.TreeMap.Lemmas

set_option autoImplicit false

namespace GraphIndex

variable {kind : ElementKind}

/-! ### Found elements -/

/-- The elements of a graph that an index on a property files under a key. -/
def foundAt (key : String) (k : ValueKey) (es : List (Element kind)) : List (Element kind) :=
  es.filter (·.isFound key k)

theorem isFound_iff {e : Element kind} {key : String} {k : ValueKey} :
    e.isFound key k = true ↔ e.isDeleted = false ∧ e.keyFor? key = some k := by
  rw [Element.isFound, Bool.and_eq_true, Bool.not_eq_true', beq_iff_eq]

theorem foundAt_cons_of_found {e : Element kind} {key : String} {k : ValueKey}
    (es : List (Element kind)) (h : e.isFound key k = true) :
    foundAt key k (e :: es) = e :: foundAt key k es :=
  List.filter_cons_of_pos h

theorem foundAt_cons_of_not_found {e : Element kind} {key : String} {k : ValueKey}
    (es : List (Element kind)) (h : ¬ e.isFound key k = true) :
    foundAt key k (e :: es) = foundAt key k es :=
  List.filter_cons_of_neg h

theorem contains_foundAt_of_contains {e : Element kind} {es : List (Element kind)}
    (h : es.contains e = false) (key : String) (k : ValueKey) :
    (foundAt key k es).contains e = false :=
  contains_eq_false_iff.2 fun f hf => contains_eq_false_iff.1 h f (List.mem_filter.1 hf).1

theorem foundAt_without (es : List (Element kind)) (e : Element kind) (key : String)
    (k : ValueKey) : foundAt key k (without es e) = without (foundAt key k es) e := by
  rw [foundAt, foundAt, without, without, List.filter_filter, List.filter_filter]
  exact List.filter_congr fun f _ => Bool.and_comm _ _

theorem distinct_iff_nodup {es : List (Element kind)} :
    Distinct es ↔ (es.map Element.id).Nodup := by
  rw [Distinct, List.Nodup, List.pairwise_map]
  simp only [BEq.beq, decide_eq_false_iff_not, ne_eq]

theorem filter_id_ne (es : List (Element kind)) (e : Element kind) :
    es.filter (·.id ≠ e.id) = without es e := by
  refine List.filter_congr fun f _ => ?_
  simp only [BEq.beq, ne_eq, decide_not]

theorem contains_eq_false_of_id_ne {es : List (Element kind)} {e : Element kind}
    (h : ∀ f ∈ es, f.id ≠ e.id) : es.contains e = false := by
  refine contains_eq_false_iff.2 fun f hf => ?_
  simpa [BEq.beq] using (h f hf).symm

/-- A scan finds elements of the graph, as they are there. -/
theorem scanFor_sublist (es : List (Element kind)) (key : String) (v : Value) :
    (scanFor es key v).Sublist es := by
  rw [scanFor]
  split
  · exact List.nil_sublist es
  · next k _ =>
      rw [Element.map_detached]
      exact List.filter_sublist

theorem takeFound_eq (key : String) (k : ValueKey) (es : List (Element kind)) :
    takeFound key k es = ((es.filter (·.isFound key k)).map Element.detached, es.length) := by
  induction es with
  | nil => rfl
  | cons e es ih =>
      rw [takeFound, ih]
      cases he : e.isFound key k with
      | true => simp [he]
      | false => simp [he]

/-- **A scan takes every element, unless a null is looked for.** -/
theorem inspect_eq (es : List (Element kind)) (key : String) (v : Value) :
    inspect es key v = (scanFor es key v, if v = .null then 0 else es.length) := by
  rw [inspect, scanFor]
  cases v with
  | null => rfl
  | _ => exact takeFound_eq key _ es

/-- An element of the graph without this key is not among those with it. -/
theorem contains_foundAt_of_not_found {es : List (Element kind)} (hd : Distinct es)
    {e f : Element kind} (hf : f ∈ es) (hfe : (f == e) = true) {key : String} {k : ValueKey}
    (h : f.keyFor? key ≠ some k) : (foundAt key k es).contains e = false := by
  refine contains_eq_false_iff.2 fun g hg => ?_
  obtain ⟨hges, hfound⟩ := List.mem_filter.1 hg
  cases heg : e == g with
  | false => rfl
  | true =>
      -- the graph has one element with this number only
      obtain rfl := hd.eq_of_beq hf hges (BEq.trans hfe heg)
      exact absurd (isFound_iff.1 hfound).2 h

namespace Index

/-! ### One index -/

/-- The set filed under each key represents the elements of the graph with this key. -/
def Files (ix : Index kind) (es : List (Element kind)) : Prop :=
  ∀ k, CompactSet.Represents ix.entries[k]? (foundAt ix.key k es)

theorem getElem?_alter (ix : Index kind) (k l : ValueKey)
    (f : Option (CompactSet (Element kind)) → Option (CompactSet (Element kind))) :
    (ix.entries.alter k f)[l]? = if k = l then f ix.entries[k]? else ix.entries[l]? := by
  rw [Std.TreeMap.getElem?_alter]
  simp only [Std.LawfulEqCmp.compare_eq_iff_eq]

/-- Filing an element adds it to the set under its key, unless it is deleted. -/
theorem getElem?_file (ix : Index kind) (e : Element kind) (k : ValueKey) :
    (ix.file e).entries[k]? =
      if e.isFound ix.key k = true then CompactSet.add ix.entries[k]? e else ix.entries[k]? := by
  simp only [file, isFound_iff, keyOf?]
  cases e.isDeleted with
  | true => simp
  | false =>
      cases e.keyFor? ix.key with
      | none => simp
      | some l =>
          rw [if_neg Bool.false_ne_true]
          dsimp only
          rw [getElem?_alter]
          by_cases hlk : l = k
          · simp [hlk]
          · simp [hlk]

/-- Withdrawing an element removes it from the set under its key, deleted or not. -/
theorem getElem?_withdraw (ix : Index kind) (e : Element kind) (k : ValueKey) :
    (ix.withdraw e).entries[k]? =
      if e.keyFor? ix.key = some k then CompactSet.remove ix.entries[k]? e
      else ix.entries[k]? := by
  rw [withdraw, keyOf?]
  cases e.keyFor? ix.key with
  | none => simp
  | some l =>
      dsimp only
      rw [getElem?_alter]
      by_cases hlk : l = k
      · simp [hlk]
      · simp [hlk]

theorem file_fixed (ix : Index kind) (e : Element kind) :
    (ix.file e).key = ix.key ∧ (ix.file e).owner = ix.owner := by
  rw [file]
  split
  · exact ⟨rfl, rfl⟩
  · split <;> exact ⟨rfl, rfl⟩

theorem foldl_file_fixed (ix : Index kind) (es : List (Element kind)) :
    (es.foldl Index.file ix).key = ix.key ∧ (es.foldl Index.file ix).owner = ix.owner := by
  induction es generalizing ix with
  | nil => exact ⟨rfl, rfl⟩
  | cons e es ih =>
      obtain ⟨hkey, howner⟩ := file_fixed ix e
      obtain ⟨hkeys, howners⟩ := ih (ix.file e)
      exact ⟨hkeys.trans hkey, howners.trans howner⟩

theorem withdraw_fixed (ix : Index kind) (e : Element kind) :
    (ix.withdraw e).key = ix.key ∧ (ix.withdraw e).owner = ix.owner := by
  rw [withdraw]
  split <;> exact ⟨rfl, rfl⟩

theorem Files.ofKey (key : String) (owner : LockId) :
    Files (ofKey key owner : Index kind) [] := by
  intro k
  have hnone : (Index.ofKey key owner : Index kind).entries[k]? = none :=
    Std.TreeMap.getElem?_emptyc
  rw [hnone]
  exact CompactSet.Represents.none

/-- The order of the elements does not matter. -/
theorem Files.perm {ix : Index kind} {es fs : List (Element kind)} (h : ix.Files es)
    (p : es.Perm fs) : ix.Files fs :=
  fun k => (h k).of_perm (p.filter _)

/-- **Filing an element that is new to the graph.** -/
theorem Files.file {ix : Index kind} {es : List (Element kind)} (h : ix.Files es)
    {e : Element kind} (he : es.contains e = false) : (ix.file e).Files (e :: es) := by
  intro k
  rw [(file_fixed ix e).1, getElem?_file]
  split
  · next hfound =>
      have hadd := (h k).add e
      rw [insert_of_contains_eq_false (contains_foundAt_of_contains he _ _)] at hadd
      rw [foundAt_cons_of_found es hfound]
      exact hadd
  · next hnot =>
      rw [foundAt_cons_of_not_found es hnot]
      exact h k

/-- **Withdrawing an element of the graph**, by any state of it with the value it has there. -/
theorem Files.withdraw {ix : Index kind} {es : List (Element kind)} (h : ix.Files es)
    (hd : Distinct es) {e f : Element kind} (hf : f ∈ es) (hfe : (f == e) = true)
    (hkeys : f.keyFor? ix.key = e.keyFor? ix.key) : (ix.withdraw e).Files (without es e) := by
  intro k
  rw [(withdraw_fixed ix e).1, foundAt_without, getElem?_withdraw]
  split
  · exact (h k).remove e
  · next hnot =>
      rw [← hkeys] at hnot
      rw [without_of_contains_eq_false (contains_foundAt_of_not_found hd hf hfe hnot)]
      exact h k

/-- **Loading the elements of a graph**, beside those that are filed. -/
theorem Files.foldl_file {ix : Index kind} {fs : List (Element kind)} (h : ix.Files fs)
    {es : List (Element kind)} (hd : Distinct (es ++ fs)) :
    (es.foldl Index.file ix).Files (es ++ fs) := by
  induction es generalizing ix fs with
  | nil => exact h
  | cons e es ih =>
      have hfs : fs.contains e = false := by
        rw [List.cons_append] at hd
        have hboth := (distinct_cons.1 hd).1
        rw [List.contains_append, Bool.or_eq_false_iff] at hboth
        exact hboth.2
      exact (ih (h.file hfs) (hd.perm List.perm_middle.symm)).perm List.perm_middle

/-- **A registered index finds what a scan finds.** -/
theorem Files.get_perm {ix : Index kind} {es : List (Element kind)} (h : ix.Files es)
    (v : Value) : (ix.get v).Perm (scanFor es ix.key v) := by
  rw [get, scanFor]
  cases hv : ValueKey.ofValue? v with
  | none => exact List.Perm.refl _
  | some k =>
      have hperm := (h k).perm
      rw [CompactSet.toList_view] at hperm
      dsimp only [Option.bind_some, entry?]
      cases hs : ix.entries[k]? with
      | none =>
          rw [hs] at hperm
          exact hperm.map _
      | some s =>
          rw [hs] at hperm
          exact hperm.map _

/-- A permit of the lock of an index lets it be changed. -/
theorem changeWith_of_owner {ix : Index kind} {p : Permit} (h : ix.owner = p.owner)
    (change : Index kind → Index kind) : ix.changeWith p change = (.ok (), change ix) := by
  rw [changeWith, Permit.check, if_pos h.symm]

end Index

/-! ### All indexes of a registry -/

namespace Registry

/-- Every index is on the property under which it is registered, belongs to the lock of the registry
and agrees with the elements of a graph. -/
structure Consistent (r : Registry kind) (es : List (Element kind)) : Prop where
  /-- The elements of the graph have different numbers. -/
  distinct : Distinct es
  /-- An index is registered under its property. -/
  keyed : ∀ p ∈ r.indexes.pairs, p.2.key = p.1
  /-- The indexes belong to the lock of the registry. -/
  owned : ∀ p ∈ r.indexes.pairs, p.2.owner = r.owner
  /-- The indexes agree with the graph. -/
  files : ∀ p ∈ r.indexes.pairs, p.2.Files es

variable {r : Registry kind} {es fs : List (Element kind)}

theorem Consistent.ofLock (owner : LockId) (counters : Option Counters) (h : Distinct es) :
    (ofLock owner counters).Consistent es where
  distinct := h
  keyed _ hp := absurd hp List.not_mem_nil
  owned _ hp := absurd hp List.not_mem_nil
  files _ hp := absurd hp List.not_mem_nil

/-- The order of the elements does not matter. -/
theorem Consistent.perm (h : r.Consistent es) (p : es.Perm fs) : r.Consistent fs :=
  ⟨h.distinct.perm p, h.keyed, h.owned, fun q hq => (h.files q hq).perm p⟩

/-- What is counted does not matter. -/
theorem Consistent.count (h : r.Consistent es) (event : Counters → Counters) :
    (r.count event).Consistent es :=
  ⟨h.distinct, h.keyed, h.owned, h.files⟩

theorem changeEach_eq {change : Index kind → Except IndexError Unit × Index kind}
    {g : Index kind → Index kind} {ps : List (String × Index kind)}
    (h : ∀ p ∈ ps, change p.2 = (.ok (), g p.2)) :
    changeEach change ps = (.ok (), ps.map fun p => (p.1, g p.2)) := by
  induction ps with
  | nil => rfl
  | cons p ps ih =>
      rw [changeEach, h p List.mem_cons_self, ih fun q hq => h q (List.mem_cons_of_mem p hq)]
      rfl

/-- The registry with every index changed. -/
def mapIndexes (r : Registry kind) (g : Index kind → Index kind) : Registry kind :=
  { r with indexes := ⟨r.indexes.pairs.map fun p => (p.1, g p.2)⟩ }

/-- A change with the permit of a writer reaches every index of the lock of the registry. -/
theorem changeAll_eq (h : ∀ p ∈ r.indexes.pairs, p.2.owner = r.owner) (g : Index kind → Index kind) :
    (r.changeAll fun p ix => ix.changeWith p g) = (.ok (), r.mapIndexes g) := by
  rw [changeAll]
  dsimp only
  rw [changeEach_eq fun p hp => Index.changeWith_of_owner (h p hp) g]
  rfl

/-- Without an index on the property, a new one is set up with the elements given. -/
theorem create?_of_not_isIndexed {key : String} (h : r.isIndexed key = false)
    (es : List (Element kind)) :
    r.create? key es =
      .ok { r with indexes := r.indexes.insert key (es.foldl Index.file (.ofKey key r.owner)) } := by
  rw [create?, h, if_neg Bool.false_ne_true, Index.load, Index.changeWith_of_owner rfl]

/-- **A change that every index follows is followed by the registry**, and no index refuses it. -/
theorem Consistent.changeAll (h : r.Consistent es) (hd : Distinct fs)
    {g : Index kind → Index kind} (hfixed : ∀ ix, (g ix).key = ix.key ∧ (g ix).owner = ix.owner)
    (hfiles : ∀ ix : Index kind, ix.Files es → (g ix).Files fs) :
    ∃ r' : Registry kind, (r.changeAll fun p ix => ix.changeWith p g) = (.ok (), r') ∧
      r'.Consistent fs := by
  refine ⟨r.mapIndexes g, changeAll_eq h.owned g, hd, ?_, ?_, ?_⟩
  · intro q hq
    obtain ⟨p, hp, rfl⟩ := List.mem_map.1 hq
    exact (hfixed p.2).1.trans (h.keyed p hp)
  · intro q hq
    obtain ⟨p, hp, rfl⟩ := List.mem_map.1 hq
    exact (hfixed p.2).2.trans (h.owned p hp)
  · intro q hq
    obtain ⟨p, hp, rfl⟩ := List.mem_map.1 hq
    exact hfiles p.2 (h.files p hp)

/-- **Adding an element that is new to the graph.** -/
theorem Consistent.add (h : r.Consistent es) {e : Element kind} (he : es.contains e = false) :
    ∃ r' : Registry kind, r.add e = (.ok (), r') ∧ r'.Consistent (e :: es) :=
  h.changeAll (distinct_cons.2 ⟨he, h.distinct⟩) (Index.file_fixed · e) fun _ hix => hix.file he

/-- **Removing an element of the graph**, by any state of it with the same values. -/
theorem Consistent.remove (h : r.Consistent es) {e f : Element kind} (hf : f ∈ es)
    (hfe : (f == e) = true) (hkeys : ∀ key, f.keyFor? key = e.keyFor? key) :
    ∃ r' : Registry kind, r.remove e = (.ok (), r') ∧ r'.Consistent (without es e) :=
  h.changeAll (h.distinct.without e) (Index.withdraw_fixed · e) fun _ hix =>
    hix.withdraw h.distinct hf hfe (hkeys _)

/-- An element that is marked as deleted is not filed. -/
theorem Consistent.cons_of_isDeleted (h : r.Consistent es) {e : Element kind}
    (he : es.contains e = false) (hdel : e.isDeleted = true) : r.Consistent (e :: es) := by
  refine ⟨distinct_cons.2 ⟨he, h.distinct⟩, h.keyed, h.owned, fun p hp k => ?_⟩
  have hnot : ¬ e.isFound p.2.key k = true := by
    rw [isFound_iff, hdel]
    exact fun hfound => absurd hfound.1 (by simp)
  rw [foundAt_cons_of_not_found es hnot]
  exact h.files p hp k

/-- **Replacing an element of the graph** by another state of it. -/
theorem Consistent.replace (h : r.Consistent es) {old new : Element kind} (hold : old ∈ es)
    (hnew : (new == old) = true) :
    ∃ r' : Registry kind, r.replace old new = (.ok (), r') ∧
      r'.Consistent (new :: without es old) := by
  obtain ⟨r₁, hremove, h₁⟩ := h.remove hold BEq.rfl fun _ => rfl
  have hgone : (without es old).contains new = false := by
    rw [contains_without, hnew]
    rfl
  obtain ⟨r₂, hadd, h₂⟩ := h₁.add hgone
  refine ⟨r₂, ?_, h₂⟩
  rw [Registry.replace, hremove]
  exact hadd

/-- **Setting up an index on a property that has none**, with the elements of the graph. -/
theorem Consistent.create (h : r.Consistent es) {key : String} (hkey : r.isIndexed key = false)
    (p : fs.Perm es) :
    ∃ r' : Registry kind, r.create? key fs = .ok r' ∧ r'.Consistent es := by
  have hfs : Distinct (fs ++ []) := by
    rw [List.append_nil]
    exact h.distinct.perm p.symm
  have hfiles := (Index.Files.ofKey key r.owner).foldl_file hfs
  rw [List.append_nil] at hfiles
  obtain ⟨hname, howner⟩ := Index.foldl_file_fixed (Index.ofKey key r.owner) fs
  have hpairs : ∀ q ∈ (r.indexes.insert key (fs.foldl Index.file (.ofKey key r.owner))).pairs,
      q = (key, fs.foldl Index.file (.ofKey key r.owner)) ∨ q ∈ r.indexes.pairs := fun q =>
    KeyedList.mem_insertPair
  refine ⟨_, create?_of_not_isIndexed hkey fs, h.distinct, ?_, ?_, ?_⟩
  · intro q hq
    rcases hpairs q hq with rfl | hq
    · exact hname
    · exact h.keyed q hq
  · intro q hq
    rcases hpairs q hq with rfl | hq
    · exact howner
    · exact h.owned q hq
  · intro q hq
    rcases hpairs q hq with rfl | hq
    · exact hfiles.perm p
    · exact h.files q hq

theorem Consistent.drop (h : r.Consistent es) {key : String} {r' : Registry kind}
    (hr' : r.drop? key = some r') : r'.Consistent es := by
  rw [drop?] at hr'
  split at hr'
  · rw [← Option.some_inj.1 hr']
    have hmem : ∀ q, q ∈ (r.indexes.erase key).pairs → q ∈ r.indexes.pairs := fun q hq =>
      (List.mem_filter.1 hq).1
    exact ⟨h.distinct, fun q hq => h.keyed q (hmem q hq), fun q hq => h.owned q (hmem q hq),
      fun q hq => h.files q (hmem q hq)⟩
  · simp at hr'

/-- **An index that is registered finds what a scan finds.** -/
theorem Consistent.get_perm (h : r.Consistent es) {key : String} (hkey : r.isIndexed key = true)
    (v : Value) :
    ∃ found, r.get key v = (.ok found, r.count Counters.hit) ∧ found.Perm (scanFor es key v) := by
  obtain ⟨ix, hix⟩ := Option.isSome_iff_exists.1 hkey
  have hmem : (key, ix) ∈ r.indexes.pairs := KeyedList.mem_of_findPair_eq_some hix
  have hname : ix.key = key := h.keyed _ hmem
  have hperm := (h.files _ hmem).get_perm v
  rw [hname] at hperm
  refine ⟨ix.get v, ?_, hperm⟩
  rw [get, index?, hix]

theorem get_of_not_isIndexed {key : String} (h : r.isIndexed key = false) (v : Value) :
    r.get key v = (.error (.missingIndex key r.keys), r.count Counters.miss) := by
  have hnone : r.index? key = none := by
    rwa [isIndexed, KeyedList.contains, Option.isSome_eq_false_iff, Option.isNone_iff_eq_none] at h
  rw [get, hnone]

/-- A look-up finds what a scan finds, whether the property is indexed or not. -/
theorem Consistent.lookup_perm (h : r.Consistent es) (key : String) (v : Value) :
    (r.lookup es key v).1.Perm (scanFor es key v) := by
  cases hkey : r.isIndexed key with
  | true =>
      obtain ⟨found, hfound, hperm⟩ := h.get_perm hkey v
      rw [lookup, hfound]
      exact hperm
  | false =>
      rw [lookup, get_of_not_isIndexed hkey, inspect_eq]

/-- A look-up changes nothing but the counters. -/
theorem Consistent.lookup (h : r.Consistent es) (key : String) (v : Value) :
    (r.lookup fs key v).2.Consistent es := by
  cases hkey : r.isIndexed key with
  | true =>
      obtain ⟨found, hfound, -⟩ := h.get_perm hkey v
      rw [Registry.lookup, hfound]
      exact h.count _
  | false =>
      rw [Registry.lookup, get_of_not_isIndexed hkey]
      exact (h.count _).count _

end Registry

end GraphIndex
