/-
**Counting look-ups.**  A registry counts every look-up once, by whether its property was indexed when
the look-up was made.

What has been counted after a run is read off the run alone: which properties are set up at a moment is
known from the changes before it.  A look-up by one of them is a hit.  Any other is a miss, and if it
was given elements, these are scanned: all of them, or none when a null is looked for.  Nothing else
counts, whatever it does to the indexes.

Main definitions:

* `Registry.Call`, `Registry.serve` — look-ups and changes, and what they do to a registry;
* `Registry.moments` — the calls of a run, with the properties that are set up when they are made;
* `Registry.Moment.event`, `Registry.tally` — what is counted for one of them, and for all;
* `Registry.Tallied`, `Registry.Counts` — what has been counted, and what one more call would count.

Main results:

* `Registry.counters_change` — **no change of a registry counts**, whether it fails or not;
* `Registry.Tracks.counters_apply` — **a call counts what the properties that are set up say**;
* `Registry.Tracks.counters_serve` — and so does a run;
* `Registry.serve_counts` — **after every run, every look-up has been counted once**.
-/
import GraphIndex.Index.Catalog
import GraphIndex.Proofs.Registry.Keys
import Mathlib.Algebra.GroupWithZero.Nat

set_option autoImplicit false

namespace GraphIndex

variable {kind : ElementKind}

/-! ### Sums of counters -/

namespace Counters

/-- So much has been counted in addition. -/
def plus (c : Counters) (hits misses scans scanned : Nat) : Counters :=
  ⟨c.hits + .ofNat hits, c.misses + .ofNat misses, c.scans + .ofNat scans,
    c.scanned + .ofNat scanned⟩

theorem plus_zero (c : Counters) : c.plus 0 0 0 0 = c := by
  simp [plus]

theorem plus_plus (c : Counters) (h m s n h' m' s' n' : Nat) :
    (c.plus h m s n).plus h' m' s' n' = c.plus (h + h') (m + m') (s + s') (n + n') := by
  simp [plus, UInt64.add_assoc, UInt64.ofNat_add]

/-- A counter starts again from zero when it runs over. -/
theorem toNat_add_ofNat (w : UInt64) (n : Nat) :
    (w + .ofNat n).toNat = (w.toNat + n) % 2 ^ 64 := by
  rw [UInt64.toNat_add, UInt64.toNat_ofNat', Nat.add_mod_mod]

end Counters

namespace Registry

/-! ### Calls -/

/-- What is done with a registry. -/
inductive Call (kind : ElementKind) where
  | get (key : String) (v : Value)
  /-- The elements are scanned if the property is not indexed. -/
  | lookup (es : List (Element kind)) (key : String) (v : Value)
  | change (c : Change kind)

namespace Call

/-- The registry after a call. -/
def apply (r : Registry kind) : Call kind → Registry kind
  | get key v => (r.get key v).2
  | lookup es key v => (r.lookup es key v).2
  | change c => (c.apply r).2

/-- The property of a look-up. -/
def asked? : Call kind → Option String
  | get key _ => some key
  | lookup _ key _ => some key
  | change _ => none

/-- The properties that are set up after a call. -/
def live (ks : List String) : Call kind → List String
  | change c => c.live ks
  | _ => ks

end Call

/-- The registry after a run of look-ups and changes. -/
def serve (r : Registry kind) (cs : List (Call kind)) : Registry kind :=
  cs.foldl Call.apply r

/-- A call, and the properties that are set up when it is made. -/
structure Moment (kind : ElementKind) where
  keys : List String
  call : Call kind

namespace Moment

/-- A look-up by a property that is set up. -/
def isHit (m : Moment kind) : Bool :=
  m.call.asked?.any (· ∈ m.keys)

/-- A look-up by a property that is not set up. -/
def isMiss (m : Moment kind) : Bool :=
  m.call.asked?.any (· ∉ m.keys)

/-- How many elements are scanned because the property is not set up: all, or none for a null. -/
def scanned? (m : Moment kind) : Option Nat :=
  match m.call with
  | .get _ _ => none
  | .lookup es key v => if key ∈ m.keys then none else some (if v = .null then 0 else es.length)
  | .change _ => none

/-- What a registry counts for the call. -/
def event (m : Moment kind) : Counters → Counters :=
  match m.call with
  | .get key _ => if key ∈ m.keys then .hit else .miss
  | .lookup es key v =>
      if key ∈ m.keys then .hit else fun c => c.miss.scan (if v = .null then 0 else es.length)
  | .change _ => id

/-- A look-up counts a hit or a miss, and never both. -/
theorem hits_or_misses_event {m : Moment kind} {key : String} (h : m.call.asked? = some key)
    (c : Counters) :
    (key ∈ m.keys ∧ (m.event c).hits = c.hits + 1 ∧ (m.event c).misses = c.misses) ∨
      (key ∉ m.keys ∧ (m.event c).hits = c.hits ∧ (m.event c).misses = c.misses + 1) := by
  obtain ⟨ks, call⟩ := m
  cases call with
  | get key v =>
      obtain rfl := Option.some_inj.1 h
      by_cases hkey : key ∈ ks
      · exact .inl ⟨hkey, by simp [event, hkey, Counters.hit]⟩
      · exact .inr ⟨hkey, by simp [event, hkey, Counters.miss]⟩
  | lookup es key v =>
      obtain rfl := Option.some_inj.1 h
      by_cases hkey : key ∈ ks
      · exact .inl ⟨hkey, by simp [event, hkey, Counters.hit]⟩
      · exact .inr ⟨hkey, by simp [event, hkey, Counters.miss, Counters.scan]⟩
  | change c => cases h

end Moment

/-- The moments of a run that starts with the given properties set up. -/
def moments (ks : List String) : List (Call kind) → List (Moment kind)
  | [] => []
  | c :: cs => ⟨ks, c⟩ :: moments (c.live ks) cs

/-- The counters after some moments. -/
def tally (c : Counters) (ms : List (Moment kind)) : Counters :=
  c.plus (ms.countP Moment.isHit) (ms.countP Moment.isMiss) (ms.filterMap Moment.scanned?).length
    (ms.filterMap Moment.scanned?).sum

theorem tally_nil (c : Counters) : tally c ([] : List (Moment kind)) = c :=
  c.plus_zero

theorem tally_append (c : Counters) (ms ns : List (Moment kind)) :
    tally c (ms ++ ns) = tally (tally c ms) ns := by
  rw [tally, tally, tally, Counters.plus_plus, List.countP_append, List.countP_append,
    List.filterMap_append, List.length_append, List.sum_append]

/-- What a registry counts for a call is what its moment adds to the sums. -/
theorem tally_singleton (c : Counters) (m : Moment kind) : tally c [m] = m.event c := by
  obtain ⟨ks, call⟩ := m
  cases call with
  | get key v =>
      by_cases hkey : key ∈ ks <;>
        simp [tally, Moment.isHit, Moment.isMiss, Moment.scanned?, Moment.event, Call.asked?, hkey,
          List.filterMap_cons, Counters.plus, Counters.hit, Counters.miss]
  | lookup es key v =>
      by_cases hkey : key ∈ ks <;>
        simp [tally, Moment.isHit, Moment.isMiss, Moment.scanned?, Moment.event, Call.asked?, hkey,
          Counters.plus, Counters.hit, Counters.miss, Counters.scan]
  | change c =>
      simp [tally, Moment.isHit, Moment.isMiss, Moment.scanned?, Moment.event, Call.asked?,
        List.filterMap_cons, Counters.plus]

/-- Every look-up is either a hit or a miss. -/
theorem countP_isHit_add_isMiss (ms : List (Moment kind)) :
    ms.countP Moment.isHit + ms.countP Moment.isMiss = ms.countP (·.call.asked?.isSome) := by
  induction ms with
  | nil => rfl
  | cons m ms ih =>
      rw [List.countP_cons, List.countP_cons, List.countP_cons, ← ih, Moment.isHit, Moment.isMiss]
      cases m.call.asked? with
      | none => simp
      | some key => by_cases hkey : key ∈ m.keys <;> simp [hkey] <;> omega

/-! ### Changes -/

variable {r : Registry kind}

theorem counters_replace (r : Registry kind) (old new : Element kind) :
    (r.replace old new).2.counters = r.counters := by
  rw [replace]
  split
  · next removed hremove => exact (congrArg (·.2.counters) hremove).symm
  · next stopped hremove => exact (congrArg (·.2.counters) hremove).symm

/-- **No change of a registry counts**, whether it fails or not. -/
theorem counters_change (r : Registry kind) (c : Change kind) :
    (c.apply r).2.counters = r.counters := by
  cases c with
  | create key es =>
      rw [Change.apply, create?]
      cases r.isIndexed key with
      | true => rfl
      | false =>
          rw [if_neg Bool.false_ne_true]
          rcases (Index.ofKey key r.owner).load r.permit es with ⟨_ | _, ix⟩ <;> rfl
  | drop key =>
      rw [Change.apply, drop?]
      cases r.isIndexed key <;> rfl
  | add e => rfl
  | remove e => rfl
  | replace old new => exact r.counters_replace old new

theorem counters_changeInTurn {change : Registry kind → Element kind →
      Except IndexError Unit × Registry kind}
    (h : ∀ r e, (change r e).2.counters = r.counters) (es : List (Element kind)) :
    (r.changeInTurn change es).2.counters = r.counters := by
  induction es generalizing r with
  | nil => rfl
  | cons e es ih =>
      rw [changeInTurn]
      split
      · next next hnext =>
          rw [ih, ← h r e, hnext]
      · next stopped hstopped =>
          rw [← h r e, hstopped]

/-- A change of an index under a name does not count either. -/
theorem counters_update? (c : Catalog kind) (name : String)
    (change : Index kind → Except IndexError Unit × Index kind) :
    ∀ p ∈ c.update? name change, p.2.registry.counters = c.registry.counters := by
  intro p hp
  rw [Option.mem_def, Catalog.update?, Option.bind_eq_some_iff] at hp
  obtain ⟨ref, -, hp⟩ := hp
  obtain ⟨ix, -, rfl⟩ := Option.map_eq_some_iff.1 hp
  cases ref <;> rfl

/-! ### Look-ups -/

/-- An index that is looked up is a hit, and a look-up without one is a miss. -/
theorem get_snd (r : Registry kind) (key : String) (v : Value) :
    (r.get key v).2 = r.count (if r.isIndexed key = true then Counters.hit else Counters.miss) := by
  rw [get, isIndexed_eq_isSome]
  cases r.index? key <;> rfl

/-- With an index, nothing is scanned. -/
theorem lookup_of_isIndexed {key : String} (h : r.isIndexed key = true) (es : List (Element kind))
    (v : Value) : (r.lookup es key v).2 = r.count Counters.hit := by
  obtain ⟨ix, hix⟩ := Option.isSome_iff_exists.1 h
  have hget : r.get key v = (.ok (ix.get v), r.count Counters.hit) := by
    rw [get, index?, hix]
  rw [lookup, hget]

/-- Without an index, the elements are scanned, and those that the scan takes are counted. -/
theorem lookup_of_not_isIndexed {key : String} (h : r.isIndexed key = false)
    (es : List (Element kind)) (v : Value) :
    r.lookup es key v =
      (scanFor es key v, r.count fun c => c.miss.scan (if v = .null then 0 else es.length)) := by
  rw [lookup, get_of_not_isIndexed h, inspect_eq]
  dsimp only [count]
  rw [Option.map_map]
  rfl

theorem WellFormed.count (h : r.WellFormed) (event : Counters → Counters) :
    (r.count event).WellFormed :=
  ⟨h.nodup, h.keyed, h.owned⟩

/-! ### Runs -/

/-- The registry is well-formed, and the given properties are the indexed ones. -/
structure Tracks (r : Registry kind) (ks : List String) : Prop where
  wellFormed : r.WellFormed
  isIndexed_iff : ∀ k, r.isIndexed k = true ↔ k ∈ ks

variable {ks : List String}

/-- A new registry has no index. -/
theorem Tracks.ofLock (owner : LockId) (counters : Option Counters) :
    Tracks (ofLock owner counters : Registry kind) [] where
  wellFormed := .ofLock owner counters
  isIndexed_iff _ :=
    ⟨fun hk => absurd hk Bool.false_ne_true, fun hk => absurd hk List.not_mem_nil⟩

theorem Tracks.isIndexed_eq_false (h : Tracks r ks) {k : String} (hk : k ∉ ks) :
    r.isIndexed k = false :=
  Bool.eq_false_iff.2 fun hin => hk ((h.isIndexed_iff k).1 hin)

theorem Tracks.count (h : Tracks r ks) (event : Counters → Counters) : Tracks (r.count event) ks :=
  ⟨h.wellFormed.count event, h.isIndexed_iff⟩

/-- Look-ups keep the properties that are set up, and changes change them. -/
theorem Tracks.apply (h : Tracks r ks) (c : Call kind) : Tracks (c.apply r) (c.live ks) := by
  cases c with
  | get key v =>
      rw [Call.apply, get_snd]
      exact h.count _
  | lookup es key v =>
      rw [Call.apply]
      cases hkey : r.isIndexed key with
      | true =>
          rw [lookup_of_isIndexed hkey]
          exact h.count _
      | false =>
          rw [lookup_of_not_isIndexed hkey]
          exact h.count _
  | change c => exact ⟨(h.wellFormed.apply c).1, isIndexed_apply_iff h.wellFormed h.isIndexed_iff c⟩

/-- **A call counts what the properties that are set up say.** -/
theorem Tracks.counters_apply (h : Tracks r ks) (c : Call kind) :
    (c.apply r).counters = r.counters.map (Moment.event ⟨ks, c⟩) := by
  cases c with
  | get key v =>
      rw [Call.apply, get_snd, Moment.event]
      by_cases hkey : key ∈ ks
      · rw [if_pos ((h.isIndexed_iff key).2 hkey)]
        dsimp only
        rw [if_pos hkey]
        rfl
      · rw [h.isIndexed_eq_false hkey, if_neg Bool.false_ne_true]
        dsimp only
        rw [if_neg hkey]
        rfl
  | lookup es key v =>
      rw [Call.apply, Moment.event]
      dsimp only
      by_cases hkey : key ∈ ks
      · rw [lookup_of_isIndexed ((h.isIndexed_iff key).2 hkey), if_pos hkey]
        rfl
      · rw [lookup_of_not_isIndexed (h.isIndexed_eq_false hkey), if_neg hkey]
        rfl
  | change c =>
      rw [Call.apply, counters_change]
      exact Option.map_id'.symm

/-- **A run counts what its moments say.** -/
theorem Tracks.counters_serve (h : Tracks r ks) (cs : List (Call kind)) :
    (serve r cs).counters = r.counters.map (tally · (moments ks cs)) := by
  induction cs generalizing r ks with
  | nil =>
      rw [moments]
      simp [serve, tally_nil]
  | cons c cs ih =>
      have hsplit : ∀ d, tally d (moments ks (c :: cs)) =
          tally (Moment.event ⟨ks, c⟩ d) (moments (c.live ks) cs) := by
        intro d
        rw [moments, ← tally_singleton, ← tally_append, List.singleton_append]
      rw [serve, List.foldl_cons, ← serve, ih (h.apply c), h.counters_apply c, Option.map_map]
      exact congrArg (Option.map · r.counters) (funext fun d => (hsplit d).symm)

theorem Tracks.serve (h : Tracks r ks) (cs : List (Call kind)) :
    Tracks (serve r cs) (cs.foldl Call.live ks) := by
  induction cs generalizing r ks with
  | nil => exact h
  | cons c cs ih => exact ih (h.apply c)

/-- The counters `d` are those of a run that has led from the counters `c` through some moments. -/
structure Tallied (c : Counters) (ms : List (Moment kind)) (d : Counters) : Prop where
  hits : d.hits.toNat = (c.hits.toNat + ms.countP Moment.isHit) % 2 ^ 64
  misses : d.misses.toNat = (c.misses.toNat + ms.countP Moment.isMiss) % 2 ^ 64
  scans : d.scans.toNat = (c.scans.toNat + (ms.filterMap Moment.scanned?).length) % 2 ^ 64
  scanned : d.scanned.toNat = (c.scanned.toNat + (ms.filterMap Moment.scanned?).sum) % 2 ^ 64
  /-- Every look-up is counted once. -/
  lookups : ms.countP Moment.isHit + ms.countP Moment.isMiss = ms.countP (·.call.asked?.isSome)

theorem tallied_tally (c : Counters) (ms : List (Moment kind)) : Tallied c ms (tally c ms) :=
  ⟨Counters.toNat_add_ofNat _ _, Counters.toNat_add_ofNat _ _, Counters.toNat_add_ofNat _ _,
    Counters.toNat_add_ofNat _ _, countP_isHit_add_isMiss ms⟩

/-- What one more call counts, if the given properties are the indexed ones. -/
structure Counts (r : Registry kind) (ks : List String) : Prop where
  isIndexed_iff : ∀ k, r.isIndexed k = true ↔ k ∈ ks
  apply : ∀ c : Call kind, (c.apply r).counters = r.counters.map (Moment.event ⟨ks, c⟩)
  /-- A look-up counts a hit or a miss, and never both. -/
  lookup : ∀ (c : Call kind) (key : String), c.asked? = some key → ∀ d,
    (key ∈ ks ∧ (Moment.event ⟨ks, c⟩ d).hits = d.hits + 1 ∧
      (Moment.event ⟨ks, c⟩ d).misses = d.misses) ∨
    (key ∉ ks ∧ (Moment.event ⟨ks, c⟩ d).hits = d.hits ∧
      (Moment.event ⟨ks, c⟩ d).misses = d.misses + 1)
  /-- A scan takes all elements, or none for a null, and finds those with the value. -/
  scan : ∀ key, key ∉ ks → ∀ (es : List (Element kind)) v,
    (r.lookup es key v).1 = scanFor es key v ∧
      inspect es key v = (scanFor es key v, if v = .null then 0 else es.length)
  change : ∀ c : Change kind, (c.apply r).2.counters = r.counters
  addAll : ∀ es, (r.addAll es).2.counters = r.counters
  removeAll : ∀ es, (r.removeAll es).2.counters = r.counters
  /-- Nor does a change count that is made under a name. -/
  update? : ∀ (c : Catalog kind), c.registry = r → ∀ name change, ∀ p ∈ c.update? name change,
    p.2.registry.counters = r.counters

theorem Tracks.counts (h : Tracks r ks) : Counts r ks where
  isIndexed_iff := h.isIndexed_iff
  apply := h.counters_apply
  lookup c _ hkey := Moment.hits_or_misses_event (m := ⟨ks, c⟩) hkey
  scan key hkey es v := by
    rw [lookup_of_not_isIndexed (h.isIndexed_eq_false hkey)]
    exact ⟨rfl, inspect_eq es key v⟩
  change := r.counters_change
  addAll := counters_changeInTurn fun _ _ => rfl
  removeAll := counters_changeInTurn fun _ _ => rfl
  update? c hc name change := hc ▸ counters_update? c name change

/-- **After every run, every look-up has been counted once.**  Let look-ups of both kinds and changes
follow one another in any order.  Then the hits are the look-ups whose property was set up when they were
made, and the misses are the others.  The scans are those of the misses that were given elements, and what
was scanned are all elements given to them, except where a null was looked for.  The counters are words, so
all this is modulo `2 ^ 64`.  No change has counted, whichever it was and however it ended. -/
theorem serve_counts (owner : LockId) (c : Counters) (cs : List (Call kind)) :
    (∃ d, (serve (ofLock owner (some c)) cs).counters = some d ∧ Tallied c (moments [] cs) d) ∧
      Counts (serve (ofLock owner (some c)) cs) (cs.foldl Call.live []) := by
  have hstart : Tracks (ofLock owner (some c) : Registry kind) [] := .ofLock owner (some c)
  refine ⟨⟨tally c (moments [] cs), ?_, tallied_tally c _⟩, (hstart.serve cs).counts⟩
  rw [hstart.counters_serve]
  rfl

example :
    let e : Vertex := .ofId ⟨1⟩ "person" ()
    let f : Vertex := .ofId ⟨2⟩ "person" ()
    let es := [e.setProperty "city" (.string "oslo"), f.setProperty "city" (.string "rome")]
    (serve (ofLock ⟨0⟩ (some .zero)) [.lookup es "city" (.string "rome"),
      .change (.create "city" es), .lookup es "city" (.string "rome"), .lookup es "name" .null,
      .change (.drop "city"), .get "city" (.string "rome")]).counters = some ⟨1, 3, 2, 2⟩ := by
  decide +kernel

end Registry

end GraphIndex
