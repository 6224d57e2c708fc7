/-
**Every placement finds a hole.**  The walk that looks for a place for a value has no counter: it ends
because there is a hole somewhere in the table.

Values are placed when a table is built, when it is rebuilt before an insertion or after a removal,
one by one into a table that fills up, and at the end of an insertion.  This module lists the
placements of each of these operations, every one with the table as it is at that moment, and shows
that each of them comes to a hole before the walk is around.  All that is needed for it are the
numbers: the watermarks leave a hole in every table on the way.  So it does not matter what the digest
of a value is, or whether equal values have the same one.

Main definitions:

* `ProbeTable.placements` — the placements of values one after the other;
* `ProbeTable.insertPlacements`, `ProbeTable.erasePlacements` — those of the two changes;
* `ProbeTable.insertStart`, `ProbeTable.eraseStart` — the tables that these begin with;
* `ProbeTable.Leads` — placements that are made one after the other;
* `ProbeTable.PlacesInFirstHole` — what one placement has to do.

Main results:

* `ProbeTable.Counted.placesInFirstHole` — in a table with room a placement comes to a hole;
* `ProbeTable.every_placement_ends` — **every placement comes to a hole**, and fills the first one.
-/
import GraphIndex.Proofs.ProbeTable.Run
import GraphIndex.Proofs.ProbeTable.Search

set_option autoImplicit false

namespace GraphIndex

namespace ProbeTable

variable {α : Type} [Digest α]

/-! ### Placements -/

/-- The placements of values one after the other: the table that is found, and the value. -/
def placements (t : ProbeTable α) : List α → List (ProbeTable α × α)
  | [] => []
  | a :: as => (t, a) :: (t.place a).placements as

/-- The placements by which a table is built. -/
def buildPlacements (as : List α) : List (ProbeTable α × α) :=
  (ofCapacity (capacityHolding as.length)).placements as

/-- The placements by which a table is rebuilt with the given capacity. -/
def rebuildPlacements (t : ProbeTable α) (capacity : Nat) : List (ProbeTable α × α) :=
  (ofCapacity capacity).placements t.toList

/-- The placements of an insertion: those of rebuilding the table, if it is rebuilt, and that of the
new value. -/
def insertPlacements (t : ProbeTable α) (a : α) : List (ProbeTable α × α) :=
  match t.expansion? with
  | none => [(t, a)]
  | some capacity => t.rebuildPlacements capacity ++ [(t.rebuild capacity, a)]

/-- The placements of a removal: those of rebuilding the table, if it is rebuilt. -/
def erasePlacements [BEq α] (t : ProbeTable α) (a : α) : List (ProbeTable α × α) :=
  match t.find? a with
  | none => []
  | some i =>
      match (t.vacate i).contraction? with
      | none => []
      | some capacity => (t.vacate i).rebuildPlacements capacity

/-- The table that the placements of an insertion begin with: the table itself, or an empty one if it
is rebuilt. -/
def insertStart (t : ProbeTable α) : ProbeTable α :=
  match t.expansion? with
  | none => t
  | some capacity => ofCapacity capacity

/-- The table that the placements of a removal begin with: the table itself, or without the value if
it is there, or an empty one if what is left is rebuilt. -/
def eraseStart [BEq α] (t : ProbeTable α) (a : α) : ProbeTable α :=
  match t.find? a with
  | none => t
  | some i =>
      match (t.vacate i).contraction? with
      | none => t.vacate i
      | some capacity => ofCapacity capacity

/-- The placements are made one after the other, from the first table to the second one. -/
def Leads : ProbeTable α → List (ProbeTable α × α) → ProbeTable α → Prop
  | t, [], t' => t = t'
  | t, p :: ps, t' => p.1 = t ∧ Leads (t.place p.2) ps t'

theorem leads_placements (t : ProbeTable α) (as : List α) :
    Leads t (t.placements as) (as.foldl place t) := by
  induction as generalizing t with
  | nil => exact rfl
  | cons a as ih => exact ⟨rfl, ih (t.place a)⟩

theorem Leads.concat {t t' : ProbeTable α} {ps : List (ProbeTable α × α)} (h : Leads t ps t')
    (a : α) : Leads t (ps ++ [(t', a)]) (t'.place a) := by
  induction ps generalizing t with
  | nil =>
      obtain rfl : t = t' := h
      exact ⟨rfl, rfl⟩
  | cons p ps ih => exact ⟨h.1, ih h.2⟩

/-- An insertion is made of its placements. -/
theorem leads_insert (t : ProbeTable α) (a : α) :
    Leads t.insertStart (t.insertPlacements a) (t.insertNew a) := by
  rw [insertStart, insertPlacements, insertNew]
  cases t.expansion? with
  | none => exact ⟨rfl, rfl⟩
  | some c => exact (leads_placements (ofCapacity c) t.toList).concat a

/-- A removal is made of its placements, once the slot is vacated. -/
theorem leads_erase [BEq α] (t : ProbeTable α) (a : α) :
    Leads (t.eraseStart a) (t.erasePlacements a) (t.erase a) := by
  rw [eraseStart, erasePlacements, erase]
  cases t.find? a with
  | none => rfl
  | some i =>
      dsimp only
      rw [contract]
      cases (t.vacate i).contraction? with
      | none => rfl
      | some c => exact leads_placements (ofCapacity c) (t.vacate i).toList

/-! ### One placement -/

/-- The walk of the value comes to a hole in less than one round.  The first hole on it is filled with
the value, and no other slot changes; a vacated slot that is filled has been counted. -/
def PlacesInFirstHole (t : ProbeTable α) (a : α) : Prop :=
  ∃ d < t.capacity, ∃ s, t.slots[t.walkSlot a d]? = some s ∧ s.isHole = true ∧
    (∀ j < d, ∃ b, t.slots[t.walkSlot a j]? = some (.occupied b)) ∧
    (∀ i, (t.place a).slots[i]? = if i = t.walkSlot a d then some (.occupied a) else t.slots[i]?) ∧
    (t.place a).size = t.size + 1 ∧
    if s.isVacated then (t.place a).vacated + 1 = t.vacated else (t.place a).vacated = t.vacated

omit [Digest α] in
theorem Counted.vacated_pos {t : ProbeTable α} (h : t.Counted) {i : Nat} {s : Slot α}
    (hs : t.slots[i]? = some s) (hv : s.isVacated = true) : 0 < t.vacated := by
  rw [← h.vacated_eq, List.countP_pos_iff]
  exact ⟨s, Array.mem_toList_iff.2 (Array.mem_of_getElem? hs), hv⟩

/-- **In a table with room a placement comes to a hole.** -/
theorem Counted.placesInFirstHole {t : ProbeTable α} (h : t.Counted)
    (hpow : t.capacity.isPowerOfTwo) (hroom : t.size < t.capacity) (a : α) :
    t.PlacesInFirstHole a := by
  obtain ⟨i, s, hs, hsh, ⟨d, hd, hdi, hlive⟩, heq⟩ := h.place_eq hroom a
  have hwalk : t.walkSlot a d = i := by rw [walkSlot_eq hpow, hdi]
  refine ⟨d, hd, s, by rwa [hwalk], hsh, ?_, ?_, by rw [heq], ?_⟩
  · intro j hj
    rw [walkSlot_eq hpow]
    exact hlive j hj
  · intro j
    have hi : i < t.slots.size := (Array.getElem?_eq_some_iff.1 hs).1
    rw [heq, hwalk, Array.getElem?_setIfInBounds]
    by_cases hij : i = j
    · subst hij
      simp [hi]
    · rw [if_neg hij, if_neg (Ne.symm hij)]
  · rw [heq]
    cases hv : s.isVacated with
    | true => exact Nat.sub_add_cancel (h.vacated_pos hs hv)
    | false => rfl

theorem Balanced.placesInFirstHole {t : ProbeTable α} (h : t.Balanced) (a : α) :
    t.PlacesInFirstHole a :=
  h.toCounted.placesInFirstHole h.isPowerOfTwo h.size_lt a

/-! ### Placements one after the other -/

/-- As long as the values fit, every table on the way is filled with those placed before. -/
theorem Filled.of_mem_placements {n c : Nat} {t : ProbeTable α} (h : Filled n c t) {as : List α}
    (hroom : n + as.length ≤ c) {p : ProbeTable α × α} (hp : p ∈ t.placements as) :
    ∃ m < n + as.length, Filled m c p.1 := by
  -- the number of values placed so far grows with the table
  induction as generalizing n t with
  | nil => exact absurd hp List.not_mem_nil
  | cons a as ih =>
      rw [List.length_cons] at hroom ⊢
      rcases List.mem_cons.1 hp with rfl | hp
      · exact ⟨n, by omega, h⟩
      · obtain ⟨m, hm, hfilled⟩ := ih (h.place (by omega) a) (by omega) hp
        exact ⟨m, by omega, hfilled⟩

/-- So every one of them has room. -/
theorem Filled.placements {n c : Nat} {t : ProbeTable α} (h : Filled n c t)
    (hpow : c.isPowerOfTwo) {as : List α} (hroom : n + as.length ≤ c) :
    ∀ p ∈ t.placements as, p.1.PlacesInFirstHole p.2 := by
  intro p hp
  obtain ⟨m, hm, hfilled⟩ := h.of_mem_placements hroom hp
  refine hfilled.counted.placesInFirstHole ?_ ?_ p.2
  · rwa [hfilled.capacity_eq]
  · rw [hfilled.size_eq, hfilled.capacity_eq]
    omega

theorem placements_rebuild {t : ProbeTable α} (h : t.Counted) {c : Nat} (hpow : c.isPowerOfTwo)
    (hroom : t.size ≤ c) : ∀ p ∈ t.rebuildPlacements c, p.1.PlacesInFirstHole p.2 :=
  (Filled.ofCapacity c).placements hpow (by rw [h.length_eq]; omega)

theorem placements_build (as : List α) :
    ∀ p ∈ buildPlacements as, p.1.PlacesInFirstHole p.2 := by
  obtain ⟨hpow, -, hn⟩ := capacityHolding_spec as.length
  exact (Filled.ofCapacity _).placements hpow (by omega)

theorem Balanced.placements_insert {t : ProbeTable α} (h : t.Balanced) (a : α) :
    ∀ p ∈ t.insertPlacements a, p.1.PlacesInFirstHole p.2 := by
  intro p hp
  rw [insertPlacements] at hp
  split at hp
  · rw [List.mem_singleton.1 hp]
    exact h.placesInFirstHole a
  · next c hc =>
      obtain ⟨hfilled, hb⟩ := h.rebuild_expansion hc
      obtain ⟨-, hfit⟩ := h.expansion?_spec hc
      rcases List.mem_append.1 hp with hp | hp
      · refine placements_rebuild h.toCounted ?_ (by omega) p hp
        rw [← hfilled.capacity_eq]
        exact hb.isPowerOfTwo
      · rw [List.mem_singleton.1 hp]
        exact hb.placesInFirstHole a

variable [BEq α]

theorem Balanced.placements_erase {t : ProbeTable α} (h : t.Balanced) (a : α) :
    ∀ p ∈ t.erasePlacements a, p.1.PlacesInFirstHole p.2 := by
  intro p hp
  rw [erasePlacements] at hp
  split at hp
  · exact absurd hp List.not_mem_nil
  · next i hi =>
      obtain ⟨b, hb, -⟩ := findFrom_eq_some hi
      have hvacated := h.vacate hb
      split at hp
      · exact absurd hp List.not_mem_nil
      · next c hc =>
          obtain ⟨hfilled, hbalanced⟩ := hvacated.rebuild_contraction hc
          obtain ⟨hhalf, -, hlow⟩ := contraction?_spec hc
          refine placements_rebuild hvacated.toCounted ?_ (by omega) p hp
          rw [← hfilled.capacity_eq]
          exact hbalanced.isPowerOfTwo

/-! ### All placements -/

/-- The placements lead from the first table to the second one, and every one of them comes to a
hole. -/
structure Completes (t : ProbeTable α) (ps : List (ProbeTable α × α)) (t' : ProbeTable α) :
    Prop where
  leads : Leads t ps t'
  places : ∀ p ∈ ps, p.1.PlacesInFirstHole p.2

/-- **Every placement comes to a hole**, in less than one round, and fills the first one: when a table
is built, and when a table that can come about is changed. -/
theorem every_placement_ends :
    (∀ as : List α, Distinct as →
      Completes (ofCapacity (capacityHolding as.length)) (buildPlacements as) (ofDistinct as)) ∧
    ∀ t : ProbeTable α, Reachable t →
      (∀ a, t.contains a = false →
        Completes t.insertStart (t.insertPlacements a) (t.insertNew a)) ∧
      ∀ a, Completes (t.eraseStart a) (t.erasePlacements a) (t.erase a) := by
  refine ⟨fun as _ => ⟨leads_placements _ as, placements_build as⟩, ?_⟩
  intro t ht
  constructor
  · intro a _
    exact ⟨leads_insert t a, ht.balanced.placements_insert a⟩
  · intro a
    exact ⟨leads_erase t a, ht.balanced.placements_erase a⟩

/-- A table of 48 words from which one has been erased is rebuilt before a word is inserted: 47
placements into the new table, and one more. -/
theorem every_placement_ends_of_words :
    let t := (ofDistinct ((List.range 48).map UInt64.ofNat)).erase 7
    Reachable t ∧ t.contains 100 = false ∧ (t.insertPlacements 100).length = 48 ∧
      Completes (ofCapacity 64) (t.insertPlacements 100) (t.insertNew 100) := by
  intro t
  have hreach : Reachable t := .erase (.ofDistinct (by decide +kernel)) 7
  have hnew : t.contains 100 = false := by decide +kernel
  obtain ⟨hinsert, -⟩ := every_placement_ends.2 t hreach
  have hstart : t.insertStart = ofCapacity 64 := by
    have hc : t.expansion? = some 64 := by decide +kernel
    rw [insertStart, hc]
  exact ⟨hreach, hnew, by decide +kernel, hstart ▸ hinsert 100 hnew⟩

end ProbeTable

end GraphIndex
