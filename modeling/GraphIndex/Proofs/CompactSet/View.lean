/-
**What a view of a compact set shows.**  Every place of the storage is accounted for, and a walk never
promises more than it keeps.

A set tells its number of elements and its number of vacated slots from counters, without looking at the
slots.  A reader sees the slots.  Both agree after every run: of the slots in a view as many have a live
value as the set has elements, as many are vacated as it has holes, and the others, a quarter of all at
least, are empty.  A small set has no slots but elements only.

A walk through a view can be stopped anywhere.  What is still to come is then what is left of the list of
elements, in its order and without repetition, and the bounds that the cursor gives are bounds of its
length.

Main definitions:

* `CompactSet.holeCount` — the vacated slots of a possibly empty set;
* `CompactSet.Walked` — what a cursor shows after a number of calls;
* `CompactSet.Accounts` — what a view shows.

Main results:

* `CompactSet.Cursor.head?_toList`, `CompactSet.Cursor.toList_advance` — **a call takes the next element**;
* `CompactSet.Cursor.toList_after` — and so a number of calls takes as many;
* `CompactSet.Cursor.length_le_bounds` — the bounds hold at every point;
* `CompactSet.WellFormed.isDense_viewOf`, `CompactSet.WellFormed.counts` — the places of a view;
* `CompactSet.run_view_accounts` — **the view accounts for every slot after every run**.
-/
import GraphIndex.Proofs.CompactSet.Run

set_option autoImplicit false

namespace GraphIndex

namespace CompactSet

variable {α : Type}

/-! ### Walks -/

namespace Cursor

/-- The next element of a list of slots is the first one that is live. -/
theorem nextLive?_spec (slots : List (Slot α)) :
    (nextLive? slots = none ∧ slots.filterMap Slot.value? = []) ∨
      ∃ a rest, nextLive? slots = some (a, rest) ∧
        slots.filterMap Slot.value? = a :: rest.filterMap Slot.value? := by
  induction slots with
  | nil => exact .inl ⟨rfl, rfl⟩
  | cons s slots ih =>
      cases s with
      | empty => exact ih
      | vacated => exact ih
      | occupied a => exact .inr ⟨a, slots, rfl, rfl⟩

/-- A call either finds the first of the elements to come and leaves the others, or there are none. -/
theorem next?_spec (c : Cursor α) :
    (c.next? = none ∧ c.toList = []) ∨
      ∃ a rest, c.next? = some (a, rest) ∧ c.toList = a :: rest.toList := by
  cases c with
  | dense items =>
      cases items with
      | nil => exact .inl ⟨rfl, rfl⟩
      | cons a items => exact .inr ⟨a, dense items, rfl, rfl⟩
  | sparse slots =>
      rcases nextLive?_spec slots with ⟨hnone, hnil⟩ | ⟨a, rest, hsome, hcons⟩
      · exact .inl ⟨by rw [next?, hnone]; rfl, hnil⟩
      · exact .inr ⟨a, sparse rest, by rw [next?, hsome]; rfl, hcons⟩

/-- **A call finds the first of the elements to come.** -/
theorem head?_toList (c : Cursor α) : c.toList.head? = c.next?.map Prod.fst := by
  rcases c.next?_spec with ⟨hnone, hnil⟩ | ⟨a, rest, hsome, hcons⟩
  · rw [hnone, hnil]
    rfl
  · rw [hsome, hcons]
    rfl

/-- **A call leaves the elements after the first.** -/
theorem toList_advance (c : Cursor α) : c.advance.toList = c.toList.tail := by
  rcases c.next?_spec with ⟨hnone, hnil⟩ | ⟨a, rest, hsome, hcons⟩
  · rw [advance, hnone, hnil]
    cases c <;> rfl
  · rw [advance, hsome, hcons]
    rfl

theorem toList_after (c : Cursor α) (n : Nat) : (c.after n).toList = c.toList.drop n := by
  induction n generalizing c with
  | zero => rfl
  | succ n ih => rw [after, ih, toList_advance, List.drop_tail]

/-- The elements come one by one in their order, and then no more. -/
theorem next?_after (c : Cursor α) (n : Nat) :
    (c.after n).next?.map Prod.fst = c.toList[n]? := by
  rw [← head?_toList, toList_after, List.head?_drop]

theorem length_le_bounds (c : Cursor α) :
    c.bounds.1 ≤ c.toList.length ∧ c.toList.length ≤ c.bounds.2 := by
  cases c with
  | dense items => exact ⟨Nat.le_refl _, Nat.le_refl _⟩
  | sparse slots => exact ⟨Nat.zero_le _, List.length_filterMap_le _ _⟩

theorem toList_ofView (v : View α) : (ofView v).toList = v.toList := by
  cases v <;> rfl

end Cursor

/-- What a cursor shows that was asked for an element `n` times on a walk through the elements `as`:
its bounds hold for the number of elements that are still to come, and these come one by one, in their
order and without repetition. -/
structure Walked [BEq α] (as : List α) (n : Nat) (c : Cursor α) : Prop where
  lower : c.bounds.1 ≤ (as.drop n).length
  upper : (as.drop n).length ≤ c.bounds.2
  next? : ∀ m, (c.after m).next?.map Prod.fst = (as.drop n)[m]?
  distinct : Distinct (as.drop n)

theorem Walked.ofView [BEq α] {v : View α} (h : Distinct v.toList) (n : Nat) :
    Walked v.toList n ((Cursor.ofView v).after n) := by
  have hrest : ((Cursor.ofView v).after n).toList = v.toList.drop n := by
    rw [Cursor.toList_after, Cursor.toList_ofView]
  obtain ⟨hlower, hupper⟩ := ((Cursor.ofView v).after n).length_le_bounds
  rw [hrest] at hlower hupper
  refine ⟨hlower, hupper, fun m => ?_, List.Pairwise.drop h⟩
  rw [Cursor.next?_after, hrest]

/-! ### Places -/

/-- The number of slots that removals have left behind in a possibly empty set. -/
def holeCount (s : Option (CompactSet α)) : Nat :=
  s.elim 0 holes

/-- What the view of a possibly empty set shows. -/
structure Accounts [BEq α] (s : Option (CompactSet α)) : Prop where
  /-- Only sets of many elements are seen with their slots. -/
  sparse_iff : (view s).isDense = false ↔ 25 ≤ count s
  /-- A dense view has a place for every element and no holes. -/
  dense : (view s).isDense = true →
    (view s).slotCount = count s ∧ (view s).toList.length = count s ∧ (view s).holes? = none ∧
      holeCount s = 0
  /-- The slots of a sparse view are live, vacated or empty. -/
  sparse : ∀ slots, view s = .sparse slots →
    slots.toList.countP (fun p => !p.isHole) = count s ∧
    slots.toList.countP Slot.isVacated = holeCount s ∧
    (view s).slotCount = count s + holeCount s
      + slots.toList.countP (fun p => p.isHole && !p.isVacated) ∧
    (view s).slotCount ≤ 4 * slots.toList.countP fun p => p.isHole && !p.isVacated
  /-- Only the set that is not there shows no element. -/
  isEmpty_iff : (view s).isEmpty = true ↔ s = none
  isEmpty_eq : (view s).isEmpty = (Cursor.ofView (view s)).next?.isNone
  /-- Wherever a walk is stopped, it is known what is still to come. -/
  walked : ∀ n, Walked (view s).toList n ((Cursor.ofView (view s)).after n)

section WellFormed

variable [BEq α] [Digest α] {s : CompactSet α}

theorem WellFormed.isDense_viewOf (h : s.WellFormed) : (viewOf s).isDense = false ↔ 25 ≤ s.size := by
  have hover : 24 < s.size ↔ some s.tier = some Tier.overflow := by
    rw [← h.tier_eq, Tier.ofSize_eq_overflow_iff]
  rw [show 25 ≤ s.size ↔ 24 < s.size from Iff.rfl, hover]
  cases s <;> simp [viewOf, View.isDense, tier]

theorem WellFormed.counts (h : s.WellFormed) {slots : Array (Slot α)}
    (hs : viewOf s = .sparse slots) :
    slots.toList.countP (fun p => !p.isHole) = s.size ∧
    slots.toList.countP Slot.isVacated = s.holes ∧
    slots.size = s.size + s.holes + slots.toList.countP (fun p => p.isHole && !p.isVacated) ∧
    slots.size ≤ 4 * slots.toList.countP fun p => p.isHole && !p.isVacated := by
  cases s with
  | single a => cases hs
  | fixed c items => cases hs
  | overflow t =>
      obtain rfl : t.slots = slots := View.sparse.inj hs
      have ht := h.table t rfl
      exact ⟨ht.size_eq, ht.vacated_eq, ht.slots_size_eq, ht.capacity_le⟩

end WellFormed

theorem View.isEmpty_eq (v : View α) : v.isEmpty = (Cursor.ofView v).next?.isNone := by
  rw [isEmpty, ← Cursor.toList_ofView]
  rcases (Cursor.ofView v).next?_spec with ⟨hnone, hnil⟩ | ⟨a, rest, hsome, hcons⟩
  · rw [hnone, hnil]
    rfl
  · rw [hsome, hcons]
    rfl

variable [BEq α] [Digest α] [EquivBEq α]

/-- **The view of a set accounts for every slot.** -/
theorem Represents.accounts {s : Option (CompactSet α)} {as : List α} (h : Represents s as) :
    Accounts s := by
  have hdistinct : Distinct (view s).toList := h.distinct.perm h.perm.symm
  cases s with
  | none =>
      refine ⟨?_, fun _ => ⟨rfl, rfl, rfl, rfl⟩, fun slots hs => ?_, ?_, View.isEmpty_eq _,
        Walked.ofView hdistinct⟩
      · constructor
        · intro hsparse
          cases hsparse
        · intro hmany
          exact absurd (show 25 ≤ 0 from hmany) (by decide)
      · cases hs
      · exact ⟨fun _ => rfl, fun _ => rfl⟩
  | some t =>
      have ht := h.wellFormed t rfl
      refine ⟨ht.isDense_viewOf, fun hdense => ?_, fun slots hs => ?_, ?_, View.isEmpty_eq _,
        Walked.ofView hdistinct⟩
      · cases t with
        | single a => exact ⟨rfl, rfl, rfl, rfl⟩
        | fixed c items => exact ⟨rfl, rfl, rfl, rfl⟩
        | overflow table => cases hdense
      · have hcounts := ht.counts hs
        rw [hs]
        exact hcounts
      · rw [View.isEmpty, List.isEmpty_iff, toList_view]
        exact ⟨fun hnil => absurd hnil ht.toList_ne_nil, fun hnone => by cases hnone⟩

/-- **The view accounts for every slot after every run.**  It shows slots exactly if there are twenty-five
elements or more.  A dense view has as many places as there are elements.  In a sparse view as many slots
are live as there are elements and as many are vacated as the set has holes, and the other slots, at least
a quarter of them, are empty.  Only the set that is not there shows nothing.  And wherever a walk through
the view is stopped, the bounds of the cursor hold for the number of elements that are still to come, and
these come without repetition. -/
theorem run_view_accounts [LawfulDigest α] (cs : List (Change α)) : Accounts (run cs) :=
  (represents_run cs).accounts

/-- Of thirty words in a table two are removed, and a walk is stopped after ten of the others. -/
theorem run_view_accounts_of_words :
    let cs := (List.range 30).map (fun n => Change.add (UInt64.ofNat n)) ++ [.remove 7, .remove 8]
    let cursor := (Cursor.ofView (view (run cs))).after 10
    Accounts (run cs) ∧ (view (run cs)).slotCount = 64 ∧ count (run cs) = 28 ∧
      holeCount (run cs) = 2 ∧ (view (run cs)).isEmpty = false ∧
      cursor.bounds.1 ≤ 18 ∧ 18 ≤ cursor.bounds.2 := by
  intro cs cursor
  have haccounts : Accounts (run cs) := run_view_accounts cs
  have hnumbers : (view (run cs)).slotCount = 64 ∧ count (run cs) = 28 ∧ holeCount (run cs) = 2 ∧
      (view (run cs)).toList.length = 28 := by
    decide +kernel
  obtain ⟨hslots, hcount, hholes, hlength⟩ := hnumbers
  have hwalked := haccounts.walked 10
  have hlower := hwalked.lower
  have hupper := hwalked.upper
  rw [List.length_drop, hlength] at hlower hupper
  refine ⟨haccounts, hslots, hcount, hholes, ?_, hlower, hupper⟩
  rw [View.isEmpty, List.isEmpty_eq_false_iff, ← List.length_pos_iff, hlength]
  decide

end CompactSet

end GraphIndex
