/-
**Probe tables.**  A hash table of distinct values with open addressing and linear probing.

A value is looked for from its home slot onwards, slot after slot and from the last slot to the
first, until an empty slot ends the walk.  Removing a value therefore leaves a *vacated* slot
behind, which a walk passes over and an insertion may use again.  The table keeps two counters, of
live values and of vacated slots, and is rebuilt when a change moves them past a watermark: live
and vacated slots together never fill more than three quarters of it, and live values fill at least
a quarter of it unless it has the smallest capacity.

Main definitions:

* `Slot`, `ProbeTable` — the types;
* `ProbeTable.home` — where the walk of a value begins;
* `ProbeTable.find?`, `ProbeTable.firstHole?` — the two walks;
* `ProbeTable.place` — storing a value without looking at the watermarks;
* `ProbeTable.capacityHolding` — the smallest capacity that holds a number of values;
* `ProbeTable.insertNew`, `ProbeTable.erase` — the two changes;
* `ProbeTable.expansion?`, `ProbeTable.contraction?` — the capacity that a change rebuilds to.
-/
import GraphIndex.Digest

set_option autoImplicit false

namespace GraphIndex

/-- One place of a probe table. -/
inductive Slot (α : Type) where
  /-- Nothing has been stored since the table was built. -/
  | empty
  /-- A value has been removed. -/
  | vacated
  /-- A live value. -/
  | occupied (a : α)
  deriving DecidableEq, Repr

namespace Slot

variable {α : Type}

/-- The live value of a slot. -/
def value? : Slot α → Option α
  | occupied a => some a
  | _ => none

/-- The slot has no live value. -/
def isHole : Slot α → Bool
  | occupied _ => false
  | _ => true

/-- The slot was vacated by a removal. -/
def isVacated : Slot α → Bool
  | vacated => true
  | _ => false

end Slot

/-- A hash table with open addressing. -/
structure ProbeTable (α : Type) where
  /-- The places; their number is the capacity. -/
  slots : Array (Slot α)
  /-- The number of live values. -/
  size : Nat
  /-- The number of vacated slots. -/
  vacated : Nat

namespace ProbeTable

variable {α : Type}

/-! ### Capacity and watermarks -/

/-- The smallest capacity. -/
def leastCapacity : Nat :=
  64

/-- The number of slots. -/
def capacity (t : ProbeTable α) : Nat :=
  t.slots.size

/-- So many used slots are more than three quarters of the capacity. -/
def isOverfull (used capacity : Nat) : Bool :=
  decide (capacity * 3 < used * 4)

/-- A capacity is doubled until the given number of values does not exceed the watermark. -/
def doubleUntilHolding (n capacity : Nat) (positive : 0 < capacity) : Nat :=
  if _h : isOverfull n capacity then
    doubleUntilHolding n (2 * capacity) (Nat.mul_pos (by decide) positive)
  else capacity
termination_by 4 * n - 3 * capacity
decreasing_by
  simp only [isOverfull, decide_eq_true_eq] at _h
  omega

/-- The capacity of a new table for the given number of values. -/
def capacityHolding (n : Nat) : Nat :=
  doubleUntilHolding n leastCapacity (by decide)

/-- A table of the given capacity without values. -/
def ofCapacity (capacity : Nat) : ProbeTable α where
  slots := Array.replicate capacity .empty
  size := 0
  vacated := 0

/-- The live values, in the order of their slots. -/
def toList (t : ProbeTable α) : List α :=
  t.slots.toList.filterMap Slot.value?

/-! ### Walks -/

section Walks

variable [BEq α]

/-- The first slot with a value equal to `a` on a walk of at most the given number of steps from
slot `i`; an empty slot ends the walk. -/
def findFrom (slots : Array (Slot α)) (a : α) : Nat → Nat → Option Nat
  | 0, _ => none
  | steps + 1, i =>
      match slots[i]? with
      | some (.occupied b) =>
          if b == a then some i else findFrom slots a steps ((i + 1) % slots.size)
      | some .vacated => findFrom slots a steps ((i + 1) % slots.size)
      | some .empty => none
      | none => none

end Walks

/-- The first slot without a live value on a walk of at most the given number of steps from slot
`i`. -/
def holeFrom (slots : Array (Slot α)) : Nat → Nat → Option Nat
  | 0, _ => none
  | steps + 1, i =>
      match slots[i]? with
      | some (.occupied _) => holeFrom slots steps ((i + 1) % slots.size)
      | some _ => some i
      | none => none

variable [Digest α]

/-- The slot where the walk of a value begins. -/
def home (t : ProbeTable α) (a : α) : Nat :=
  (Digest.spread (digest a)).toNat % t.capacity

/-- The first slot on the walk of a value that has no live value. -/
def firstHole? (t : ProbeTable α) (a : α) : Option Nat :=
  holeFrom t.slots t.capacity (t.home a)

/-! ### Placing and rebuilding -/

/-- A value stored in the first hole on its walk.  A table in which every slot is live has no room
and stays as it is. -/
def place (t : ProbeTable α) (a : α) : ProbeTable α :=
  match t.firstHole? a with
  | none => t
  | some i =>
      let vacated := if t.slots[i]?.any Slot.isVacated then t.vacated - 1 else t.vacated
      { slots := t.slots.setIfInBounds i (.occupied a), size := t.size + 1, vacated }

/-- A new table of the given capacity with the live values, placed in the order of their slots. -/
def rebuild (t : ProbeTable α) (capacity : Nat) : ProbeTable α :=
  t.toList.foldl place (ofCapacity capacity)

/-- The table of distinct values, placed in order. -/
def ofDistinct (as : List α) : ProbeTable α :=
  as.foldl place (ofCapacity (capacityHolding as.length))

/-! ### Changes -/

/-- The capacity to which a table is rebuilt before one more value is placed, if it is rebuilt:
twice the capacity if the live values ask for it, and the same capacity if dropping the vacated
slots is enough. -/
def expansion? (t : ProbeTable α) : Option Nat :=
  if isOverfull (t.size + t.vacated + 1) t.capacity then
    some (if isOverfull (t.size + 1) t.capacity then t.capacity * 2 else t.capacity)
  else none

/-- The table with one more value, which must not be in it. -/
def insertNew (t : ProbeTable α) (a : α) : ProbeTable α :=
  match t.expansion? with
  | none => t.place a
  | some capacity => (t.rebuild capacity).place a

/-- The capacity to which a table is rebuilt after a removal, if it is rebuilt: half the capacity
if the live values fill less than a quarter of it. -/
def contraction? (t : ProbeTable α) : Option Nat :=
  if leastCapacity ≤ t.capacity / 2 ∧ t.size * 4 < t.capacity then some (t.capacity / 2) else none

/-- The table in which a live slot is vacated, before the watermark is looked at. -/
def vacate (t : ProbeTable α) (i : Nat) : ProbeTable α where
  slots := t.slots.setIfInBounds i .vacated
  size := t.size - 1
  vacated := t.vacated + 1

/-- A table that removals have left too large, rebuilt with half the capacity. -/
def contract (t : ProbeTable α) : ProbeTable α :=
  match t.contraction? with
  | none => t
  | some capacity => t.rebuild capacity

variable [BEq α]

/-- The slot of a value. -/
def find? (t : ProbeTable α) (a : α) : Option Nat :=
  findFrom t.slots a t.capacity (t.home a)

/-- The value is in the table. -/
def contains (t : ProbeTable α) (a : α) : Bool :=
  (t.find? a).isSome

/-- The table without a value.  A table that does not have the value stays as it is. -/
def erase (t : ProbeTable α) (a : α) : ProbeTable α :=
  match t.find? a with
  | none => t
  | some i => (t.vacate i).contract

end ProbeTable

end GraphIndex
