/-
**Tiers of a compact set.**  How a set is stored depends on its size alone.

One element is stored by itself, up to twenty-four elements are stored in a list with room for two,
three, four, six, eight, twelve or twenty-four of them, and more go into a probe table.  A set
without elements is not stored at all.

Main definitions:

* `CompactSet.Tier` — the kinds of storage;
* `CompactSet.Tier.ofSize` — the choice among them;
* `CompactSet.Tier.capacity?` — how many elements a tier can hold.
-/

set_option autoImplicit false

namespace GraphIndex

/-- How the elements of a set are stored. -/
inductive CompactSet.Tier where
  /-- One element by itself. -/
  | single
  /-- A list with room for the given number of elements. -/
  | fixed (capacity : Nat)
  /-- A probe table. -/
  | overflow
  deriving DecidableEq, Repr

namespace CompactSet.Tier

/-- The sizes of the lists. -/
def listSizes : List Nat :=
  [2, 3, 4, 6, 8, 12, 24]

/-- The tiers, the smallest first. -/
def all : List Tier :=
  single :: listSizes.map fixed ++ [overflow]

/-- The tier for a number of elements: the smallest one that can hold them. -/
def ofSize (n : Nat) : Option Tier :=
  if n = 0 then none
  else if n = 1 then some single
  else
    match listSizes.find? (n ≤ ·) with
    | some capacity => some (fixed capacity)
    | none => some overflow

/-- The largest number of elements that a tier can hold, if there is one. -/
def capacity? : Tier → Option Nat
  | single => some 1
  | fixed capacity => some capacity
  | overflow => none

/-- The name of a tier: lists are named by their size. -/
def text : Tier → String
  | single => "1"
  | fixed capacity => toString capacity
  | overflow => "overflow"

/-- The name of the kind of storage, with its size. -/
def inspect : Tier → String
  | single => "Single"
  | fixed capacity => "Fixed(" ++ toString capacity ++ ")"
  | overflow => "Overflow"

end CompactSet.Tier

end GraphIndex
