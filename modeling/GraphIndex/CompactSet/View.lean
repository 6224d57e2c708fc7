/-
**Views of a compact set.**  The storage of a set as a reader sees it, with or without holes.

Small sets are stored densely.  The slots of a probe table are seen as they are, and a reader that
wants the elements skips the holes between them.  A cursor walks a view and says at each point how
many elements may still come: exactly so many in a dense view, and at most as many as there are
slots ahead in a sparse one.

Main definitions:

* `CompactSet.View`, `CompactSet.view` — the type, and the view of a possibly empty set;
* `CompactSet.View.toList`, `CompactSet.View.slotCount` — elements and slots of a view;
* `CompactSet.Cursor`, `CompactSet.Cursor.next?`, `CompactSet.Cursor.after`,
  `CompactSet.Cursor.bounds` — walking a view.
-/
import GraphIndex.CompactSet.Basic

set_option autoImplicit false

namespace GraphIndex

namespace CompactSet

variable {α : Type}

/-- The storage of a set, as a reader sees it. -/
inductive View (α : Type) where
  /-- Elements without holes. -/
  | dense (items : List α)
  /-- Slots, some of which are holes. -/
  | sparse (slots : Array (Slot α))

/-- The view of a set. -/
def viewOf : CompactSet α → View α
  | single a => .dense [a]
  | fixed _ items => .dense items
  | overflow table => .sparse table.slots

/-- The view of a possibly empty set. -/
def view (s : Option (CompactSet α)) : View α :=
  s.elim (.dense []) viewOf

namespace View

/-- The view has no holes by construction. -/
def isDense : View α → Bool
  | dense _ => true
  | sparse _ => false

/-- The number of places, holes included. -/
def slotCount : View α → Nat
  | dense items => items.length
  | sparse slots => slots.size

/-- The elements, holes left out. -/
def toList : View α → List α
  | dense items => items
  | sparse slots => slots.toList.filterMap Slot.value?

/-- There is no element. -/
def isEmpty (v : View α) : Bool :=
  v.toList.isEmpty

/-- The number of holes of a sparse view. -/
def holes? : View α → Option Nat
  | dense _ => none
  | sparse slots => some (slots.toList.countP Slot.isHole)

end View

/-- The part of a view that is still to be read. -/
inductive Cursor (α : Type) where
  /-- Elements. -/
  | dense (rest : List α)
  /-- Slots. -/
  | sparse (rest : List (Slot α))

namespace Cursor

/-- The cursor at the beginning of a view. -/
def ofView : View α → Cursor α
  | .dense items => dense items
  | .sparse slots => sparse slots.toList

/-- The next element of a list of slots, and the slots after it. -/
def nextLive? : List (Slot α) → Option (α × List (Slot α))
  | [] => none
  | .occupied a :: rest => some (a, rest)
  | _ :: rest => nextLive? rest

/-- The next element, and the cursor after it. -/
def next? : Cursor α → Option (α × Cursor α)
  | dense [] => none
  | dense (a :: rest) => some (a, dense rest)
  | sparse rest => (nextLive? rest).map fun (a, slots) => (a, sparse slots)

/-- The cursor at the end of its view. -/
def atEnd : Cursor α → Cursor α
  | dense _ => dense []
  | sparse _ => sparse []

/-- The cursor after it was asked for the next element.  If there is none, all slots have been read. -/
def advance (c : Cursor α) : Cursor α :=
  match c.next? with
  | some (_, rest) => rest
  | none => c.atEnd

/-- The cursor after it was asked for an element a number of times. -/
def after : Nat → Cursor α → Cursor α
  | 0, c => c
  | n + 1, c => after n c.advance

/-- The least and the largest number of elements that may still come. -/
def bounds : Cursor α → Nat × Nat
  | dense rest => (rest.length, rest.length)
  | sparse rest => (0, rest.length)

/-- The elements that are still to come. -/
def toList : Cursor α → List α
  | dense rest => rest
  | sparse rest => rest.filterMap Slot.value?

end Cursor

end CompactSet

end GraphIndex
