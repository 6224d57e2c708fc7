/-
**Shared values.**  Values that several holders refer to, each value kept until its last holder has
given it back.

A cell holds a value together with the number of its holders, and a reference says where the cell is.
Holding a value once more changes the number only.  Before a holder changes a value, it makes the value
its own: a value that nobody else holds is changed where it is, and one that others hold is copied
first, so that they do not see the change.

Main definitions:

* `Ref`, `Heap` — references, and the cells that they refer to;
* `Heap.read?` — the value of a reference;
* `Heap.allocate`, `Heap.hold`, `Heap.release` — a new value, one more holder, and one less;
* `Heap.own`, `Heap.update?` — making a value one's own, and changing it.
-/

set_option autoImplicit false

namespace GraphIndex

/-- Where a shared value is kept. -/
structure Ref where
  /-- The number of cells that were made before it. -/
  index : Nat
  deriving DecidableEq, Repr

/-- A value with its holders. -/
structure Heap.Cell (α : Type) where
  /-- The value. -/
  value : α
  /-- The number of holders besides the first. -/
  others : Nat

/-- The values that are held by somebody. -/
structure Heap (α : Type) where
  /-- The cells that have been made; one that nobody holds any more is gone. -/
  cells : Array (Option (Heap.Cell α))

namespace Heap

variable {α β : Type}

/-- Nothing is held. -/
def empty : Heap α :=
  ⟨#[]⟩

/-- The cell of a reference. -/
def cell? (h : Heap α) (r : Ref) : Option (Cell α) :=
  h.cells[r.index]?.join

/-- The value of a reference. -/
def read? (h : Heap α) (r : Ref) : Option α :=
  (h.cell? r).map Cell.value

/-- The number of holders of a reference. -/
def holders (h : Heap α) (r : Ref) : Nat :=
  match h.cell? r with
  | none => 0
  | some c => c.others + 1

/-- The cell of a reference is replaced, or is gone. -/
def put (h : Heap α) (r : Ref) (c : Option (Cell α)) : Heap α :=
  ⟨h.cells.setIfInBounds r.index c⟩

/-- A new value with one holder. -/
def allocate (h : Heap α) (a : α) : Ref × Heap α :=
  (⟨h.cells.size⟩, ⟨h.cells.push (some ⟨a, 0⟩)⟩)

/-- One more holder. -/
def hold (h : Heap α) (r : Ref) : Heap α :=
  h.put r ((h.cell? r).map fun c => { c with others := c.others + 1 })

/-- One holder less; with the last one the value is gone. -/
def release (h : Heap α) (r : Ref) : Heap α :=
  h.put r <| (h.cell? r).bind fun c =>
    if c.others = 0 then none else some { c with others := c.others - 1 }

/-- A holder makes a value its own: a value with other holders is copied, and the copy takes its
place. -/
def own (h : Heap α) (r : Ref) : Ref × Heap α :=
  match h.cell? r with
  | none => (r, h)
  | some c =>
      if c.others = 0 then (r, h)
      else
        let (copy, h) := h.allocate c.value
        (copy, h.release r)

/-- A value is changed where it is, with an answer. -/
def update? (h : Heap α) (r : Ref) (f : α → β × α) : Option (β × Heap α) :=
  match h.cell? r with
  | none => none
  | some c =>
      let (answer, value) := f c.value
      some (answer, h.put r (some { c with value }))

end Heap

end GraphIndex
