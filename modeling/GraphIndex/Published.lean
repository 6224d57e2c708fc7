/-
**Published values.**  A value that readers see only in finished versions.

A reader takes a snapshot, which is a reference to the version of the moment, and keeps it as long as
it likes.  A writer works on a draft.  A draft begins as one more reference to the current version and
gets a version of its own with the first change, because readers hold the one that is published.  When
the draft is closed, its version becomes the current one, unless nothing was touched in it; when it is
discarded, nothing happens.  While a draft is open, no other one can be opened.

Main definitions:

* `Draft`, `Published` — the types;
* `Published.value?`, `Published.load`, `Published.forget` — what readers see, taking a snapshot and
  giving it back;
* `Published.openDraft?`, `Published.staged?`, `Published.update?` — working on a draft;
* `Published.closeDraft?`, `Published.discard?` — the two ends of a draft.
-/
import GraphIndex.Heap

set_option autoImplicit false

namespace GraphIndex

/-- The next version, while it is worked on. -/
structure Draft where
  /-- The version as it stands. -/
  staged : Ref
  /-- The version has been open to change. -/
  touched : Bool
  deriving DecidableEq, Repr

/-- A value that is seen in finished versions. -/
structure Published (α : Type) where
  /-- The versions that somebody holds. -/
  heap : Heap α
  /-- The version that readers see. -/
  current : Ref
  /-- The draft that is open. -/
  draft : Option Draft

namespace Published

variable {α β : Type}

/-- The first version. -/
def ofValue (a : α) : Published α :=
  let (current, heap) := Heap.empty.allocate a
  { heap, current, draft := none }

/-! ### Readers -/

/-- The value that readers see. -/
def value? (p : Published α) : Option α :=
  p.heap.read? p.current

/-- A snapshot of the current version is taken. -/
def load (p : Published α) : Ref × Published α :=
  (p.current, { p with heap := p.heap.hold p.current })

/-- A snapshot is given back. -/
def forget (p : Published α) (snapshot : Ref) : Published α :=
  { p with heap := p.heap.release snapshot }

/-! ### Writers -/

/-- A draft of the current version; there is none while another one is open. -/
def openDraft? (p : Published α) : Option (Published α) :=
  match p.draft with
  | some _ => none
  | none => some { p with
      heap := p.heap.hold p.current
      draft := some ⟨p.current, false⟩ }

/-- The value of the draft. -/
def staged? (p : Published α) : Option α :=
  p.draft.bind fun d => p.heap.read? d.staged

/-- A change in the draft, with its answer.  The first one copies what readers may hold. -/
def update? (p : Published α) (f : α → β × α) : Option (β × Published α) :=
  p.draft.bind fun d =>
    let (staged, heap) := p.heap.own d.staged
    (heap.update? staged f).map fun (answer, heap) =>
      (answer, { p with heap, draft := some ⟨staged, true⟩ })

/-- The draft is closed: if it has been touched, readers see its version from now on. -/
def closeDraft? (p : Published α) : Option (Published α) :=
  p.draft.map fun d =>
    if d.touched then
      { heap := ((p.heap.hold d.staged).release p.current).release d.staged
        current := d.staged
        draft := none }
    else { p with heap := p.heap.release d.staged, draft := none }

/-- The draft is closed as if it had not been touched. -/
def discard? (p : Published α) : Option (Published α) :=
  closeDraft? { p with draft := p.draft.map fun d => { d with touched := false } }

end Published

end GraphIndex
