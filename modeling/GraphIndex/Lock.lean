/-
**Write locks.**  Permission to change a structure, given to one writer at a time.

Every lock has a number of its own.  A lock that is not held issues a permit, and is held until the
permit is given back.  A permit is good for the structures that belong to the lock that issued it,
and for no others.

Main definitions:

* `LockId`, `Permit` — the types;
* `Permit.check` — the permit is good for the structures of a lock;
* `Locks` — the locks there are, and which of them are held;
* `Locks.issue`, `Locks.acquire?`, `Locks.release` — making a lock, taking it and giving it back.
-/
import GraphIndex.Error

set_option autoImplicit false

namespace GraphIndex

/-- The number of a lock. -/
structure LockId where
  /-- How many locks were made before it. -/
  number : Nat
  deriving DecidableEq, Repr

/-- Permission to change the structures of one lock. -/
structure Permit where
  /-- The lock that issued it. -/
  owner : LockId
  deriving DecidableEq, Repr

/-- The permit is good for the structures of a lock. -/
def Permit.check (p : Permit) (lock : LockId) : Except IndexError Unit :=
  if p.owner = lock then .ok () else .error .foreignPermit

/-- The locks there are. -/
structure Locks where
  /-- How many locks have been made. -/
  issued : Nat
  /-- The locks that are held. -/
  held : List LockId

namespace Locks

/-- There are no locks. -/
def none : Locks :=
  ⟨0, []⟩

/-- A new lock, which nobody holds. -/
def issue (ls : Locks) : LockId × Locks :=
  (⟨ls.issued⟩, { ls with issued := ls.issued + 1 })

/-- Somebody holds the lock. -/
def isHeld (ls : Locks) (lock : LockId) : Bool :=
  ls.held.contains lock

/-- A permit of a lock that nobody holds. -/
def acquire? (ls : Locks) (lock : LockId) : Option (Permit × Locks) :=
  if ls.isHeld lock then Option.none
  else some (⟨lock⟩, { ls with held := lock :: ls.held })

/-- A permit is given back. -/
def release (ls : Locks) (p : Permit) : Locks :=
  { ls with held := ls.held.erase p.owner }

end Locks

end GraphIndex
