/-
**Counters of look-ups.**  How often an index answered, how often there was none, and how much was
scanned instead.

The counters are words of 64 bits and start again from zero when they run over.

Main definitions:

* `Counters` — the type;
* `Counters.hit`, `Counters.miss`, `Counters.scan` — what is counted.
-/

set_option autoImplicit false

namespace GraphIndex

/-- Counters of look-ups. -/
structure Counters where
  /-- Look-ups that an index answered. -/
  hits : UInt64
  /-- Look-ups of a key without an index. -/
  misses : UInt64
  /-- Scans made instead. -/
  scans : UInt64
  /-- Elements looked at in scans. -/
  scanned : UInt64
  deriving DecidableEq, Repr

namespace Counters

/-- Nothing has been counted. -/
def zero : Counters :=
  ⟨0, 0, 0, 0⟩

/-- An index has answered. -/
def hit (c : Counters) : Counters :=
  { c with hits := c.hits + 1 }

/-- There was no index. -/
def miss (c : Counters) : Counters :=
  { c with misses := c.misses + 1 }

/-- So many elements were scanned. -/
def scan (c : Counters) (elements : Nat) : Counters :=
  { c with scans := c.scans + 1, scanned := c.scanned + UInt64.ofNat elements }

end Counters

end GraphIndex
