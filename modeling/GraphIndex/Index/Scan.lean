/-
**Scans.**  Finding elements by value without an index.

A scan looks at all elements and keeps those that an index would file under the key of the value:
deleted elements are passed over, and a null is found nowhere.  Where a scan takes the place of an
index, the elements are counted as they are taken.

Main definitions:

* `scanFor` — the elements with a value, in their order;
* `inspect` — the same scan, with the number of elements it takes;
* `Registry.lookup` — the answer of an index, or of a scan where there is none.
-/
import GraphIndex.Index.Registry

set_option autoImplicit false

namespace GraphIndex

variable {kind : ElementKind}

/-- The element is not deleted and has a property with the given key. -/
def Element.isFound (e : Element kind) (key : String) (k : ValueKey) : Bool :=
  !e.isDeleted && e.keyFor? key == some k

/-- Copies of the elements that have the value of a property, in their order. -/
def scanFor (es : List (Element kind)) (key : String) (v : Value) : List (Element kind) :=
  match ValueKey.ofValue? v with
  | none => []
  | some k => (es.filter (·.isFound key k)).map Element.detached

/-- Copies of the elements with a key, which are taken one at a time, and how many were taken. -/
def takeFound (key : String) (k : ValueKey) : List (Element kind) → List (Element kind) × Nat
  | [] => ([], 0)
  | e :: es =>
      let (found, taken) := takeFound key k es
      (if e.isFound key k then e.detached :: found else found, taken + 1)

/-- A scan that counts the elements it takes; for a null it takes none. -/
def inspect (es : List (Element kind)) (key : String) (v : Value) : List (Element kind) × Nat :=
  match ValueKey.ofValue? v with
  | none => ([], 0)
  | some k => takeFound key k es

/-- Copies of the elements that have the value of a property, from an index if there is one. -/
def Registry.lookup (r : Registry kind) (es : List (Element kind)) (key : String) (v : Value) :
    List (Element kind) × Registry kind :=
  match r.get key v with
  | (.ok found, counted) => (found, counted)
  | (.error _, counted) =>
      let (found, taken) := inspect es key v
      (found, counted.count (Counters.scan · taken))

end GraphIndex
