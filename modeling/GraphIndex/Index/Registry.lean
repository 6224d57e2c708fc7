/-
**Index registries.**  All indexes on elements of one kind, by the name of their property.

The indexes of a registry belong to its lock, and whoever changes the registry holds a permit of
that lock.  A change of an element goes to one index after the other; should an index refuse it,
the indexes before it have changed and those after it have not.

Main definitions:

* `Registry` — the type;
* `Registry.create?`, `Registry.drop?` — setting up an index and giving it up;
* `Registry.add`, `Registry.remove`, `Registry.replace` — changes of an element;
* `Registry.get` — the elements with a value, and the registry with the look-up counted.
-/
import GraphIndex.Index.Basic
import GraphIndex.Index.Counters

set_option autoImplicit false

namespace GraphIndex

/-- The indexes on elements of one kind. -/
structure Registry (kind : ElementKind) where
  /-- The lock that the indexes belong to. -/
  owner : LockId
  /-- The indexes by the name of their property. -/
  indexes : KeyedList String (Index kind)
  /-- The counters of look-ups, if look-ups are counted. -/
  counters : Option Counters

namespace Registry

variable {kind : ElementKind}

/-- A registry without indexes. -/
def ofLock (owner : LockId) (counters : Option Counters) : Registry kind :=
  ⟨owner, .empty, counters⟩

/-- The permit of a writer of the registry. -/
def permit (r : Registry kind) : Permit :=
  ⟨r.owner⟩

/-! ### Keys -/

/-- The names of the indexed properties, in order. -/
def keys (r : Registry kind) : List String :=
  r.indexes.keys.mergeSort Text.le

/-- The property is indexed. -/
def isIndexed (r : Registry kind) (key : String) : Bool :=
  r.indexes.contains key

/-- The index on a property. -/
def index? (r : Registry kind) (key : String) : Option (Index kind) :=
  r.indexes.get? key

/-- The registry with a new index on a property, which files the given elements. -/
def create? (r : Registry kind) (key : String) (es : List (Element kind)) :
    Except IndexError (Registry kind) :=
  if r.isIndexed key then .error (.indexExists key)
  else
    match (Index.ofKey key r.owner).load r.permit es with
    | (.ok (), ix) => .ok { r with indexes := r.indexes.insert key ix }
    | (.error e, _) => .error e

/-- The registry without the index on a property; nothing if there is none. -/
def drop? (r : Registry kind) (key : String) : Option (Registry kind) :=
  if r.isIndexed key then some { r with indexes := r.indexes.erase key } else none

/-! ### Changes of elements -/

/-- A change is made to one index after the other, until one refuses it. -/
def changeEach (change : Index kind → Except IndexError Unit × Index kind) :
    List (String × Index kind) → Except IndexError Unit × List (String × Index kind)
  | [] => (.ok (), [])
  | (key, ix) :: rest =>
      match change ix with
      | (.error e, ix) => (.error e, (key, ix) :: rest)
      | (.ok (), ix) =>
          let (outcome, others) := changeEach change rest
          (outcome, (key, ix) :: others)

/-- A change is made to all indexes with the permit of a writer; answers how it ended, and the
registry after it. -/
def changeAll (r : Registry kind)
    (change : Permit → Index kind → Except IndexError Unit × Index kind) :
    Except IndexError Unit × Registry kind :=
  let permit := r.permit
  match r with
  | ⟨owner, indexes, counters⟩ =>
      let (outcome, pairs) := changeEach (change permit) indexes.pairs
      (outcome, ⟨owner, ⟨pairs⟩, counters⟩)

/-- The element is added to every index. -/
def add (r : Registry kind) (e : Element kind) : Except IndexError Unit × Registry kind :=
  r.changeAll fun p ix => ix.add p e

/-- The element is removed from every index. -/
def remove (r : Registry kind) (e : Element kind) : Except IndexError Unit × Registry kind :=
  r.changeAll fun p ix => ix.remove p e

/-- An element takes the place of an earlier state of it in every index. -/
def replace (r : Registry kind) (old new : Element kind) :
    Except IndexError Unit × Registry kind :=
  match r.remove old with
  | (.ok (), removed) => removed.add new
  | (.error e, stopped) => (.error e, stopped)

/-- Changes of elements follow one another until one of them fails. -/
def changeInTurn (r : Registry kind)
    (change : Registry kind → Element kind → Except IndexError Unit × Registry kind) :
    List (Element kind) → Except IndexError Unit × Registry kind
  | [] => (.ok (), r)
  | e :: es =>
      match change r e with
      | (.ok (), next) => changeInTurn next change es
      | (.error e, stopped) => (.error e, stopped)

/-- The elements are added to every index, one after the other. -/
def addAll (r : Registry kind) (es : List (Element kind)) :
    Except IndexError Unit × Registry kind :=
  r.changeInTurn add es

/-- The elements are removed from every index, one after the other. -/
def removeAll (r : Registry kind) (es : List (Element kind)) :
    Except IndexError Unit × Registry kind :=
  r.changeInTurn remove es

/-! ### Look-ups -/

/-- The registry with something counted. -/
def count (r : Registry kind) (event : Counters → Counters) : Registry kind :=
  { r with counters := r.counters.map event }

/-- Copies of the elements that have the value of a property; fails if the property is not
indexed. -/
def get (r : Registry kind) (key : String) (v : Value) :
    Except IndexError (List (Element kind)) × Registry kind :=
  match r.index? key with
  | some ix => (.ok (ix.get v), r.count Counters.hit)
  | none => (.error (.missingIndex key r.keys), r.count Counters.miss)

end Registry

end GraphIndex
