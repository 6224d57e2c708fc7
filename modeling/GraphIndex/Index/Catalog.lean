/-
**Index catalogs.**  A registry, and names for single indexes.

A name refers to an index, not to its state: while the index is registered, changes made through
the registry are seen under the name and the other way round, and two names of one index always
agree.  An index that is dropped from the registry lives on under the names that refer to it, and a
later index on the same property is another one.

Main definitions:

* `IndexRef` — which index a name refers to;
* `Catalog` — the type;
* `Catalog.define`, `Catalog.hold?` — naming an index of its own, and a registered one;
* `Catalog.index?`, `Catalog.update?` — the index of a name, and a change of it;
* `Catalog.drop?` — giving up a registered index.
-/
import GraphIndex.Index.Registry

set_option autoImplicit false

namespace GraphIndex

/-- Which index a name refers to. -/
inductive IndexRef where
  /-- The index that is registered on a property. -/
  | registered (key : String)
  /-- An index that is not registered. -/
  | loose (number : Nat)
  deriving DecidableEq, Repr

/-- A registry, and names for single indexes. -/
structure Catalog (kind : ElementKind) where
  /-- The registered indexes. -/
  registry : Registry kind
  /-- The indexes that are not registered. -/
  loose : KeyedList Nat (Index kind)
  /-- The names. -/
  refs : KeyedList String IndexRef

namespace Catalog

variable {kind : ElementKind}

/-- A registry without names. -/
def ofRegistry (r : Registry kind) : Catalog kind :=
  ⟨r, .empty, .empty⟩

/-- An index that is not registered gets a name. -/
def define (c : Catalog kind) (name : String) (ix : Index kind) : Catalog kind :=
  { c with
    loose := c.loose.insert c.loose.size ix
    refs := c.refs.insert name (.loose c.loose.size) }

/-- The index that is registered on a property gets a name; nothing if there is none. -/
def hold? (c : Catalog kind) (name key : String) : Option (Catalog kind) :=
  if c.registry.isIndexed key then
    some { c with refs := c.refs.insert name (.registered key) }
  else none

/-- The index that is referred to. -/
def resolve? (c : Catalog kind) : IndexRef → Option (Index kind)
  | .registered key => c.registry.index? key
  | .loose number => c.loose.get? number

/-- The index of a name. -/
def index? (c : Catalog kind) (name : String) : Option (Index kind) :=
  (c.refs.get? name).bind c.resolve?

/-- The catalog with another state of the index that is referred to. -/
def setIndex (c : Catalog kind) (ref : IndexRef) (ix : Index kind) : Catalog kind :=
  match ref with
  | .registered key =>
      { c with registry := { c.registry with indexes := c.registry.indexes.insert key ix } }
  | .loose number => { c with loose := c.loose.insert number ix }

/-- A change of the index of a name, which the index may refuse; answers how it ended, and the
catalog after it, or nothing if there is no such name. -/
def update? (c : Catalog kind) (name : String)
    (change : Index kind → Except IndexError Unit × Index kind) :
    Option (Except IndexError Unit × Catalog kind) :=
  (c.refs.get? name).bind fun ref =>
    (c.resolve? ref).map fun ix =>
      let (outcome, changed) := change ix
      (outcome, c.setIndex ref changed)

/-- The catalog without the registered index on a property; nothing if there is none. -/
def drop? (c : Catalog kind) (key : String) : Option (Catalog kind) :=
  (c.registry.index? key).bind fun ix =>
    (c.registry.drop? key).map fun registry =>
      let number := c.loose.size
      { registry
        loose := c.loose.insert number ix
        refs := ⟨c.refs.pairs.map fun (name, ref) =>
          (name, if ref = .registered key then .loose number else ref)⟩ }

end Catalog

end GraphIndex
