/-
**Graph elements.**  Vertices and edges as the index layer sees them.

An element has an identity, which is its kind and its number, and it stays the same element while
its properties and its lifecycle change.  So two elements are compared by identity alone: `==` asks
for it, and the digest is computed from it.  Whether two elements agree in everything is asked with
`=`.

Main definitions:

* `ElementKind`, `ElementId`, `Lifecycle` — the parts of an element;
* `Element` — the type, for each kind; `Vertex` and `Edge` are its two cases;
* `Element.property?`, `Element.setProperty`, `Element.removeProperty` — the named values;
* `Element.softDelete`, `Element.isDeleted` — soft deletion;
* `Element.detached` — a copy to hand out.
-/
import GraphIndex.Dictionary.Basic

set_option autoImplicit false

namespace GraphIndex

/-- The kinds of graph elements. -/
inductive ElementKind where
  | vertex
  | edge
  deriving DecidableEq, Repr

/-- The place of a kind among the kinds. -/
def ElementKind.rank : ElementKind → UInt64
  | vertex => 0
  | edge => 1

/-- The number of an element, unique among those of its kind. -/
structure ElementId where
  /-- The number. -/
  value : UInt64
  deriving DecidableEq, Repr

/-- Whether queries see an element. -/
inductive Lifecycle where
  /-- Queries see it. -/
  | active
  /-- It is deleted, but still there. -/
  | removed
  deriving DecidableEq, Repr

/-- The two ends of an edge. -/
structure EdgeEnds where
  /-- The vertex that the edge leaves. -/
  source : ElementId
  /-- The vertex that the edge enters. -/
  target : ElementId
  deriving DecidableEq, Repr

/-- What an element of a kind has beside its number, label and properties: an edge has ends. -/
def ElementKind.Ends : ElementKind → Type
  | .vertex => Unit
  | .edge => EdgeEnds

/-- An element of the graph. -/
structure Element (kind : ElementKind) where
  /-- Its number. -/
  id : ElementId
  /-- Its label. -/
  label : String
  /-- Its ends, if it is an edge. -/
  ends : kind.Ends
  /-- Its named values. -/
  properties : Dictionary
  /-- Whether queries see it. -/
  state : Lifecycle

/-- A node of the graph. -/
abbrev Vertex : Type :=
  Element .vertex

/-- A connection of two nodes. -/
abbrev Edge : Type :=
  Element .edge

namespace Element

variable {kind : ElementKind}

/-! ### Building and changing elements -/

/-- An active element without properties. -/
def ofId (id : ElementId) (label : String) (ends : kind.Ends) : Element kind where
  id
  label
  ends
  properties := .empty
  state := .active

/-- The value of a property. -/
def property? (e : Element kind) (key : String) : Option Value :=
  e.properties.get? key

/-- The element with one property set. -/
def setProperty (e : Element kind) (key : String) (v : Value) : Element kind :=
  { e with properties := e.properties.insert key v }

/-- The element without one property. -/
def removeProperty (e : Element kind) (key : String) : Element kind :=
  { e with properties := e.properties.erase key }

/-- The element, deleted but still there. -/
def softDelete (e : Element kind) : Element kind :=
  { e with state := .removed }

/-- The element is deleted. -/
def isDeleted (e : Element kind) : Bool :=
  decide (e.state = .removed)

/-- A copy to hand out, whose properties are stored apart. -/
def detached (e : Element kind) : Element kind :=
  { e with properties := e.properties.copy }

/-- **A copy to hand out agrees with the element in everything.** -/
theorem detached_eq (e : Element kind) : e.detached = e := by
  rw [detached, Dictionary.copy_eq]

theorem map_detached (es : List (Element kind)) : es.map detached = es :=
  (List.map_congr_left fun e _ => e.detached_eq).trans (List.map_id es)

/-- The key under which an index on a property files the element; none if the property is missing
or null. -/
def keyFor? (e : Element kind) (key : String) : Option ValueKey :=
  (e.property? key).bind ValueKey.ofValue?

/-! ### Identity -/

/-- Elements of one kind are identical if their numbers are. -/
instance : BEq (Element kind) where
  beq e f := e.id == f.id

instance : EquivBEq (Element kind) where
  rfl := by simp [BEq.beq]
  symm {e f} h := by
    simp only [BEq.beq, decide_eq_true_eq] at *
    exact h.symm
  trans {e f g} h k := by
    simp only [BEq.beq, decide_eq_true_eq] at *
    exact h.trans k

/-- The words of an identity: the kind, then the number. -/
def identityWords (e : Element kind) : List UInt64 :=
  [kind.rank, e.id.value]

instance : Digest (Element kind) where
  digest e := Digest.ofWords e.identityWords

instance : LawfulDigest (Element kind) where
  digest_eq {e f} h := by
    simp only [BEq.beq, decide_eq_true_eq] at h
    simp only [digest, identityWords, h]

end Element

end GraphIndex
