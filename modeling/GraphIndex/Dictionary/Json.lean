/-
**Dictionaries as JSON.**  A dictionary is an object with one member for each key.

Reading takes an object whose members are all values, and makes a finite map of them first.  Of
several members with one name the last one counts, but each of them has to be a value.  The dictionary
is then made of the map, whose entries come in no order that the members would determine.

Main definitions:

* `Dictionary.MapOrder` — the orders in which the entries of finite maps may come;
* `Dictionary.toJson` — the object of a dictionary;
* `Dictionary.ofJson?` — the dictionary of an object, if it is one;
* `Dictionary.toText`, `Dictionary.ofText?` — the same between dictionaries and JSON text.
-/
import GraphIndex.Dictionary.Basic
import GraphIndex.Value.Json

set_option autoImplicit false

namespace GraphIndex

namespace Dictionary

/-- An order in which the entries of every finite map come. -/
structure MapOrder where
  /-- The entries of a map. -/
  entries : Std.ExtTreeMap String Value Text.compare → List (String × Value)
  perm : ∀ m, (entries m).Perm m.toList

/-- The entries come in the order of their keys. -/
def MapOrder.sorted : MapOrder :=
  ⟨fun m => m.toList, fun m => List.Perm.refl m.toList⟩

/-- The finite map in which entries are set one after the other, so that the last entry of a key
counts. -/
def mapOfEntries (es : List (String × Value)) : Std.ExtTreeMap String Value Text.compare :=
  es.foldl (fun m e => m.insert e.1 e.2) ∅

variable (c : Json.Codec)

/-- The object of a dictionary. -/
def toJson (d : Dictionary) : Json :=
  .object (d.entries.map fun (k, v) => (k, v.toJson c))

/-- The entries of the members of an object. -/
def entriesOfMembers? (members : List (String × Json)) : Option (List (String × Value)) :=
  members.mapM fun (k, j) => (Value.ofJson? c j).map fun v => (k, v)

/-- The dictionary of a document. -/
def ofJson? (order : MapOrder) : Json → Option Dictionary
  | .object members =>
      (entriesOfMembers? c members).map fun es => ofList (order.entries (mapOfEntries es))
  | _ => none

/-- The JSON text of a dictionary. -/
def toText (d : Dictionary) : String :=
  c.render (d.toJson c)

/-- The dictionary of a JSON text. -/
def ofText? (order : MapOrder) (text : String) : Option Dictionary :=
  (c.ofString? text).bind (ofJson? c order)

end Dictionary

end GraphIndex
