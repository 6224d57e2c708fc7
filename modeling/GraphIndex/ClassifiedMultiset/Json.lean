/-
**Sizing options as JSON.**  Which documents are options.

Options are an object with members `initial_capacity`, `grow_load` and `shrink_load`, each of which
may be missing and none of which may be repeated; other members are ignored.  A list of up to three
documents gives the options in this order.  The number of buckets is an integer, and a watermark is
any number.

Main definitions:

* `SizingOptions.ofJson?` — the options of a document.
-/
import GraphIndex.ClassifiedMultiset.Sizing
import GraphIndex.Value.Json

set_option autoImplicit false

namespace GraphIndex

/-- The double-precision number that a document is. -/
def Json.float? (c : Codec) : Json → Option Binary64
  | .number n => c.float? n
  | _ => none

/-- The word of 64 bits that a document is. -/
def Json.word? (j : Json) : Option UInt64 :=
  j.integer?.bind uint64OfInt?

namespace SizingOptions

variable (c : Json.Codec)

/-- Options in which the number of buckets is given by a document. -/
def withCapacity? (o : SizingOptions) (j : Json) : Option SizingOptions :=
  j.word?.map fun n => { o with capacity := n }

/-- Options in which the growth watermark is given by a document. -/
def withGrowLoad? (o : SizingOptions) (j : Json) : Option SizingOptions :=
  (j.float? c).map fun x => { o with growLoad := x }

/-- Options in which the shrinking watermark is given by a document. -/
def withShrinkLoad? (o : SizingOptions) (j : Json) : Option SizingOptions :=
  (j.float? c).map fun x => { o with shrinkLoad := x }

/-- The names of the options, in order, and how each is given by a document. -/
def fields : List (String × (SizingOptions → Json → Option SizingOptions)) :=
  [("initial_capacity", withCapacity?), ("grow_load", withGrowLoad? c),
    ("shrink_load", withShrinkLoad? c)]

/-- Options given by named documents. -/
def ofMembers? (members : List (String × Json)) : Option SizingOptions :=
  (fields c).foldlM (fun o (name, set) =>
    match members.filter (·.1 = name) with
    | [] => some o
    | [(_, j)] => set o j
    | _ => none) standard

/-- Options given by a list of documents. -/
def ofItems? (items : List Json) : Option SizingOptions :=
  if (fields c).length < items.length then none
  else ((fields c).zip items).foldlM (fun o (field, j) => field.2 o j) standard

/-- The options of a document. -/
def ofJson? : Json → Option SizingOptions
  | .object members => ofMembers? c members
  | .array items => ofItems? c items
  | _ => none

end SizingOptions

end GraphIndex
