/-
**Property dictionaries.**  The named values of one vertex or edge, stored according to their
number.

Most elements have few properties.  Up to six of them are kept inline, as a list of keys and a list
of values side by side; the storage has room for one, two, three, four or six.  More go into a map.
A dictionary without keys has no storage at all.  Storage is rebuilt only when an insertion finds
no room or a removal leaves the tier that the number of keys asks for.

Main definitions:

* `Dictionary.Tier`, `Dictionary.Tier.ofSize` — the kinds of storage and the choice among them;
* `Dictionary` — the type;
* `Dictionary.get?`, `Dictionary.insert`, `Dictionary.erase?` — looking up, setting and removing;
* `Dictionary.entries` — the keys and their values, in the order of storage;
* `Dictionary.ofList`, `Dictionary.toMap` — from a list of entries, and to a finite map;
* `Dictionary.copy` — an independent copy; `Dictionary.copy_eq`, it has the same contents in the same
  tier;
* `Dictionary.equal` — equality of contents.
-/
import GraphIndex.KeyedList
import GraphIndex.SwapErase
import GraphIndex.Value.Basic
import Std.Data.ExtTreeMap.Basic

set_option autoImplicit false

namespace GraphIndex

/-- How the entries of a dictionary are stored. -/
inductive Dictionary.Tier where
  /-- There is nothing to store. -/
  | empty
  /-- Two lists with room for the given number of entries. -/
  | inline (capacity : Nat)
  /-- A map. -/
  | map
  deriving DecidableEq, Repr

namespace Dictionary.Tier

/-- The sizes of inline storage. -/
def inlineSizes : List Nat :=
  [1, 2, 3, 4, 6]

/-- The tier for a number of keys: the smallest inline storage that has room for them, or a map. -/
def ofSize (n : Nat) : Tier :=
  if n = 0 then empty
  else
    match inlineSizes.find? (n ≤ ·) with
    | some capacity => inline capacity
    | none => map

/-- The name of a tier: inline storage is named by its size. -/
def text : Tier → String
  | empty => "empty"
  | inline capacity => toString capacity
  | map => "map"

end Dictionary.Tier

/-- A finite map from names to property values. -/
inductive Dictionary where
  /-- No entries and no storage. -/
  | empty
  /-- The keys and, at the same positions, their values. -/
  | inline (capacity : Nat) (keys : List String) (values : List Value)
  /-- The entries of a large dictionary. -/
  | map (table : KeyedList String Value)

namespace Dictionary

/-! ### Contents -/

/-- The tier of the storage in use. -/
def tier : Dictionary → Tier
  | empty => .empty
  | inline capacity _ _ => .inline capacity
  | map _ => .map

/-- The keys and their values, in the order of storage. -/
def entries : Dictionary → List (String × Value)
  | empty => []
  | inline _ keys values => keys.zip values
  | map table => table.pairs

/-- The number of keys. -/
def size : Dictionary → Nat
  | empty => 0
  | inline _ keys _ => keys.length
  | map table => table.size

/-- There is no storage. -/
def isEmpty : Dictionary → Bool
  | empty => true
  | _ => false

/-- The keys, in the order of storage. -/
def keys (d : Dictionary) : List String :=
  d.entries.map Prod.fst

/-- The keys and their values, in the order of the keys. -/
def sortedEntries (d : Dictionary) : List (String × Value) :=
  d.entries.mergeSort fun a b => Text.le a.1 b.1

/-- The value of a key. -/
def get? (d : Dictionary) (k : String) : Option Value :=
  match d with
  | empty => none
  | inline _ keys values => (keys.idxOf? k).bind fun i => values[i]?
  | map table => table.get? k

/-- The key has a value. -/
def contains (d : Dictionary) (k : String) : Bool :=
  (d.get? k).isSome

/-! ### Changes -/

/-- The dictionary of entries with distinct keys, in the tier for their number. -/
def ofEntries (es : List (String × Value)) : Dictionary :=
  match Tier.ofSize es.length with
  | .empty => empty
  | .inline capacity => inline capacity (es.map Prod.fst) (es.map Prod.snd)
  | .map => map ⟨es⟩

/-- The dictionary in which a key has the given value.  The value of a key that is present is
replaced where it stands. -/
def insert (d : Dictionary) (k : String) (v : Value) : Dictionary :=
  match d with
  | empty => ofEntries [(k, v)]
  | inline capacity keys values =>
      match keys.idxOf? k with
      | some i => inline capacity keys (values.set i v)
      | none =>
          if keys.length < capacity then inline capacity (keys ++ [k]) (values ++ [v])
          else ofEntries (keys.zip values ++ [(k, v)])
  | map table => map (table.insert k v)

/-- A dictionary in the tier for its number of keys: one that is in another tier is rebuilt. -/
def settle (d : Dictionary) : Dictionary :=
  if d.tier = Tier.ofSize d.size then d else ofEntries d.entries

/-- The dictionary without a key that is present; nothing if the key is absent. -/
def erase? (d : Dictionary) (k : String) : Option Dictionary :=
  match d with
  | empty => none
  | inline capacity keys values =>
      (keys.idxOf? k).map fun i =>
        (inline capacity (swapErase keys i) (swapErase values i)).settle
  | map table => if table.contains k then some (map (table.erase k)).settle else none

/-- The dictionary without a key. -/
def erase (d : Dictionary) (k : String) : Dictionary :=
  (d.erase? k).getD d

/-- The dictionary in which the given entries are set one after the other, so that the last entry
of a key counts. -/
def ofList (es : List (String × Value)) : Dictionary :=
  es.foldl (fun d e => d.insert e.1 e.2) empty

/-- The keys and their values as a finite map.  A map has no order of its own: it may be enumerated in
every order, and two maps with the same entries are the same. -/
def toMap (d : Dictionary) : Std.ExtTreeMap String Value Text.compare :=
  Std.ExtTreeMap.ofList d.entries Text.compare

/-! ### Copies -/

/-- The items of a column, pushed one after the other onto a new one. -/
def copyItems {α : Type} (xs : List α) : List α :=
  (xs.foldl Array.push #[]).toList

theorem copyItems_eq {α : Type} (xs : List α) : copyItems xs = xs := by
  rw [copyItems, List.foldl_push_eq_append]
  simp

/-- An independent copy.  The entries are copied one by one, in columns into columns with the same
room, and from a map, whose keys are distinct, into a new map. -/
def copy : Dictionary → Dictionary
  | empty => empty
  | inline capacity keys values => inline capacity (copyItems keys) (copyItems values)
  | map table => map ⟨copyItems table.pairs⟩

/-- **A copy has the same contents in the same tier.** -/
theorem copy_eq (d : Dictionary) : d.copy = d := by
  cases d with
  | empty => rfl
  | inline capacity keys values => rw [copy, copyItems_eq, copyItems_eq]
  | map table => rw [copy, copyItems_eq]

/-- A dictionary has storage in common with an independent copy of it only where there is no
storage to copy. -/
def sharesWithCopy (d : Dictionary) : Bool :=
  d.isEmpty

/-! ### Equality -/

/-- The dictionaries have the same keys, with equal values. -/
def equal (d e : Dictionary) : Bool :=
  d.size == e.size && d.entries.all fun (k, v) => (e.get? k).any fun w => v.equal w

end Dictionary

end GraphIndex
