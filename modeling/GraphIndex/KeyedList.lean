/-
**Keyed lists.**  A finite map as a list of pairs without a repeated key.

Setting a key that is present changes its entry in place; a new key goes to the end.  So the keys
stand in the order in which they were first set.

Main definitions:

* `KeyedList` — the type;
* `KeyedList.get?`, `KeyedList.insert`, `KeyedList.erase` — looking up, setting and removing a key.

Main results:

* `KeyedList.get?_insert`, `KeyedList.get?_erase` — what the operations do to every look-up.
-/

set_option autoImplicit false

namespace GraphIndex

/-- A finite map as a list of pairs. -/
structure KeyedList (κ ν : Type) where
  /-- The pairs, the oldest key first. -/
  pairs : List (κ × ν)

namespace KeyedList

variable {κ ν : Type}

/-- The map without keys. -/
def empty : KeyedList κ ν :=
  ⟨[]⟩

/-- The keys, the oldest first. -/
def keys (m : KeyedList κ ν) : List κ :=
  m.pairs.map Prod.fst

/-- The entries, in the order of their keys. -/
def values (m : KeyedList κ ν) : List ν :=
  m.pairs.map Prod.snd

/-- The number of keys. -/
def size (m : KeyedList κ ν) : Nat :=
  m.pairs.length

variable [DecidableEq κ]

/-- The entry of the first pair with the given key. -/
def findPair (k : κ) : List (κ × ν) → Option ν
  | [] => none
  | p :: ps => if p.1 = k then some p.2 else findPair k ps

/-- The entry of a key. -/
def get? (m : KeyedList κ ν) (k : κ) : Option ν :=
  findPair k m.pairs

/-- The key has an entry. -/
def contains (m : KeyedList κ ν) (k : κ) : Bool :=
  (m.get? k).isSome

/-- A list of pairs in which the entry of one key is set. -/
def insertPair (k : κ) (v : ν) : List (κ × ν) → List (κ × ν)
  | [] => [(k, v)]
  | p :: ps => if p.1 = k then (k, v) :: ps else p :: insertPair k v ps

/-- The map in which one key has the given entry. -/
def insert (m : KeyedList κ ν) (k : κ) (v : ν) : KeyedList κ ν :=
  ⟨insertPair k v m.pairs⟩

/-- The map without one key. -/
def erase (m : KeyedList κ ν) (k : κ) : KeyedList κ ν :=
  ⟨m.pairs.filter fun p => p.1 ≠ k⟩

/-! ### Look-up laws -/

theorem findPair_insertPair (k l : κ) (v : ν) (ps : List (κ × ν)) :
    findPair l (insertPair k v ps) = if k = l then some v else findPair l ps := by
  induction ps with
  | nil => rfl
  | cons p ps ih => grind [findPair, insertPair]

theorem findPair_filter (k l : κ) (ps : List (κ × ν)) :
    findPair l (ps.filter fun p => p.1 ≠ k) = if k = l then none else findPair l ps := by
  induction ps with
  | nil => simp [findPair]
  | cons p ps ih => grind [findPair]

theorem mem_of_findPair_eq_some {k : κ} {v : ν} {ps : List (κ × ν)} (h : findPair k ps = some v) :
    (k, v) ∈ ps := by
  induction ps with
  | nil => simp [findPair] at h
  | cons p ps ih => grind [findPair]

theorem mem_insertPair {k : κ} {v : ν} {ps : List (κ × ν)} {p : κ × ν}
    (h : p ∈ insertPair k v ps) : p = (k, v) ∨ p ∈ ps := by
  induction ps with
  | nil => simpa [insertPair] using h
  | cons q ps ih => grind [insertPair]

/-- Setting a key changes the answer for that key only. -/
theorem get?_insert (m : KeyedList κ ν) (k l : κ) (v : ν) :
    (m.insert k v).get? l = if k = l then some v else m.get? l :=
  findPair_insertPair k l v m.pairs

/-- Removing a key changes the answer for that key only. -/
theorem get?_erase (m : KeyedList κ ν) (k l : κ) :
    (m.erase k).get? l = if k = l then none else m.get? l :=
  findPair_filter k l m.pairs

end KeyedList

end GraphIndex
