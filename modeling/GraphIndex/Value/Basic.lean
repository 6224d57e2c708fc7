/-
**Property values.**  What a vertex or an edge can say about itself under a name, and the keys
under which an index files it.

A value is compared in two ways.  `=` is equality of the data.  `Value.equal` is the equality of
the values meant: numbers are compared by the IEEE standard, so that a NaN is not equal to itself
and the two zeros are equal.  The key of a value repairs the first of these: every NaN has one key,
and both zeros have one key.  A null has no key, because an element without a value is not filed.

Main definitions:

* `Value` — the type of property values;
* `Value.equal` — equality of values;
* `ValueKey` — the type of keys, with decidable equality, an order and a digest;
* `ValueKey.ofValue?`, `ValueKey.toValue` — the key of a value, and the value of a key.
-/
import GraphIndex.Binary64.Basic
import GraphIndex.Digest
import GraphIndex.Text.Bytes

set_option autoImplicit false

namespace GraphIndex

/-- A property value. -/
inductive Value where
  | null
  | bool (b : Bool)
  | int (n : Int64)
  | float (x : Binary64)
  | string (s : String)
  | bytes (bs : List UInt8)
  deriving DecidableEq, Inhabited

/-- Equality of the values meant; values of different kinds are never equal. -/
def Value.equal : Value → Value → Bool
  | .null, .null => true
  | .bool a, .bool b => a == b
  | .int a, .int b => a == b
  | .float x, .float y => x.ieeeEq y
  | .string s, .string t => s == t
  | .bytes a, .bytes b => a == b
  | _, _ => false

/-- The key under which an index files a value. -/
inductive ValueKey where
  | bool (b : Bool)
  | int (n : Int64)
  /-- The normalised bits of a double-precision number. -/
  | float (bits : UInt64)
  | string (s : String)
  | bytes (bs : List UInt8)
  deriving DecidableEq, Inhabited

/-- The bits by which a number is filed: one pattern for every NaN and one for both zeros. -/
def Binary64.keyBits (x : Binary64) : UInt64 :=
  if x.isNaN then quietNaN.bits
  else if x.isZero then zero.bits
  else x.bits

namespace ValueKey

/-! ### Keys of values -/

/-- The key of a value; a null has none. -/
def ofValue? : Value → Option ValueKey
  | .null => none
  | .bool b => some (.bool b)
  | .int n => some (.int n)
  | .float x => some (.float x.keyBits)
  | .string s => some (.string s)
  | .bytes bs => some (.bytes bs)

/-- The value that a key stands for. -/
def toValue : ValueKey → Value
  | .bool b => .bool b
  | .int n => .int n
  | .float bits => .float ⟨bits⟩
  | .string s => .string s
  | .bytes bs => .bytes bs

/-! ### Order -/

/-- The place of a kind of key among the kinds. -/
def rank : ValueKey → Nat
  | .bool _ => 0
  | .int _ => 1
  | .float _ => 2
  | .string _ => 3
  | .bytes _ => 4

/-- Keys are ordered by kind first; numbers are ordered by their bits. -/
def compare (a b : ValueKey) : Ordering :=
  match a, b with
  | .bool p, .bool q => Ord.compare p.toNat q.toNat
  | .int m, .int n => Ord.compare m.toInt n.toInt
  | .float x, .float y => Ord.compare x.toNat y.toNat
  | .string s, .string t => Text.compare s t
  | .bytes x, .bytes y => compareBytes x y
  | _, _ => Ord.compare a.rank b.rank

instance : Std.TransCmp compare where
  eq_swap {a b} := by
    cases a <;> cases b
    case bool.bool => exact Std.OrientedOrd.eq_swap
    case int.int => exact Std.OrientedOrd.eq_swap
    case float.float => exact Std.OrientedOrd.eq_swap
    case string.string => exact @Std.OrientedCmp.eq_swap _ Text.compare _ _ _
    case bytes.bytes => exact @Std.OrientedCmp.eq_swap _ compareBytes _ _ _
    all_goals rfl
  isLE_trans {a b c} hab hbc := by
    cases a <;> cases b <;> cases c
    case bool.bool.bool => exact Std.TransOrd.isLE_trans hab hbc
    case int.int.int => exact Std.TransOrd.isLE_trans hab hbc
    case float.float.float => exact Std.TransOrd.isLE_trans hab hbc
    case string.string.string => exact @Std.TransCmp.isLE_trans _ Text.compare _ _ _ _ hab hbc
    case bytes.bytes.bytes => exact @Std.TransCmp.isLE_trans _ compareBytes _ _ _ _ hab hbc
    all_goals simp_all [compare, rank, Nat.isLE_compare]

instance : Std.LawfulEqCmp compare where
  compare_self {a} := by
    cases a
    case bool => exact Std.ReflOrd.compare_self
    case int => exact Std.ReflOrd.compare_self
    case float => exact Std.ReflOrd.compare_self
    case string => exact @Std.ReflCmp.compare_self _ Text.compare _ _
    case bytes => exact @Std.ReflCmp.compare_self _ compareBytes _ _
  eq_of_compare {a b} h := by
    cases a <;> cases b
    case bool.bool p q =>
      have hpq : p.toNat = q.toNat := Std.LawfulEqOrd.eq_of_compare h
      cases p <;> cases q <;> simp_all
    case int.int m n => exact congrArg int (Int64.toInt_inj.mp (Std.LawfulEqOrd.eq_of_compare h))
    case float.float x y =>
      exact congrArg float (UInt64.toNat_inj.mp (Std.LawfulEqOrd.eq_of_compare h))
    case string.string s t =>
      exact congrArg string (@Std.LawfulEqCmp.eq_of_compare _ Text.compare _ _ _ h)
    case bytes.bytes x y =>
      exact congrArg bytes (@Std.LawfulEqCmp.eq_of_compare _ compareBytes _ _ _ h)
    all_goals contradiction

/-- The first key does not come after the second. -/
def le (a b : ValueKey) : Bool :=
  (compare a b).isLE

/-! ### Digest -/

/-- The words of a key: its kind, then its content.  A string ends with a word of its own, and a
byte string begins with its length, so that no layout continues another one. -/
def words : ValueKey → List UInt64
  | .bool b => [0, b.toUInt64]
  | .int n => [1, n.toUInt64]
  | .float bits => [2, bits]
  | .string s => 3 :: (Digest.wordsOfBytes (Text.utf8 s) ++ [0xff])
  | .bytes bs => 4 :: UInt64.ofNat bs.length :: Digest.wordsOfBytes bs

instance : Digest ValueKey where
  digest k := Digest.ofWords k.words

instance : LawfulDigest ValueKey where
  digest_eq h := by rw [eq_of_beq h]

end ValueKey

end GraphIndex
