/-
**Text as bytes.**  The encoding of a string, and the order that it gives.

Strings are ordered by their UTF-8 bytes, which is the order of their code points.

Main definitions:

* `Text.utf8` — the bytes of a string;
* `compareBytes`, `Text.compare` — the order of byte strings and of strings.
-/

set_option autoImplicit false

namespace GraphIndex

/-- Byte strings are ordered like words in a dictionary. -/
def compareBytes (a b : List UInt8) : Ordering :=
  compare a b

instance : Std.TransCmp compareBytes :=
  inferInstanceAs (Std.TransOrd (List UInt8))

instance : Std.LawfulEqCmp compareBytes :=
  inferInstanceAs (Std.LawfulEqOrd (List UInt8))

namespace Text

/-- The UTF-8 bytes of a string. -/
def utf8 (s : String) : List UInt8 :=
  s.toByteArray.data.toList

/-- Strings with the same bytes are the same. -/
theorem utf8_injective {a b : String} (h : utf8 a = utf8 b) : a = b :=
  String.toByteArray_inj.mp (ByteArray.ext (Array.toList_inj.mp h))

/-- Strings are ordered by their bytes. -/
def compare (a b : String) : Ordering :=
  compareBytes (utf8 a) (utf8 b)

instance : Std.TransCmp compare where
  eq_swap {a b} := by
    rw [compare, compare]
    exact Std.OrientedCmp.eq_swap
  isLE_trans {a b c} hab hbc := by
    rw [compare] at hab hbc ⊢
    exact Std.TransCmp.isLE_trans hab hbc

instance : Std.LawfulEqCmp compare where
  compare_self {a} := by
    rw [compare]
    exact Std.ReflCmp.compare_self
  eq_of_compare {a b} h := by
    rw [compare] at h
    exact utf8_injective (Std.LawfulEqCmp.eq_of_compare h)

/-- The first string does not come after the second. -/
def le (a b : String) : Bool :=
  (compare a b).isLE

end Text

end GraphIndex
