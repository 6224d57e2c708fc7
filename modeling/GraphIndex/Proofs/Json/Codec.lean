/-
**Faithful text layers.**  What a program may rely on when it leaves the text of its documents to
others.

A finite number of double precision is written as a numeral with a point or an exponent, from which it
is read back to the bit, and any other one as `null`.  Numbers within the range of double precision are
read.  Apart from that, the text of an object is read back as the object, as long as nothing deeper
than an array of scalars stands in it.

Main definitions:

* `Json.IsScalar`, `Json.IsFlat` — documents without depth;
* `Numeral.InRange` — numbers within the range of double precision;
* `Json.Codec.Faithful` — the laws of a text layer.

Main results:

* `Json.Codec.faithful_shortest` — **the text layer with shortest decimals keeps the laws**.
-/
import GraphIndex.Json.Shortest
import GraphIndex.Proofs.Binary64.Decimal
import GraphIndex.Proofs.Json.Reader

set_option autoImplicit false

namespace GraphIndex

/-- The document is neither an array nor an object. -/
def Json.IsScalar : Json → Prop
  | .array _ => False
  | .object _ => False
  | _ => True

/-- The document is a scalar or an array of scalars. -/
def Json.IsFlat : Json → Prop
  | .array items => ∀ item ∈ items, item.IsScalar
  | .object _ => False
  | _ => True

/-- The number that is written is no larger than all finite numbers of double precision. -/
def Numeral.InRange (n : Numeral) : Prop :=
  ∃ x : Binary64, x.isFinite = true ∧ n.absRat ≤ x.absRat

namespace Json.Codec

/-- The laws of a text layer. -/
structure Faithful (c : Codec) : Prop where
  /-- A finite number is written with a point or an exponent, and reads back to the bit. -/
  ofFloat_of_isFinite : ∀ {x : Binary64}, x.isFinite = true →
    ∃ n, c.ofFloat x = .number n ∧ n.Spelled ∧ n.HasPoint ∧ c.float? n = some x
  /-- A NaN or an infinity is written as `null`. -/
  ofFloat_of_not_isFinite : ∀ {x : Binary64}, x.isFinite = false → c.ofFloat x = .null
  /-- A number that is read is finite. -/
  isFinite_of_float? : ∀ {n : Numeral} {x : Binary64}, c.float? n = some x → x.isFinite = true
  /-- A number within the range is read. -/
  isSome_float? : ∀ {n : Numeral}, n.Spelled → n.InRange → (c.float? n).isSome = true
  /-- An object is read back from its text. -/
  ofString?_render : ∀ {members : List (String × Json)}, (∀ m ∈ members, m.2.IsFlat) →
    (Json.object members).Spelled False →
    c.ofString? (c.render (.object members)) = some (.object members)
  /-- A numeral in a text has decimal digits. -/
  spelled_of_ofString? : ∀ {text : String} {j : Json}, c.ofString? text = some j → j.Spelled True

theorem point_lt_of_json (point : Int) (h : Layout.json.isPositional point = true) :
    point < Numeral.digitLimit := by
  simp [Layout.isPositional, Layout.json] at h
  rw [Numeral.digitLimit]
  omega

theorem ofFloat_shortest (x : Binary64) :
    shortest.ofFloat x = if x.isFinite then .number (x.numeral .json) else .null := rfl

theorem float?_shortest (n : Numeral) : shortest.float? n = Binary64.ofNumeral? n := by
  rw [shortest]

/-- **The text layer with shortest decimals keeps the laws.** -/
theorem faithful_shortest : shortest.Faithful where
  ofFloat_of_isFinite {x} hx := by
    rw [ofFloat_shortest, if_pos hx]
    refine ⟨_, rfl, Binary64.spelled_numeral _ hx,
      Layout.hasPoint_numeral rfl (Numeral.digitsOf_ne_nil _), ?_⟩
    rw [float?_shortest]
    exact Binary64.ofNumeral?_numeral point_lt_of_json hx
  ofFloat_of_not_isFinite hx := by
    rw [ofFloat_shortest, hx, if_neg Bool.false_ne_true]
  isFinite_of_float? {n x} h := by
    rw [float?_shortest] at h
    exact Binary64.isFinite_of_ofNumeral? h
  isSome_float? {n} hn hrange := by
    obtain ⟨x, hx, hle⟩ := hrange
    rw [float?_shortest, Binary64.isSome_ofNumeral?_iff hn.digits]
    exact hle.trans_lt (Binary64.absRat_lt hx)
  ofString?_render _ h := Json.ofString?_render h
  spelled_of_ofString? h := Json.spelled_of_ofString? h

end Json.Codec

end GraphIndex
