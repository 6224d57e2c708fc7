/-
**Values in documents.**  A value is read back from its document, and a document is read if it is one of
a value.

The documents of different kinds of values do not look alike, but two kinds share the numbers and one
more shares the arrays.  An integer is written without point and exponent and always fits, so it is
read as an integer; a double-precision number is written with a point or an exponent and is not.  Only
a NaN and the infinities are lost: they become `null`.

Main definitions:

* `Value.written` — what is left of a value when it has been written;
* `Json.IsValue` — the documents of values;
* `Json.Codec.Reads` — the numbers that are values.

Main results:

* `Value.ofJson?_toJson` — **a value is read back from its document**;
* `Value.isSome_ofJson?_iff` — **which documents are read**;
* `Json.IsValue.reads` — numbers within the range of double precision are among them;
* `Value.written_of_ofJson?` — nothing is lost of a value that was read.
-/
import GraphIndex.Proofs.Json.Codec
import GraphIndex.Value.Json

set_option autoImplicit false

namespace GraphIndex

/-! ### Integers -/

theorem int64OfInt?_toInt (n : Int64) : int64OfInt? n.toInt = some n := by
  have hle : Int64.minValue.toInt ≤ n.toInt ∧ n.toInt ≤ Int64.maxValue.toInt :=
    ⟨n.minValue_le_toInt, n.toInt_le⟩
  rw [int64OfInt?, if_pos hle, Int64.ofInt_toInt]

theorem int64OfInt?_eq_some_iff {i : Int} {n : Int64} :
    int64OfInt? i = some n ↔ i = n.toInt := by
  refine ⟨fun h => ?_, fun h => h ▸ int64OfInt?_toInt n⟩
  obtain ⟨⟨hmin, hmax⟩, heq⟩ := Option.ite_none_right_eq_some.1 h
  obtain rfl := Option.some_inj.1 heq
  rw [Int64.toInt_minValue] at hmin
  rw [Int64.toInt_maxValue] at hmax
  exact (Int64.toInt_ofInt_of_le hmin (by omega)).symm

theorem byteOfInt?_toNat (b : UInt8) : byteOfInt? b.toNat = some b := by
  have hle : (0 : Int) ≤ b.toNat ∧ (b.toNat : Int) < UInt8.size := by
    have hlt := b.toNat_lt_size
    omega
  rw [byteOfInt?, if_pos hle, Int.toNat_natCast, UInt8.ofNat_toNat]

theorem byteOfInt?_eq_some_iff {i : Int} {b : UInt8} : byteOfInt? i = some b ↔ i = b.toNat := by
  refine ⟨fun h => ?_, fun h => h ▸ byteOfInt?_toNat b⟩
  obtain ⟨⟨hnonneg, hlt⟩, heq⟩ := Option.ite_none_right_eq_some.1 h
  obtain rfl := Option.some_inj.1 heq
  rw [UInt8.toNat_ofNat_of_lt' (by omega)]
  omega

/-! ### Documents of values -/

/-- The document is one of a value, given which numbers are values: an array holds bytes, and there are
no objects. -/
def Json.IsValue (isNumber : Numeral → Prop) : Json → Prop
  | .null => True
  | .bool _ => True
  | .number n => isNumber n
  | .text _ => True
  | .array items => ∀ item ∈ items, ∃ b : UInt8, item.integer? = some (b.toNat : Int)
  | .object _ => False
  | .garbled => False

/-- The numeral is one of an integer of 64 bits, or is read as a double-precision number. -/
def Json.Codec.Reads (c : Codec) (n : Numeral) : Prop :=
  (∃ k : Int64, n.integer? = some k.toInt) ∨ (c.float? n).isSome = true

variable {c : Json.Codec}

/-- **Numbers within the range of double precision are read.** -/
theorem Json.IsValue.reads (hc : c.Faithful) {j : Json} (hj : j.Spelled True)
    (h : j.IsValue Numeral.InRange) : j.IsValue c.Reads := by
  cases hj with
  | number hn => exact .inr (hc.isSome_float? hn h)
  | _ => exact h

namespace Value

/-- What is left of a value when it has been written. -/
def written : Value → Value
  | float x => if x.isFinite then float x else null
  | v => v

/-- The document of a value has numbers that can be written, and no depth. -/
theorem spelled_toJson (hc : c.Faithful) (v : Value) :
    (v.toJson c).Spelled False ∧ (v.toJson c).IsFlat := by
  cases v with
  | null => exact ⟨.null, trivial⟩
  | bool b => exact ⟨.bool b, trivial⟩
  | int n => exact ⟨.number (Numeral.spelled_ofInt _), trivial⟩
  | float x =>
      rw [toJson]
      cases hx : x.isFinite with
      | true =>
          obtain ⟨n, hn, hspelled, -⟩ := hc.ofFloat_of_isFinite hx
          rw [hn]
          exact ⟨.number hspelled, trivial⟩
      | false =>
          rw [hc.ofFloat_of_not_isFinite hx]
          exact ⟨.null, trivial⟩
  | string s => exact ⟨.text s, trivial⟩
  | bytes bs =>
      rw [toJson]
      constructor
      · refine .array fun j hj => ?_
        obtain ⟨b, -, rfl⟩ := List.mem_map.1 hj
        exact .number (Numeral.spelled_ofInt _)
      · intro j hj
        obtain ⟨b, -, rfl⟩ := List.mem_map.1 hj
        exact trivial

/-- **A value is read back from its document.** -/
theorem ofJson?_toJson (hc : c.Faithful) (v : Value) : ofJson? c (v.toJson c) = some v.written := by
  cases v with
  | null => rfl
  | bool b => rfl
  | int n =>
      rw [toJson, Json.ofInt, ofJson?, ofNumeral?, Numeral.integer?_ofInt, Option.bind_some,
        int64OfInt?_toInt]
      rfl
  | float x =>
      rw [toJson, written]
      cases hx : x.isFinite with
      | true =>
          -- with a point or an exponent it is no integer
          obtain ⟨n, hn, -, hpoint, hread⟩ := hc.ofFloat_of_isFinite hx
          rw [hn, ofJson?, ofNumeral?, hpoint.integer?_eq_none, hread]
          rfl
      | false =>
          rw [hc.ofFloat_of_not_isFinite hx]
          rfl
  | string s => rfl
  | bytes bs =>
      -- an array is read as bytes only, so each item has to be one
      have hitems : (bs.map fun b => Json.ofNat b.toNat).mapM (fun (item : Json) =>
          item.integer?.bind byteOfInt?) = some bs := by
        rw [mapM_eq_some_iff, List.forall₂_map_left_iff, List.forall₂_same]
        intro b _
        rw [Json.ofNat, Json.ofInt, Json.integer?, Numeral.integer?_ofInt, Option.bind_some,
          byteOfInt?_toNat]
      rw [toJson, ofJson?, hitems]
      rfl

theorem isSome_ofNumeral?_iff {n : Numeral} : (ofNumeral? c n).isSome = true ↔ c.Reads n := by
  rw [ofNumeral?, Json.Codec.Reads]
  cases hn : n.integer?.bind int64OfInt? with
  | some k =>
      obtain ⟨i, hi, hik⟩ := Option.bind_eq_some_iff.1 hn
      exact iff_of_true rfl (.inl ⟨k, by rw [hi, int64OfInt?_eq_some_iff.1 hik]⟩)
  | none =>
      dsimp only
      rw [Option.isSome_map]
      refine ⟨.inr, fun h => h.resolve_left ?_⟩
      rintro ⟨k, hk⟩
      rw [hk, Option.bind_some, int64OfInt?_toInt] at hn
      cases hn

/-- **Which documents are read.** -/
theorem isSome_ofJson?_iff {j : Json} : (ofJson? c j).isSome = true ↔ j.IsValue c.Reads := by
  cases j with
  | number n => exact isSome_ofNumeral?_iff
  | array items =>
      rw [ofJson?, Option.isSome_map, isSome_mapM_iff, Json.IsValue]
      refine forall₂_congr fun item _ => ?_
      simp only [Option.isSome_iff_exists, Option.bind_eq_some_iff, byteOfInt?_eq_some_iff,
        exists_eq_right]
  | object members => exact iff_of_false (by simp [ofJson?]) id
  | garbled => exact iff_of_false (by simp [ofJson?]) id
  | _ => exact iff_of_true rfl trivial

/-- **Nothing is lost of a value that was read.** -/
theorem written_of_ofJson? (hc : c.Faithful) {j : Json} {v : Value} (h : ofJson? c j = some v) :
    v.written = v := by
  cases v with
  | float x =>
      have hx : x.isFinite = true := by
        cases j with
        | number n =>
            rw [ofJson?, ofNumeral?] at h
            split at h
            · cases h
            · obtain ⟨y, hy, heq⟩ := Option.map_eq_some_iff.1 h
              obtain rfl := Value.float.inj heq
              exact hc.isFinite_of_float? hy
        | array items =>
            obtain ⟨bs, -, heq⟩ := Option.map_eq_some_iff.1 h
            cases heq
        | _ => cases h
      exact if_pos hx
  | _ => rfl

end Value

end GraphIndex
