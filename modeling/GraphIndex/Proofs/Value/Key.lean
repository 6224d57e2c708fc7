/-
**Values and their keys.**  Two values have one key exactly if they are equal or both are a NaN.

Equality of values is the equality of the IEEE standard where they are numbers, and fails to be reflexive
there: a NaN is not equal to itself.  A key is compared bit by bit.  So the bits of a key are those of a
chosen number for each class of numbers, and this number is equal to the others of its class unless they
are NaNs.  Everything about equality follows from keys: values are equal if they have the same key and are
no NaN.

Main definitions:

* `Binary64.keyed` — the number that stands for the others of its class;
* `Value.isNaN` — the value is a number that is none.

Main results:

* `Binary64.ieeeEq_iff_toRat` — finite numbers are equal if their exact values are;
* `Value.equal_iff` — **values are equal if they have one key and are no NaN**;
* `Value.equal_self_iff`, `Value.equal_symm`, `Value.equal_trans` — what kind of equality this is;
* `ValueKey.key_eq_iff_equal` — keys against values, in both directions.
-/
import GraphIndex.Proofs.Binary64.Nearest
import GraphIndex.Value.Basic

set_option autoImplicit false

namespace GraphIndex

/-! ### Numbers -/

namespace Binary64

variable {x y : Binary64}

/-- The number that stands for a number in its key. -/
def keyed (x : Binary64) : Binary64 :=
  ⟨x.keyBits⟩

theorem isNaN_eq_false_of_isZero (h : x.isZero = true) : x.isNaN = false := by
  rw [isZero, decide_eq_true_iff] at h
  rw [isNaN, h]
  rfl

theorem isZero_eq_false_of_isNaN (h : x.isNaN = true) : x.isZero = false := by
  cases hzero : x.isZero with
  | false => rfl
  | true =>
      rw [isNaN_eq_false_of_isZero hzero] at h
      cases h

theorem keyed_of_isNaN (h : x.isNaN = true) : x.keyed = quietNaN := by
  rw [keyed, keyBits, if_pos h]

theorem keyed_of_isZero (h : x.isZero = true) : x.keyed = zero := by
  rw [keyed, keyBits, isNaN_eq_false_of_isZero h, if_neg Bool.false_ne_true, if_pos h]

/-- Most numbers stand for themselves. -/
theorem keyed_of_other (h : x.isNaN = false) (h' : x.isZero = false) : x.keyed = x := by
  rw [keyed, keyBits, h, h', if_neg Bool.false_ne_true, if_neg Bool.false_ne_true]

/-- What stands for a number is the quiet NaN, the zero without a sign, or the number itself. -/
theorem keyed_cases (x : Binary64) :
    (x.isNaN = true ∧ x.keyed = quietNaN) ∨ (x.isZero = true ∧ x.keyed = zero) ∨ x.keyed = x := by
  cases hnan : x.isNaN with
  | true => exact .inl ⟨rfl, keyed_of_isNaN hnan⟩
  | false =>
      cases hzero : x.isZero with
      | true => exact .inr (.inl ⟨rfl, keyed_of_isZero hzero⟩)
      | false => exact .inr (.inr (keyed_of_other hnan hzero))

theorem isNaN_keyed (x : Binary64) : x.keyed.isNaN = x.isNaN := by
  rcases x.keyed_cases with ⟨hnan, hkeyed⟩ | ⟨hzero, hkeyed⟩ | hkeyed
  · rw [hkeyed, hnan]
    rfl
  · rw [hkeyed, isNaN_eq_false_of_isZero hzero]
    rfl
  · rw [hkeyed]

theorem isZero_keyed (x : Binary64) : x.keyed.isZero = x.isZero := by
  rcases x.keyed_cases with ⟨hnan, hkeyed⟩ | ⟨hzero, hkeyed⟩ | hkeyed
  · rw [hkeyed, isZero_eq_false_of_isNaN hnan]
    rfl
  · rw [hkeyed, hzero]
    rfl
  · rw [hkeyed]

/-- A number that stands for others stands for itself. -/
theorem keyed_keyed (x : Binary64) : x.keyed.keyed = x.keyed := by
  rcases x.keyed_cases with ⟨-, hkeyed⟩ | ⟨-, hkeyed⟩ | hkeyed
  · rw [hkeyed]
    rfl
  · rw [hkeyed]
    rfl
  · rw [hkeyed, hkeyed]

/-- **Numbers are equal if one number stands for both and they are no NaN.** -/
theorem ieeeEq_iff : x.ieeeEq y = true ↔ x.keyed = y.keyed ∧ x.isNaN = false := by
  simp only [ieeeEq, Bool.and_eq_true, Bool.not_eq_true', Bool.or_eq_true, beq_iff_eq]
  constructor
  · rintro ⟨⟨hx, hy⟩, hbits | ⟨hzero, hzero'⟩⟩
    · have hxy : x = y := congrArg Binary64.mk hbits
      exact ⟨congrArg keyed hxy, hx⟩
    · exact ⟨(keyed_of_isZero hzero).trans (keyed_of_isZero hzero').symm, hx⟩
  · rintro ⟨hkeyed, hx⟩
    have hy : y.isNaN = false := by rw [← isNaN_keyed, ← hkeyed, isNaN_keyed, hx]
    have hzeros : x.isZero = y.isZero := by rw [← isZero_keyed, hkeyed, isZero_keyed]
    refine ⟨⟨hx, hy⟩, ?_⟩
    cases hzero : x.isZero with
    | true => exact .inr ⟨rfl, by rw [← hzeros, hzero]⟩
    | false =>
        rw [keyed_of_other hx hzero, keyed_of_other hy (by rw [← hzeros, hzero])] at hkeyed
        exact .inl (congrArg bits hkeyed)

/-! ### Equality and exact values -/

theorem isNaN_eq_false_of_isFinite (h : x.isFinite = true) : x.isNaN = false := by
  rw [isFinite, decide_eq_true_iff] at h
  rw [isNaN, decide_eq_false_iff_not]
  omega

theorem absRat_eq_zero_iff : x.absRat = 0 ↔ x.isZero = true := by
  rw [isZero, decide_eq_true_iff]
  constructor
  · intro h
    by_contra hne
    exact (absRat_pos hne).ne' h
  · intro h
    rw [absRat, significand_eq_zero_iff.2 h, Nat.cast_zero, zero_mul]

theorem toRat_eq_zero_of_isZero (h : x.isZero = true) : x.toRat = 0 := by
  rw [toRat, absRat_eq_zero_iff.2 h, neg_zero, ite_self]

/-- No two finite magnitudes have one value. -/
theorem magnitude_eq_of_absRat (hx : x.isFinite = true) (hy : y.isFinite = true)
    (h : x.absRat = y.absRat) : x.magnitude = y.magnitude := by
  have hnearest := congrArg nearest h
  rw [nearest_absRat hx, nearest_absRat hy] at hnearest
  have hmagnitude := congrArg magnitude hnearest
  rwa [magnitude_ofMagnitude _ x.magnitude_lt, magnitude_ofMagnitude _ y.magnitude_lt] at hmagnitude

/-- **Finite numbers are equal if their exact values are.** -/
theorem ieeeEq_iff_toRat (hx : x.isFinite = true) (hy : y.isFinite = true) :
    x.ieeeEq y = true ↔ x.toRat = y.toRat := by
  have hnan := isNaN_eq_false_of_isFinite hx
  have hnan' := isNaN_eq_false_of_isFinite hy
  simp only [ieeeEq, hnan, hnan', Bool.not_false, Bool.true_and, Bool.or_eq_true, beq_iff_eq,
    Bool.and_eq_true]
  constructor
  · rintro (hbits | ⟨hzero, hzero'⟩)
    · exact congrArg toRat (congrArg Binary64.mk hbits : x = y)
    · rw [toRat_eq_zero_of_isZero hzero, toRat_eq_zero_of_isZero hzero']
  · intro h
    have hnonneg := x.absRat_nonneg
    have hnonneg' := y.absRat_nonneg
    rw [toRat, toRat] at h
    by_cases hsign : x.isNegative = y.isNegative
    · -- numbers of one sign have one magnitude
      have habs : x.absRat = y.absRat := by
        rw [hsign] at h
        cases hy : y.isNegative with
        | true => simpa [hy] using h
        | false => simpa [hy] using h
      have hxy : x = y := by
        rw [← ofMagnitude_eta x, hsign, magnitude_eq_of_absRat hx hy habs, ofMagnitude_eta]
      exact .inl (congrArg bits hxy)
    · -- only zeros are equal to numbers of the other sign
      have habs : x.absRat = 0 ∧ y.absRat = 0 := by
        cases hx : x.isNegative with
        | true =>
            have hy : y.isNegative = false := by simpa [hx] using hsign
            rw [hx, hy, if_pos rfl, if_neg Bool.false_ne_true] at h
            exact ⟨by linarith, by linarith⟩
        | false =>
            have hy : y.isNegative = true := by simpa [hx] using hsign
            rw [hx, hy, if_pos rfl, if_neg Bool.false_ne_true] at h
            exact ⟨by linarith, by linarith⟩
      exact .inr ⟨absRat_eq_zero_iff.1 habs.1, absRat_eq_zero_iff.1 habs.2⟩

end Binary64

/-! ### Equality of values -/

namespace Value

open ValueKey (ofValue?)

variable {v w u : Value}

/-- The value is a number that is none. -/
def isNaN : Value → Bool
  | float x => x.isNaN
  | _ => false

/-- **Values are equal if they have one key and are no NaN.** -/
theorem equal_iff : v.equal w = true ↔ ofValue? v = ofValue? w ∧ v.isNaN = false := by
  cases v <;> cases w
  case float.float x y =>
    rw [equal, Binary64.ieeeEq_iff, Binary64.keyed, Binary64.keyed, Binary64.mk.injEq, ofValue?,
      ofValue?, Option.some_inj, ValueKey.float.injEq, isNaN]
  all_goals simp [equal, ofValue?, isNaN]

/-- Values with one key are NaNs together. -/
theorem isNaN_eq_of_key (h : ofValue? v = ofValue? w) : v.isNaN = w.isNaN := by
  cases v <;> cases w
  case float.float x y =>
    have hkeyed : x.keyed = y.keyed := congrArg Binary64.mk (ValueKey.float.inj (Option.some_inj.1 h))
    rw [isNaN, isNaN, ← Binary64.isNaN_keyed, hkeyed, Binary64.isNaN_keyed]
  all_goals simp [ofValue?, isNaN] at h ⊢

/-- A value is equal to itself unless it is a NaN. -/
theorem equal_self_iff : v.equal v = true ↔ v.isNaN = false := by
  rw [equal_iff]
  exact ⟨And.right, fun h => ⟨rfl, h⟩⟩

theorem equal_symm (h : v.equal w = true) : w.equal v = true := by
  obtain ⟨hkey, hnan⟩ := equal_iff.1 h
  exact equal_iff.2 ⟨hkey.symm, by rw [← isNaN_eq_of_key hkey, hnan]⟩

theorem equal_trans (h : v.equal w = true) (h' : w.equal u = true) : v.equal u = true := by
  obtain ⟨hkey, hnan⟩ := equal_iff.1 h
  obtain ⟨hkey', -⟩ := equal_iff.1 h'
  exact equal_iff.2 ⟨hkey.trans hkey', hnan⟩

end Value

/-! ### Keys -/

namespace ValueKey

variable {v : Value} {k : ValueKey}

theorem ofValue?_eq_none_iff : ofValue? v = none ↔ v = .null := by
  cases v <;> simp [ofValue?]

/-- **A key is the key of the value that it stands for.** -/
theorem ofValue?_toValue (h : ofValue? v = some k) : ofValue? k.toValue = some k := by
  cases v with
  | null => cases h
  | float x =>
      obtain rfl := Option.some_inj.1 h
      exact congrArg (fun y => some (float y.bits)) x.keyed_keyed
  | _ =>
      obtain rfl := Option.some_inj.1 h
      rfl

/-- **A value is equal to the one that its key stands for**, unless it is a NaN. -/
theorem equal_toValue_iff (h : ofValue? v = some k) :
    k.toValue.equal v = true ↔ v.isNaN = false := by
  have hkey : ofValue? k.toValue = ofValue? v := (ofValue?_toValue h).trans h.symm
  rw [Value.equal_iff, Value.isNaN_eq_of_key hkey]
  exact ⟨And.right, fun hnan => ⟨hkey, hnan⟩⟩

/-- **Two values have one key exactly if they are equal or both are a NaN.**  So all NaNs have one key,
finite numbers have one if their exact values are the same, and values of different kinds never have one.
A value is equal to the one that its key stands for exactly if it is neither a null nor a NaN, and each
key that a value has is the key of the value that it stands for. -/
theorem key_eq_iff_equal :
    (∀ v w, ofValue? v = ofValue? w ↔ v.equal w = true ∨ (v.isNaN = true ∧ w.isNaN = true)) ∧
    (∀ x y : Binary64, x.isNaN = true → y.isNaN = true →
      ofValue? (.float x) = ofValue? (.float y)) ∧
    (∀ x y : Binary64, x.isFinite = true → y.isFinite = true →
      (ofValue? (.float x) = ofValue? (.float y) ↔ x.toRat = y.toRat)) ∧
    (∀ v w, ofValue? v = ofValue? w → v.ctorIdx = w.ctorIdx) ∧
    (∀ v, (∃ k, ofValue? v = some k ∧ k.toValue.equal v = true) ↔ v ≠ .null ∧ v.isNaN = false) ∧
    ∀ v k, ofValue? v = some k → ofValue? k.toValue = some k := by
  have hnans : ∀ x y : Binary64, x.isNaN = true → y.isNaN = true →
      ofValue? (.float x) = ofValue? (.float y) := by
    intro x y hx hy
    rw [ofValue?, ofValue?, Binary64.keyBits, Binary64.keyBits, if_pos hx, if_pos hy]
  refine ⟨fun v w => ⟨fun h => ?_, ?_⟩, hnans, fun x y hx hy => ?_, fun v w h => ?_, fun v => ?_,
    fun v k => ofValue?_toValue⟩
  · cases hnan : v.isNaN with
    | false => exact .inl (Value.equal_iff.2 ⟨h, hnan⟩)
    | true => exact .inr ⟨rfl, by rw [← Value.isNaN_eq_of_key h, hnan]⟩
  · rintro (hequal | ⟨hv, hw⟩)
    · exact (Value.equal_iff.1 hequal).1
    · cases v <;> cases w
      case float.float x y => exact hnans x y hv hw
      all_goals simp [Value.isNaN] at hv hw
  · have hnan : (Value.float x).isNaN = false := Binary64.isNaN_eq_false_of_isFinite hx
    have hequal : (Value.float x).equal (.float y) = true ↔ x.toRat = y.toRat :=
      Binary64.ieeeEq_iff_toRat hx hy
    rw [← hequal, Value.equal_iff]
    exact ⟨fun h => ⟨h, hnan⟩, And.left⟩
  · cases v <;> cases w <;> simp [ofValue?, Value.ctorIdx] at h ⊢
  · constructor
    · rintro ⟨k, hk, hequal⟩
      refine ⟨fun hnull => ?_, (equal_toValue_iff hk).1 hequal⟩
      rw [ofValue?_eq_none_iff.2 hnull] at hk
      cases hk
    · rintro ⟨hnull, hnan⟩
      obtain ⟨k, hk⟩ := Option.ne_none_iff_exists'.1 (mt ofValue?_eq_none_iff.1 hnull)
      exact ⟨k, hk, (equal_toValue_iff hk).2 hnan⟩

/-- A NaN with a sign and a payload has the key of the quiet one, the two zeros have one key, and the
integer one has another key than the number one. -/
theorem key_eq_iff_equal_of_numbers :
    let nan : Binary64 := ⟨0xfff0000000000001⟩
    let one := Binary64.nearest 1
    nan.isNaN = true ∧ nan ≠ .quietNaN ∧
    ofValue? (.float nan) = ofValue? (.float .quietNaN) ∧
    (Value.float nan).equal (.float .quietNaN) = false ∧
    Binary64.zero.neg ≠ .zero ∧ ofValue? (.float Binary64.zero.neg) = ofValue? (.float .zero) ∧
    ofValue? (.int 1) ≠ ofValue? (.float one) ∧
    ∃ k, ofValue? (.float Binary64.zero.neg) = some k ∧
      k.toValue.equal (.float Binary64.zero.neg) = true ∧ ofValue? k.toValue = some k := by
  intro nan one
  have hnan : nan.isNaN = true := by decide
  have hequal : (Value.float nan).equal (.float .quietNaN) = false := by decide
  have hrat : Binary64.zero.neg.toRat = Binary64.zero.toRat := by decide +kernel
  obtain ⟨-, hnans, hfinite, hkinds, hback, hkeys⟩ := key_eq_iff_equal
  have hzero := (hfinite Binary64.zero.neg .zero (by decide) (by decide)).2 hrat
  obtain ⟨k, hk, hself⟩ := (hback (.float Binary64.zero.neg)).2 ⟨by decide, by decide⟩
  exact ⟨hnan, by decide, hnans nan .quietNaN hnan (by decide), hequal, by decide, hzero,
    fun h => absurd (hkinds _ _ h) (by decide), k, hk, hself, hkeys _ k hk⟩

end ValueKey

end GraphIndex
