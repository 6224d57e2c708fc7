/-
**Decimals and double-precision numbers.**  A finite number is read back from the decimal by which it is
written, and every decimal that is not too large is read.

The decimal of a number is one that rounds to the number: either its candidate on some grid has been
tried, or it is the exact value.  Neither has more digits than a reader looks at, so the reader rounds the
very value that was written.  What a reader answers without computing, it would have computed too: too
few places make the value too small for any number but zero, and too many make it too large.

Main results:

* `Binary64.ofDecimal_eq_nearest` — reading a decimal is rounding its value;
* `Binary64.shortest_spec` — the decimal of a number rounds to the number;
* `Binary64.ofNumeral?_numeral` — **a finite number is read back from its numeral**;
* `Binary64.isSome_ofNumeral?_iff` — **what can be read**, whatever the number of digits.
-/
import GraphIndex.Binary64.Decimal
import GraphIndex.Proofs.Binary64.Nearest
import GraphIndex.Proofs.Numeral

set_option autoImplicit false

namespace GraphIndex

open Numeral (digitsOf digitLimit)

/-! ### Decimals -/

namespace Decimal

theorem places_eq (d : Decimal) : d.places = (digitsOf d.significand).length + d.exponent := by
  rw [places, digitsOf, List.length_map]

theorem toRat_lt (d : Decimal) : d.toRat < (10 : Rat) ^ d.places := by
  have hlt : (d.significand : Rat) < 10 ^ (digitsOf d.significand).length := by
    exact_mod_cast Numeral.lt_pow_length_digitsOf d.significand
  rw [places_eq, zpow_add₀ (by norm_num), zpow_natCast, toRat]
  exact mul_lt_mul_of_pos_right hlt (by positivity)

theorem le_toRat {d : Decimal} (hd : d.significand ≠ 0) : (10 : Rat) ^ (d.places - 1) ≤ d.toRat := by
  have hlen := Numeral.length_digitsOf_pos d.significand
  have hle : (10 : Rat) ^ ((digitsOf d.significand).length - 1) ≤ d.significand := by
    exact_mod_cast Numeral.pow_length_digitsOf_le hd
  have hsplit : d.places - 1 = ((digitsOf d.significand).length - 1 : Nat) + d.exponent := by
    rw [places_eq]
    omega
  rw [hsplit, zpow_add₀ (by norm_num), zpow_natCast, toRat]
  exact mul_le_mul_of_nonneg_right hle (by positivity)

/-- Zeros that move into the exponent do not change the value, and the significand gets no larger. -/
theorem trim_spec (d : Decimal) : d.trim.toRat = d.toRat ∧ d.trim.significand ≤ d.significand := by
  fun_induction trim d with
  | case1 d h ih =>
      obtain ⟨hvalue, hle⟩ := ih
      refine ⟨hvalue.trans ?_, by dsimp only at hle; omega⟩
      have hten : d.significand = 10 * (d.significand / 10) := by omega
      rw [toRat, toRat, zpow_add₀ (by norm_num), zpow_one]
      conv => rhs; rw [hten]
      push_cast
      ring
  | case2 d h => exact ⟨rfl, Nat.le_refl _⟩

end Decimal

namespace Binary64

variable {x : Binary64} {tie : Tie} {d : Decimal}

/-! ### Reading a decimal -/

theorem two_pow_le_ten_pow : 2 ^ 1075 ≤ 10 ^ 331 := by decide +kernel

theorem overflow_le_ten_pow : overflow ≤ 10 ^ 310 := by decide +kernel

theorem ten_zpow_mostZeros : (10 : Rat) ^ (-331 : Int) ≤ 2 ^ (-1075 : Int) := by
  rw [zpow_neg, zpow_neg, inv_le_inv₀ (by positivity) (by positivity)]
  exact_mod_cast two_pow_le_ten_pow

theorem overflow_le_mostPlaces : (overflow : Rat) ≤ (10 : Rat) ^ (310 : Int) := by
  exact_mod_cast overflow_le_ten_pow

/-- **Reading a decimal is rounding its value.** -/
theorem ofDecimal_eq_nearest (d : Decimal) : ofDecimal d = nearest d.toRat := by
  have hten : (1 : Rat) ≤ 10 := by norm_num
  rw [ofDecimal]
  by_cases hzero : d.significand = 0
  · rw [if_pos (.inl hzero), Decimal.toRat, hzero, Nat.cast_zero, zero_mul]
    rfl
  by_cases hsmall : d.places < -mostZeros
  · have hplaces : d.places ≤ -331 := by
      rw [mostZeros] at hsmall
      omega
    rw [if_pos (.inr hsmall), nearest_of_lt]
    exact lt_of_lt_of_le d.toRat_lt
      ((zpow_le_zpow_right₀ hten hplaces).trans ten_zpow_mostZeros)
  rw [if_neg (by simp [hzero, hsmall])]
  by_cases hlarge : mostPlaces < d.places
  · have hplaces : 310 ≤ d.places - 1 := by
      rw [mostPlaces] at hlarge
      omega
    rw [if_pos hlarge, nearest_of_overflow_le]
    exact overflow_le_mostPlaces.trans ((zpow_le_zpow_right₀ hten hplaces).trans (Decimal.le_toRat hzero))
  · rw [if_neg hlarge]

/-! ### Writing a number -/

theorem toRat_exact (x : Binary64) : x.exact.toRat = x.absRat := by
  rw [exact, absRat]
  by_cases hscale : 0 ≤ x.scale
  · obtain ⟨n, hn⟩ := Int.eq_ofNat_of_zero_le hscale
    rw [if_pos hscale, Decimal.toRat, hn, Int.toNat_natCast, Nat.pow_eq]
    push_cast
    rw [zpow_natCast, mul_one]
  · obtain ⟨n, hn⟩ := Int.eq_ofNat_of_zero_le (show 0 ≤ -x.scale by omega)
    have hscale' : x.scale = -(n : Int) := by omega
    have hsplit : (10 : Rat) ^ n = 5 ^ n * 2 ^ n := by
      rw [← mul_pow]
      norm_num
    rw [if_neg hscale, Decimal.toRat, hn, hscale', Int.toNat_natCast, Nat.pow_eq]
    push_cast
    rw [zpow_neg, zpow_neg, zpow_natCast, zpow_natCast, hsplit]
    field_simp

theorem scale_le (hx : x.isFinite = true) : x.scale ≤ 971 := by
  have hlt : x.magnitude < 2047 * exponentWeight := decide_eq_true_iff.1 hx
  have hfield : x.exponentField < 2047 := Nat.div_lt_of_lt_mul (by rwa [Nat.mul_comm])
  rw [scale]
  omega

theorem two_pow_mul_two_pow_lt : 2 ^ 53 * 2 ^ 971 < 10 ^ digitLimit := by decide +kernel

theorem two_pow_mul_five_pow_lt : 2 ^ 53 * 5 ^ 1074 < 10 ^ digitLimit := by decide +kernel

theorem mul_pow_le {a b c m n : Nat} (ha : a ≤ c) (hb : 0 < b) (hm : m ≤ n) :
    a * Nat.pow b m ≤ c * b ^ n :=
  Nat.mul_le_mul ha (Nat.pow_le_pow_right hb hm)

/-- The exact value has no more digits than a reader looks at. -/
theorem significand_exact_lt (hx : x.isFinite = true) :
    x.exact.significand < 10 ^ digitLimit := by
  have hge := scale_ge x
  have hle := scale_le hx
  have hlt : x.significand ≤ 2 ^ 53 := (significand_lt x).le
  rw [exact]
  split
  · have hscale : x.scale.toNat ≤ 971 := by omega
    exact (mul_pow_le (b := 2) hlt (by omega) hscale).trans_lt two_pow_mul_two_pow_lt
  · have hscale : (-x.scale).toNat ≤ 1074 := by omega
    exact (mul_pow_le (b := 5) hlt (by omega) hscale).trans_lt two_pow_mul_five_pow_lt

theorem natCast_length_toDigits {n : Nat} (hn : n ≠ 0) :
    (10 : Rat) ^ ((Nat.toDigits 10 n).length - 1) ≤ n ∧
      (n : Rat) < 10 ^ ((Nat.toDigits 10 n).length - 1 + 1) := by
  have hle := Numeral.pow_length_digitsOf_le hn
  have hlt := Numeral.lt_pow_length_digitsOf n
  have hlen := Numeral.length_digitsOf_pos n
  rw [digitsOf, List.length_map] at hle hlt hlen
  rw [Nat.sub_add_cancel hlen]
  exact ⟨by exact_mod_cast hle, by exact_mod_cast hlt⟩

/-- The leading power of ten. -/
theorem floorLog10_spec {r : Rat} (hr : 0 < r) :
    (10 : Rat) ^ floorLog10 r ≤ r ∧ r < (10 : Rat) ^ (floorLog10 r + 1) := by
  have hnum := List.length_pos_of_ne_nil (Nat.toDigits_ne_nil (n := r.num.toNat) (b := 10))
  have hden := List.length_pos_of_ne_nil (Nat.toDigits_ne_nil (n := r.den) (b := 10))
  refine leading_power (by norm_num) hr (natCast_length_toDigits (toNat_num_ne_zero hr))
    (natCast_length_toDigits r.den_nz) _ ?_
  dsimp only
  omega

/-- A neighbour reads back as the number, and is known up to one unit of its grid. -/
theorem neighbour?_spec {k : Int} (h : x.neighbour? tie k = some d) :
    x.readsBack d = true ∧
      d.significand ≤ (x.absRat / (10 : Rat) ^ k).floor.toNat + 1 := by
  rw [neighbour?] at h
  dsimp only at h
  split at h
  · next hbelow habove =>
      obtain rfl := Option.some_inj.1 h
      split
      · exact ⟨hbelow, Nat.le_succ _⟩
      · exact ⟨habove, Nat.le_refl _⟩
  · next hbelow habove =>
      obtain rfl := Option.some_inj.1 h
      exact ⟨hbelow, Nat.le_succ _⟩
  · next hbelow habove =>
      obtain rfl := Option.some_inj.1 h
      exact ⟨habove, Nat.le_refl _⟩
  · cases h

/-- On the grid of the `n`-th digit after the first one, a neighbour has few digits. -/
theorem significand_neighbour?_le {n : Nat} (hx : x.magnitude ≠ 0)
    (h : x.neighbour? tie (floorLog10 x.absRat - n) = some d) : d.significand ≤ 10 ^ (n + 1) := by
  have hten : (10 : Rat) ≠ 0 := by norm_num
  obtain ⟨-, hle⟩ := neighbour?_spec h
  obtain ⟨-, hlt⟩ := floorLog10_spec (absRat_pos hx)
  have hpos : (0 : Rat) < 10 ^ (floorLog10 x.absRat - n) := by positivity
  have hquotient : x.absRat / 10 ^ (floorLog10 x.absRat - n) < (10 ^ (n + 1) : Nat) := by
    have hexponent : ((n + 1 : Nat) : Int) + (floorLog10 x.absRat - n) = floorLog10 x.absRat + 1 := by
      omega
    rwa [div_lt_iff₀ hpos, Nat.cast_pow, ← zpow_natCast, Nat.cast_ofNat, ← zpow_add₀ hten,
      hexponent]
  have hfloor := lt_of_le_of_lt
    (floor_toNat_le (div_nonneg (absRat_nonneg x) hpos.le)) hquotient
  have hfloor' : (x.absRat / 10 ^ (floorLog10 x.absRat - n)).floor.toNat < 10 ^ (n + 1) := by
    exact_mod_cast hfloor
  exact hle.trans hfloor'

/-- **The decimal of a number rounds to the number**, and has no more digits than a reader looks at. -/
theorem shortest_spec (hx : x.isFinite = true) (tie : Tie) :
    (nearest (x.shortest tie).toRat).magnitude = x.magnitude ∧
      (x.shortest tie).significand < 10 ^ digitLimit := by
  rw [shortest]
  by_cases hzero : x.magnitude = 0
  · rw [isZero, decide_eq_true hzero, if_pos rfl]
    refine ⟨?_, Nat.pow_pos (by omega)⟩
    rw [Decimal.toRat, Nat.cast_zero, zero_mul, hzero]
    rfl
  · rw [isZero, decide_eq_false hzero, if_neg (by simp)]
    dsimp only
    obtain ⟨hvalue, hle⟩ := Decimal.trim_spec
      (((List.range 17).findSome? fun n : Nat =>
        x.neighbour? tie (floorLog10 x.absRat - n)).getD x.exact)
    rw [hvalue]
    -- either some grid had a neighbour that reads back, or the exact value is written
    cases hfind : (List.range 17).findSome? fun n : Nat =>
        x.neighbour? tie (floorLog10 x.absRat - n) with
    | none =>
        rw [hfind, Option.getD_none] at hle
        rw [Option.getD_none, toRat_exact, nearest_absRat hx, magnitude_ofMagnitude _ (magnitude_lt x)]
        exact ⟨rfl, Nat.lt_of_le_of_lt hle (significand_exact_lt hx)⟩
    | some d =>
        rw [hfind, Option.getD_some] at hle
        obtain ⟨n, hn, hd⟩ := List.exists_of_findSome?_eq_some hfind
        obtain ⟨hback, -⟩ := neighbour?_spec hd
        have hfew : n + 1 < digitLimit := by
          have hlt := List.mem_range.1 hn
          rw [digitLimit]
          omega
        have hpow : 10 ^ (n + 1) < 10 ^ digitLimit := Nat.pow_lt_pow_right (by omega) hfew
        have hdigits := significand_neighbour?_le hzero hd
        exact ⟨decide_eq_true_iff.1 hback, Nat.lt_of_le_of_lt (hle.trans hdigits) hpow⟩

/-! ### Numerals -/

/-- Reading a numeral is rounding the value of the digits that are looked at. -/
theorem ofNumeral?_eq (n : Numeral) {r : Rat}
    (hr : (n.scaled.1 : Rat) * (10 : Rat) ^ n.scaled.2 = r) :
    ofNumeral? n = if (nearest r).isFinite = true then
      some (ofMagnitude n.negative (nearest r).magnitude) else none := by
  have hdecimal : ofDecimal ⟨n.scaled.1, n.scaled.2⟩ = nearest r := by
    rw [ofDecimal_eq_nearest, Decimal.toRat, hr]
  have hpositive := isNegative_nearest r
  have heta := ofMagnitude_eta (nearest r)
  have hsign : (if n.negative = true then (nearest r).neg else nearest r) =
      ofMagnitude n.negative (nearest r).magnitude := by
    rw [neg, hpositive]
    rw [hpositive] at heta
    cases n.negative with
    | false => exact (if_neg Bool.false_ne_true).trans heta.symm
    | true => exact if_pos rfl
  rw [ofNumeral?]
  simp only [hdecimal, hsign]

/-- A finite number does not round beyond the finite numbers. -/
theorem absRat_lt (hx : x.isFinite = true) : x.absRat < overflow := by
  rw [← isFinite_nearest_iff (absRat_nonneg x), nearest_absRat hx, isFinite,
    magnitude_ofMagnitude _ (magnitude_lt x)]
  exact hx

theorem isFinite_of_ofNumeral? {n : Numeral} (h : ofNumeral? n = some x) : x.isFinite = true := by
  rw [ofNumeral?_eq n rfl] at h
  obtain ⟨hfinite, hx⟩ := Option.ite_none_right_eq_some.1 h
  obtain rfl := Option.some_inj.1 hx
  rw [isFinite, magnitude_ofMagnitude _ (magnitude_lt _)]
  exact hfinite

/-- The numeral of a number has the value of its decimal. -/
theorem absRat_numeral (l : Layout) (x : Binary64) :
    (x.numeral l).absRat = (x.shortest l.tie).toRat := by
  rw [numeral, Layout.absRat_numeral _ _ (Numeral.digitsOf_ne_nil _), Numeral.ofDigits_digitsOf,
    Decimal.toRat]
  by_cases hzero : x.isZero = true
  · rw [shortest, if_pos hzero, Nat.cast_zero, zero_mul, zero_mul]
  · rw [if_neg hzero, add_sub_cancel_left]

/-- **The numeral of a finite number can be written.** -/
theorem spelled_numeral (l : Layout) (hx : x.isFinite = true) : (x.numeral l).Spelled := by
  refine Layout.spelled_numeral _ _ (Numeral.digitsOf_ne_nil _) (fun d hd => Numeral.digitsOf_lt hd)
    fun hhead => ?_
  by_cases hzero : x.isZero = true
  · rw [if_pos hzero, shortest, if_pos hzero]
    exact ⟨rfl, Int.le_refl _⟩
  · have hne : (x.shortest l.tie).significand ≠ 0 := by
      intro hsignificand
      obtain ⟨hmagnitude, -⟩ := shortest_spec hx l.tie
      rw [Decimal.toRat, hsignificand, Nat.cast_zero, zero_mul] at hmagnitude
      exact hzero (decide_eq_true hmagnitude.symm)
    exact absurd hhead (Numeral.head?_digitsOf hne)

/-- **A finite number is read back from its numeral**, in every layout that does not put the point
further to the right than a reader looks. -/
theorem ofNumeral?_numeral {l : Layout}
    (hl : ∀ point, l.isPositional point = true → point < digitLimit) (hx : x.isFinite = true) :
    ofNumeral? (x.numeral l) = some x := by
  obtain ⟨hmagnitude, hfew⟩ := shortest_spec hx l.tie
  have hdigits : (x.numeral l).significantDigits.length ≤ digitLimit := by
    refine Numeral.length_significantDigits_le ?_
    refine Layout.ofDigits_numeral_lt l x.isNegative ?_ (Numeral.digitsOf_ne_nil _) _
      (fun d hd => Numeral.digitsOf_lt hd) (hl _)
    rwa [Numeral.ofDigits_digitsOf]
  have hnegative : (x.numeral l).negative = x.isNegative := Layout.negative_numeral _ _ _ _
  rw [ofNumeral?_eq _ ((Numeral.scaled_eq_absRat hdigits).trans (absRat_numeral l x)), isFinite,
    hmagnitude, hnegative, ofMagnitude_eta]
  exact if_pos hx

theorem overflow_lt_ten_pow : overflow < 10 ^ (digitLimit - 1) := by decide +kernel

/-- **What can be read**: every numeral whose value does not round beyond the finite numbers. -/
theorem isSome_ofNumeral?_iff {n : Numeral} (hn : ∀ d ∈ n.whole ++ n.fraction, d < 10) :
    (ofNumeral? n).isSome = true ↔ n.absRat < overflow := by
  have hnonneg : (0 : Rat) ≤ n.scaled.1 * (10 : Rat) ^ n.scaled.2 := by positivity
  rw [ofNumeral?_eq n rfl, ← Numeral.scaled_lt_natCast_iff hn overflow_lt_ten_pow,
    ← isFinite_nearest_iff hnonneg]
  split
  · next h => exact iff_of_true rfl h
  · next h => exact iff_of_false nofun h

end Binary64

end GraphIndex
