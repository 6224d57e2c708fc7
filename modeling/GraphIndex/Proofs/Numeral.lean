/-
**What numerals stand for.**  The value of a numeral, and what writing and reading keep of it.

The digits of a numeral, those before and those after the point, form one integer, and the exponent
says by which power of ten it is scaled.  A layout only moves the point, so every numeral that it
makes of some digits has the value of these digits.  Reading drops zeros in front and at the end of
the fraction, which change nothing, and looks at the first digits only.  The digits that it does not
look at move the number by less than one unit of the last digit that it does look at; so a bound that
is a multiple of this unit is passed by both numbers or by none.

Main definitions:

* `Numeral.Spelled`, `Numeral.HasPoint` — a numeral that can be written, and one with a point or an
  exponent;
* `Numeral.absRat` — the value of a numeral without its sign.

Main results:

* `Numeral.ofDigits_digitsOf` — the digits of a number form the number;
* `Numeral.integer?_ofInt` — the numeral of an integer stands for the integer;
* `Layout.absRat_numeral`, `Layout.spelled_numeral` — a layout keeps the value of the digits, and what
  it makes can be written;
* `Numeral.scaled_eq_absRat` — **reading keeps the value** as long as all digits are looked at;
* `Numeral.scaled_lt_iff` — what is not looked at does not carry a number over a bound.
-/
import GraphIndex.Numeral
import Mathlib.Algebra.Order.Field.Power
import Mathlib.Data.Rat.Cast.Order
import Mathlib.Tactic.FieldSimp
import Mathlib.Tactic.Linarith
import Mathlib.Tactic.Positivity
import Mathlib.Tactic.Ring

set_option autoImplicit false

namespace GraphIndex

/-! ### Digits -/

section Digits

variable {ds es : List Nat} {d k : Nat}

theorem foldl_digits (ds : List Nat) (n : Nat) :
    ds.foldl (fun n d => 10 * n + d) n = n * 10 ^ ds.length + ofDigits ds := by
  induction ds generalizing n with
  | nil => simp [ofDigits]
  | cons d ds ih =>
      rw [ofDigits, List.foldl_cons, List.foldl_cons, ih, ih (10 * 0 + d), List.length_cons]
      ring

@[simp] theorem ofDigits_nil : ofDigits [] = 0 := rfl

theorem ofDigits_append (ds es : List Nat) :
    ofDigits (ds ++ es) = ofDigits ds * 10 ^ es.length + ofDigits es := by
  rw [ofDigits, List.foldl_append, foldl_digits]
  rfl

theorem ofDigits_cons (d : Nat) (ds : List Nat) :
    ofDigits (d :: ds) = d * 10 ^ ds.length + ofDigits ds := by
  have h := ofDigits_append [d] ds
  simpa [ofDigits] using h

@[simp] theorem ofDigits_replicate_zero (n : Nat) : ofDigits (List.replicate n 0) = 0 := by
  induction n with
  | zero => rfl
  | succ n ih => simp [List.replicate_succ, ofDigits_cons, ih]

theorem ofDigits_lt (h : ∀ d ∈ ds, d < 10) : ofDigits ds < 10 ^ ds.length := by
  induction ds with
  | nil => simp
  | cons d ds ih =>
      have hd : d + 1 ≤ 10 := h d List.mem_cons_self
      have hrest := ih fun e he => h e (List.mem_cons_of_mem d he)
      rw [ofDigits_cons, List.length_cons]
      calc d * 10 ^ ds.length + ofDigits ds < (d + 1) * 10 ^ ds.length := by
            rw [Nat.add_mul, Nat.one_mul]
            omega
        _ ≤ 10 * 10 ^ ds.length := Nat.mul_le_mul_right _ hd
        _ = 10 ^ (ds.length + 1) := by ring

/-- A number is at least as large as its first digit asks for. -/
theorem pow_le_ofDigits (hd : d ≠ 0) (ds : List Nat) : 10 ^ ds.length ≤ ofDigits (d :: ds) := by
  rw [ofDigits_cons]
  have hle := Nat.mul_le_mul_right (10 ^ ds.length) (Nat.pos_of_ne_zero hd)
  omega

/-- Zeros in front do not count. -/
theorem ofDigits_dropWhile (ds : List Nat) : ofDigits (ds.dropWhile (· == 0)) = ofDigits ds := by
  induction ds with
  | nil => rfl
  | cons d ds ih =>
      by_cases hd : d = 0
      · simp [hd, ofDigits_cons, ih]
      · simp [hd]

theorem ne_zero_of_dropWhile_eq_cons (h : ds.dropWhile (· == 0) = d :: es) : d ≠ 0 := by
  have hfirst := List.head?_dropWhile_not (fun d : Nat => d == 0) ds
  rw [h] at hfirst
  simpa using hfirst

/-- Without zeros in front, a small number has few digits. -/
theorem length_dropWhile_le (h : ofDigits ds < 10 ^ k) :
    (ds.dropWhile (· == 0)).length ≤ k := by
  rw [← ofDigits_dropWhile] at h
  cases hds : ds.dropWhile (· == 0) with
  | nil => simp
  | cons d es =>
      have hd := ne_zero_of_dropWhile_eq_cons hds
      have hlt := Nat.lt_of_le_of_lt (pow_le_ofDigits hd es) (hds ▸ h)
      rw [List.length_cons]
      exact (Nat.pow_lt_pow_iff_right (by omega)).1 hlt

/-- Zeros at the end that are dropped. -/
theorem exists_trailing_zeros (ds : List Nat) :
    ∃ z, ds = (ds.reverse.dropWhile (· == 0)).reverse ++ List.replicate z 0 := by
  have hzeros : ∀ d ∈ ds.reverse.takeWhile (· == 0), d = 0 := by
    intro d hd
    have hall := List.all_eq_true.1 (List.all_takeWhile (p := (· == 0)) (l := ds.reverse)) d hd
    simpa using hall
  have hsplit := congrArg List.reverse
    (List.takeWhile_append_dropWhile (p := (· == 0)) (l := ds.reverse))
  rw [List.eq_replicate_of_mem hzeros, List.reverse_append, List.reverse_reverse,
    List.reverse_replicate] at hsplit
  exact ⟨_, hsplit.symm⟩

end Digits

namespace Numeral

/-! ### The digits of a number -/

@[simp] theorem ofDigits_digitsOf (n : Nat) : ofDigits (digitsOf n) = n := by
  rw [digitsOf, ofDigits, List.foldl_map]
  exact Nat.ofDigitChars_ten_toDigits

theorem digitsOf_ne_nil (n : Nat) : digitsOf n ≠ [] := by
  simp [digitsOf, Nat.toDigits_ne_nil]

theorem digitsOf_lt {n d : Nat} (h : d ∈ digitsOf n) : d < 10 := by
  obtain ⟨c, hc, rfl⟩ := List.mem_map.1 h
  have hdigit := Nat.isDigit_of_mem_toDigits (by omega) (by omega) hc
  rw [Char.isDigit_iff_toNat] at hdigit
  simp at hdigit ⊢
  omega

theorem length_digitsOf_le_iff {n k : Nat} (hk : 0 < k) :
    (digitsOf n).length ≤ k ↔ n < 10 ^ k := by
  rw [digitsOf, List.length_map]
  exact Nat.length_toDigits_le_iff (by omega) hk

theorem length_digitsOf_pos (n : Nat) : 0 < (digitsOf n).length :=
  List.length_pos_of_ne_nil (digitsOf_ne_nil n)

theorem lt_pow_length_digitsOf (n : Nat) : n < 10 ^ (digitsOf n).length :=
  (length_digitsOf_le_iff (length_digitsOf_pos n)).1 (Nat.le_refl _)

theorem pow_length_digitsOf_le {n : Nat} (hn : n ≠ 0) : 10 ^ ((digitsOf n).length - 1) ≤ n := by
  by_contra hlt
  have hpos := length_digitsOf_pos n
  by_cases hone : (digitsOf n).length = 1
  · rw [hone] at hlt
    omega
  · have hle := (length_digitsOf_le_iff (by omega)).2 (Nat.lt_of_not_le hlt)
    omega

/-- There is no superfluous zero in front. -/
theorem head?_digitsOf {n : Nat} (hn : n ≠ 0) : (digitsOf n).head? ≠ some 0 := by
  intro hzero
  have hle := pow_length_digitsOf_le hn
  have hvalue := ofDigits_digitsOf n
  obtain ⟨ds, hds⟩ := List.head?_eq_some_iff.1 hzero
  have hlt : ofDigits ds < 10 ^ ds.length :=
    ofDigits_lt fun d hd => digitsOf_lt (hds ▸ List.mem_cons_of_mem 0 hd)
  rw [hds, ofDigits_cons, Nat.zero_mul, Nat.zero_add] at hvalue
  rw [hds, List.length_cons, Nat.add_sub_cancel] at hle
  omega

/-- **The numeral of an integer stands for the integer.** -/
theorem integer?_ofInt (i : Int) : (ofInt i).integer? = some i := by
  rw [integer?, ofInt]
  by_cases hi : i < 0
  · have hne : i.natAbs ≠ 0 := by omega
    have hneg : -(i.natAbs : Int) = i := by omega
    simpa [hi, hne] using hneg
  · have hpos : (i.natAbs : Int) = i := by omega
    simpa [hi] using hpos

/-! ### Numerals that can be written -/

/-- The numeral has decimal digits, at least one of them before the point, and no superfluous zero in
front. -/
structure Spelled (n : Numeral) : Prop where
  digits : ∀ d ∈ n.whole ++ n.fraction, d < 10
  whole_ne_nil : n.whole ≠ []
  no_zero_in_front : ∀ ds, n.whole = 0 :: ds → ds = []

theorem spelled_ofInt (i : Int) : (ofInt i).Spelled where
  digits d hd := by
    rw [ofInt, List.append_nil] at hd
    exact digitsOf_lt hd
  whole_ne_nil := digitsOf_ne_nil _
  no_zero_in_front ds hds := by
    by_cases hzero : i.natAbs = 0
    · rw [ofInt, hzero] at hds
      exact (List.cons.inj hds).2.symm
    · exact absurd (congrArg List.head? hds) (head?_digitsOf hzero)

/-- A point or an exponent is written. -/
def HasPoint (n : Numeral) : Prop :=
  n.fraction ≠ [] ∨ n.exponent ≠ none

/-- A numeral with a point or an exponent stands for no integer. -/
theorem HasPoint.integer?_eq_none {n : Numeral} (h : n.HasPoint) : n.integer? = none := by
  rw [integer?]
  rcases h with hfraction | hexponent
  · simp [hfraction]
  · simp [hexponent]

/-! ### Values -/

/-- The value of a numeral without its sign. -/
def absRat (n : Numeral) : Rat :=
  (ofDigits (n.whole ++ n.fraction) : Rat) * (10 : Rat) ^ (n.exponent.getD 0 - n.fraction.length)

/-- Zeros around the digits only move the point. -/
theorem absRat_of_digits {n : Numeral} {ds : List Nat} {i j : Nat}
    (h : n.whole ++ n.fraction = List.replicate i 0 ++ ds ++ List.replicate j 0) :
    n.absRat = ofDigits ds * (10 : Rat) ^ (n.exponent.getD 0 - n.fraction.length + j) := by
  have hten : (10 : Rat) ≠ 0 := by norm_num
  rw [absRat, h, ofDigits_append, ofDigits_append, ofDigits_replicate_zero,
    ofDigits_replicate_zero, List.length_replicate, zpow_add₀ hten, zpow_natCast]
  push_cast
  ring

/-- The digits that are dropped at the end of the fraction are zeros. -/
theorem exists_digits_eq (n : Numeral) : ∃ z,
    n.whole ++ n.fraction = (n.whole ++ n.trimmedFraction) ++ List.replicate z 0 ∧
      n.fraction.length = n.trimmedFraction.length + z := by
  obtain ⟨z, hz⟩ := exists_trailing_zeros n.fraction
  rw [← trimmedFraction] at hz
  refine ⟨z, ?_, ?_⟩
  · rw [List.append_assoc, ← hz]
  · have hlen := congrArg List.length hz
    rwa [List.length_append, List.length_replicate] at hlen

/-- Zeros at the end of the fraction and zeros in front do not count. -/
theorem absRat_eq_significant (n : Numeral) :
    n.absRat = (ofDigits n.significantDigits : Rat) *
      (10 : Rat) ^ (n.exponent.getD 0 - n.trimmedFraction.length) := by
  obtain ⟨z, hdigits, hlen⟩ := n.exists_digits_eq
  have hpoint : n.exponent.getD 0 - (n.fraction.length : Int) + z =
      n.exponent.getD 0 - n.trimmedFraction.length := by omega
  rw [significantDigits, ofDigits_dropWhile, ← hpoint]
  exact absRat_of_digits (i := 0) hdigits

theorem length_significantDigits_le {n : Numeral} {k : Nat}
    (h : ofDigits (n.whole ++ n.fraction) < 10 ^ k) : n.significantDigits.length ≤ k := by
  obtain ⟨z, hdigits, -⟩ := n.exists_digits_eq
  refine length_dropWhile_le (Nat.lt_of_le_of_lt ?_ h)
  rw [hdigits, ofDigits_append _ (List.replicate z 0), ofDigits_replicate_zero]
  exact Nat.le_mul_of_pos_right _ (Nat.pow_pos (by omega))

/-- **Reading keeps the value** as long as all digits are looked at. -/
theorem scaled_eq_absRat {n : Numeral} (h : n.significantDigits.length ≤ digitLimit) :
    (n.scaled.1 : Rat) * (10 : Rat) ^ n.scaled.2 = n.absRat := by
  rw [absRat_eq_significant, scaled, if_pos (Nat.sub_eq_zero_of_le h)]

theorem mem_of_mem_significantDigits {n : Numeral} {d : Nat} (h : d ∈ n.significantDigits) :
    d ∈ n.whole ++ n.fraction := by
  obtain ⟨z, hdigits, -⟩ := n.exists_digits_eq
  have hmem := (List.dropWhile_sublist _).mem h
  rw [hdigits]
  exact List.mem_append_left _ hmem

/-- Something smaller than a unit does not carry a number of units over a bound. -/
theorem mul_add_lt_mul_iff {u x : Rat} (hx : 0 ≤ x) (hxu : x < u) (t m : Nat) :
    t * u + x < m * u ↔ t < m := by
  have hu : 0 < u := lt_of_le_of_lt hx hxu
  constructor
  · intro h
    have hlt : (t : Rat) * u < m * u := by linarith
    exact_mod_cast lt_of_mul_lt_mul_right hlt hu.le
  · intro h
    have hle : (t : Rat) + 1 ≤ m := by exact_mod_cast h
    have hmul := mul_le_mul_of_nonneg_right hle hu.le
    linarith

/-- What is read of a long numeral: the digits that are looked at, as units of the last of them, and a
tenth of a unit for all that follow. -/
theorem scaled_of_long {n : Numeral} (hlong : digitLimit < n.significantDigits.length) :
    (n.scaled.1 : Rat) * (10 : Rat) ^ n.scaled.2 =
      ofDigits (n.significantDigits.take digitLimit) * (10 : Rat) ^ (n.scaled.2 + 1) +
        (10 : Rat) ^ n.scaled.2 := by
  have hread : n.scaled.1 = ofDigits (n.significantDigits.take digitLimit) * 10 + 1 := by
    rw [scaled, if_neg (by omega), ofDigits_append]
    rfl
  rw [hread, zpow_add_one₀ (by norm_num)]
  push_cast
  ring

/-- The value of a long numeral: the same units, and less than one unit that is not looked at. -/
theorem absRat_of_long {n : Numeral} (hn : ∀ d ∈ n.whole ++ n.fraction, d < 10)
    (hlong : digitLimit < n.significantDigits.length) :
    ∃ x : Rat, 0 ≤ x ∧ x < (10 : Rat) ^ (n.scaled.2 + 1) ∧
      n.absRat = ofDigits (n.significantDigits.take digitLimit) *
        (10 : Rat) ^ (n.scaled.2 + 1) + x := by
  obtain ⟨s, hs⟩ : ∃ s, n.significantDigits.length = digitLimit + (s + 1) :=
    ⟨n.significantDigits.length - digitLimit - 1, by omega⟩
  have hrest : ofDigits (n.significantDigits.drop digitLimit) < 10 ^ (s + 1) := by
    have hlt := ofDigits_lt fun d (hd : d ∈ n.significantDigits.drop digitLimit) =>
      hn d (mem_of_mem_significantDigits (List.mem_of_mem_drop hd))
    rwa [List.length_drop, hs, Nat.add_sub_cancel_left] at hlt
  have hsurplus : n.significantDigits.length - digitLimit = s + 1 := by omega
  have hvalue := absRat_eq_significant n
  rw [← List.take_append_drop digitLimit n.significantDigits, ofDigits_append, List.length_drop,
    hsurplus] at hvalue
  have hunit : (10 : Rat) ^ (n.scaled.2 + 1) =
      10 ^ (n.exponent.getD 0 - (n.trimmedFraction.length : Int)) * 10 ^ (s + 1) := by
    rw [scaled, hsurplus, if_neg (by omega), Nat.add_sub_cancel, add_assoc,
      zpow_add₀ (by norm_num), ← Nat.cast_succ, zpow_natCast]
  rw [hunit, hvalue]
  generalize n.exponent.getD 0 - (n.trimmedFraction.length : Int) = e
  generalize ofDigits (n.significantDigits.take digitLimit) = t
  generalize ofDigits (n.significantDigits.drop digitLimit) = r at hrest ⊢
  have he : (0 : Rat) < 10 ^ e := by positivity
  refine ⟨10 ^ e * r, mul_nonneg he.le r.cast_nonneg, ?_, ?_⟩
  · exact mul_lt_mul_of_pos_left (by exact_mod_cast hrest) he
  · push_cast
    ring

/-- **What is not looked at does not carry a number over a bound** that is a multiple of the last unit
that is looked at. -/
theorem scaled_lt_iff {n : Numeral} (hn : ∀ d ∈ n.whole ++ n.fraction, d < 10)
    (hlong : digitLimit < n.significantDigits.length) (m : Nat) :
    (n.scaled.1 : Rat) * (10 : Rat) ^ n.scaled.2 < m * (10 : Rat) ^ (n.scaled.2 + 1) ↔
      n.absRat < m * (10 : Rat) ^ (n.scaled.2 + 1) := by
  obtain ⟨x, hx, hxu, hvalue⟩ := absRat_of_long hn hlong
  have hnonneg : (0 : Rat) ≤ 10 ^ n.scaled.2 := by positivity
  have htenth : (10 : Rat) ^ n.scaled.2 < 10 ^ (n.scaled.2 + 1) :=
    zpow_lt_zpow_right₀ (by norm_num) (by omega)
  rw [scaled_of_long hlong, hvalue, mul_add_lt_mul_iff hnonneg htenth, mul_add_lt_mul_iff hx hxu]

/-- The first digit is no zero, so many digits make a large number. -/
theorem pow_le_scaled {n : Numeral} (hlong : digitLimit < n.significantDigits.length) :
    10 ^ digitLimit ≤ n.scaled.1 := by
  rw [scaled, if_neg (by omega)]
  have hlen : (n.significantDigits.take digitLimit).length = digitLimit := by
    rw [List.length_take]
    omega
  cases hds : n.significantDigits with
  | nil => simp [hds] at hlong
  | cons d ds =>
      have hd := ne_zero_of_dropWhile_eq_cons hds
      rw [hds, digitLimit, List.take_succ_cons] at hlen
      rw [digitLimit, List.take_succ_cons]
      have hle := pow_le_ofDigits hd (ds.take 767 ++ [1])
      rw [List.length_append, List.length_singleton] at hle
      rw [List.length_cons] at hlen
      rwa [hlen] at hle

/-- **What is not looked at does not carry a number over an integer** that has no more digits than
are looked at. -/
theorem scaled_lt_natCast_iff {n : Numeral} (hn : ∀ d ∈ n.whole ++ n.fraction, d < 10) {b : Nat}
    (hb : b < 10 ^ (digitLimit - 1)) :
    (n.scaled.1 : Rat) * (10 : Rat) ^ n.scaled.2 < b ↔ n.absRat < b := by
  have hten : (10 : Rat) ≠ 0 := by norm_num
  by_cases hshort : n.significantDigits.length ≤ digitLimit
  · rw [scaled_eq_absRat hshort]
  have hlong : digitLimit < n.significantDigits.length := by omega
  by_cases hunit : n.scaled.2 + 1 ≤ 0
  · -- the integer is a multiple of the unit
    obtain ⟨k, hk⟩ := Int.eq_ofNat_of_zero_le (show 0 ≤ -(n.scaled.2 + 1) by omega)
    have hmultiple : (b : Rat) = (b * 10 ^ k : Nat) * (10 : Rat) ^ (n.scaled.2 + 1) := by
      rw [show n.scaled.2 + 1 = -(k : Int) by omega, zpow_neg, zpow_natCast]
      push_cast
      field_simp
    rw [hmultiple]
    exact scaled_lt_iff hn hlong _
  · -- both numbers are larger than the integer
    have hbound := scaled_lt_iff hn hlong (10 ^ (digitLimit - 1))
    have hfirst : ((10 ^ (digitLimit - 1) : Nat) : Rat) * (10 : Rat) ^ (n.scaled.2 + 1) ≤
        n.scaled.1 * (10 : Rat) ^ n.scaled.2 := by
      have hle : ((10 ^ digitLimit : Nat) : Rat) ≤ n.scaled.1 := by
        exact_mod_cast pow_le_scaled hlong
      have hsplit : ((10 ^ (digitLimit - 1) : Nat) : Rat) * (10 : Rat) ^ (n.scaled.2 + 1) =
          (10 ^ digitLimit : Nat) * (10 : Rat) ^ n.scaled.2 := by
        rw [zpow_add₀ hten, zpow_one, show digitLimit = digitLimit - 1 + 1 from rfl, pow_succ,
          Nat.add_sub_cancel]
        push_cast
        ring
      rw [hsplit]
      exact mul_le_mul_of_nonneg_right hle (by positivity)
    have hlarge : (b : Rat) < (10 ^ (digitLimit - 1) : Nat) * (10 : Rat) ^ (n.scaled.2 + 1) := by
      have hone : (1 : Rat) ≤ (10 : Rat) ^ (n.scaled.2 + 1) :=
        one_le_zpow₀ (by norm_num) (by omega)
      have hb' : (b : Rat) < (10 ^ (digitLimit - 1) : Nat) := by exact_mod_cast hb
      exact hb'.trans_le (le_mul_of_one_le_right (Nat.cast_nonneg _) hone)
    have hread := not_lt.2 hfirst
    have hvalue := not_lt.1 (mt hbound.2 hread)
    exact iff_of_false (not_lt.2 (hlarge.le.trans hfirst)) (not_lt.2 (hlarge.le.trans hvalue))

end Numeral

namespace Layout

open Numeral (absRat)

variable {l : Layout} {negative : Bool} {ds : List Nat} {point : Int}

/-! ### Layouts -/

theorem negative_numeral (l : Layout) (negative : Bool) (ds : List Nat) (point : Int) :
    (l.numeral negative ds point).negative = negative := by
  rw [numeral]
  split <;> rfl

theorem numeral_scientific (h : l.isPositional point = false) :
    l.numeral negative ds point = ⟨negative, ds.take 1, ds.drop 1, some (point - 1)⟩ := by
  rw [numeral, if_neg (by simp [h])]

/-- All digits stand before the point. -/
theorem numeral_integral (h : l.isPositional point = true) (hds : ds ≠ [])
    (hpoint : (ds.length : Int) ≤ point) :
    l.numeral negative ds point = ⟨negative, ds ++ List.replicate (point.toNat - ds.length) 0,
      if l.showsFraction then [0] else [], none⟩ := by
  have hlen := List.length_pos_of_ne_nil hds
  have hzeros : (-point).toNat = 0 := by omega
  have hall : ds.length ≤ point.toNat := by omega
  rw [numeral, if_pos h]
  simp [hzeros, hds, List.take_of_length_le hall, List.drop_of_length_le hall]

/-- The point stands among the digits. -/
theorem numeral_split (h : l.isPositional point = true) (hpos : 0 < point)
    (hpoint : point < ds.length) :
    l.numeral negative ds point =
      ⟨negative, ds.take point.toNat, ds.drop point.toNat, none⟩ := by
  have hzeros : (-point).toNat = 0 := by omega
  have hfill : point.toNat - ds.length = 0 := by omega
  have hwhole : ¬(point ≤ 0 ∨ ds = []) := by
    rintro (hle | rfl)
    · omega
    · simp at hpoint
      omega
  have hfraction : ¬ds.length ≤ point.toNat := by omega
  rw [numeral, if_pos h]
  simp [hzeros, hfill, hwhole, hfraction]

/-- The point stands in front of the digits. -/
theorem numeral_small (h : l.isPositional point = true) (hds : ds ≠ []) (hpoint : point ≤ 0) :
    l.numeral negative ds point =
      ⟨negative, [0], List.replicate (-point).toNat 0 ++ ds, none⟩ := by
  have hzero : point.toNat = 0 := by omega
  rw [numeral, if_pos h]
  simp [hzero, hds]

/-- A layout puts zeros around the digits and moves the point accordingly.  Zeros at the end are put
only up to one place after the point. -/
theorem digits_numeral (l : Layout) (negative : Bool) (hds : ds ≠ []) (point : Int) :
    let n := l.numeral negative ds point
    ∃ i j, n.whole ++ n.fraction = List.replicate i 0 ++ ds ++ List.replicate j 0 ∧
      n.exponent.getD 0 - n.fraction.length + j = point - ds.length ∧
      (j ≠ 0 → l.isPositional point = true ∧ ds.length + j ≤ point.toNat + 1) := by
  have hlen := List.length_pos_of_ne_nil hds
  cases h : l.isPositional point with
  | false =>
      rw [numeral_scientific h]
      refine ⟨0, 0, ?_, ?_, by simp⟩
      · rw [List.take_append_drop]
        simp
      · simp
        omega
  | true =>
      by_cases hsmall : point ≤ 0
      · rw [numeral_small h hds hsmall]
        refine ⟨(-point).toNat + 1, 0, by simp [List.replicate_succ], ?_, by simp⟩
        simp
        omega
      · by_cases hpoint : point < ds.length
        · rw [numeral_split h (Int.not_le.1 hsmall) hpoint]
          refine ⟨0, 0, by simp, ?_, by simp⟩
          simp
          omega
        · rw [numeral_integral h hds (Int.not_lt.1 hpoint)]
          cases l.showsFraction with
          | false =>
              refine ⟨0, point.toNat - ds.length, by simp, ?_, fun _ => ⟨rfl, ?_⟩⟩
              · simp
                omega
              · omega
          | true =>
              refine ⟨0, point.toNat - ds.length + 1, by simp [List.replicate_succ'], ?_,
                fun _ => ⟨rfl, ?_⟩⟩
              · simp
                omega
              · omega

/-- **A layout keeps the value of the digits.** -/
theorem absRat_numeral (l : Layout) (negative : Bool) (hds : ds ≠ []) (point : Int) :
    absRat (l.numeral negative ds point) = ofDigits ds * (10 : Rat) ^ (point - ds.length) := by
  obtain ⟨i, j, hdigits, hexponent, -⟩ := digits_numeral l negative hds point
  rw [Numeral.absRat_of_digits hdigits, hexponent]

/-- The digits that a layout writes form no larger number than the given ones, unless they stand
before the point. -/
theorem ofDigits_numeral_lt (l : Layout) (negative : Bool) {k : Nat}
    (hk : ofDigits ds < 10 ^ k) (hds : ds ≠ []) (point : Int) (hdigits : ∀ d ∈ ds, d < 10)
    (hpoint : l.isPositional point = true → point < k) :
    let n := l.numeral negative ds point
    ofDigits (n.whole ++ n.fraction) < 10 ^ k := by
  obtain ⟨i, j, hn, -, hj⟩ := digits_numeral l negative hds point
  dsimp only
  rw [hn, ofDigits_append, ofDigits_append, ofDigits_replicate_zero, ofDigits_replicate_zero,
    List.length_replicate, Nat.zero_mul, Nat.zero_add, Nat.add_zero]
  by_cases hzero : j = 0
  · simpa [hzero] using hk
  · obtain ⟨hpositional, hle⟩ := hj hzero
    have hlt := hpoint hpositional
    have hlen := List.length_pos_of_ne_nil hds
    calc ofDigits ds * 10 ^ j < 10 ^ ds.length * 10 ^ j :=
          Nat.mul_lt_mul_of_pos_right (ofDigits_lt hdigits) (Nat.pow_pos (by omega))
      _ = 10 ^ (ds.length + j) := (Nat.pow_add 10 _ _).symm
      _ ≤ 10 ^ k := Nat.pow_le_pow_right (by omega) (by omega)

/-- **What a layout makes can be written**, if there is no superfluous zero in front of the digits. -/
theorem spelled_numeral (l : Layout) (negative : Bool) (hds : ds ≠ []) (hdigits : ∀ d ∈ ds, d < 10)
    (hzero : ds.head? = some 0 → ds = [0] ∧ point ≤ 1) :
    (l.numeral negative ds point).Spelled := by
  have hwritten : ∀ d ∈ (l.numeral negative ds point).whole ++
      (l.numeral negative ds point).fraction, d < 10 := by
    obtain ⟨i, j, hn, -⟩ := digits_numeral l negative hds point
    intro d hd
    rw [hn, List.append_assoc, List.mem_append, List.mem_append] at hd
    rcases hd with hd | hd | hd
    · have hd := List.eq_of_mem_replicate hd
      omega
    · exact hdigits d hd
    · have hd := List.eq_of_mem_replicate hd
      omega
  have hlen := List.length_pos_of_ne_nil hds
  cases h : l.isPositional point with
  | false =>
      rw [numeral_scientific h] at hwritten ⊢
      refine ⟨hwritten, by simp [hds], fun es hes => ?_⟩
      have hone := congrArg List.length hes
      rw [List.length_take, List.length_cons] at hone
      exact List.eq_nil_of_length_eq_zero (by omega)
  | true =>
      by_cases hsmall : point ≤ 0
      · rw [numeral_small h hds hsmall] at hwritten ⊢
        exact ⟨hwritten, by simp, fun es hes => (List.cons.inj hes).2.symm⟩
      · by_cases hpoint : point < ds.length
        · rw [numeral_split h (Int.not_le.1 hsmall) hpoint] at hwritten ⊢
          refine ⟨hwritten, by simp [hds]; omega, fun es hes => ?_⟩
          have hhead := congrArg List.head? hes
          rw [List.head?_take, if_neg (by omega)] at hhead
          obtain ⟨rfl, -⟩ := hzero hhead
          simp at hpoint
          omega
        · rw [numeral_integral h hds (Int.not_lt.1 hpoint)] at hwritten ⊢
          refine ⟨hwritten, by simp [hds], fun es hes => ?_⟩
          have hhead := congrArg List.head? hes
          rw [List.head?_append_of_ne_nil _ hds] at hhead
          obtain ⟨rfl, hle⟩ := hzero hhead
          have hfill : point.toNat - [0].length = 0 := by simp; omega
          rw [hfill] at hes
          exact (List.cons.inj hes).2.symm

/-- A layout that always shows a digit after the point writes a point or an exponent. -/
theorem hasPoint_numeral (h : l.showsFraction = true) (hds : ds ≠ []) :
    (l.numeral negative ds point).HasPoint := by
  have hlen := List.length_pos_of_ne_nil hds
  cases hpositional : l.isPositional point with
  | false =>
      rw [numeral_scientific hpositional]
      exact .inr (Option.some_ne_none _)
  | true =>
      by_cases hsmall : point ≤ 0
      · rw [numeral_small hpositional hds hsmall]
        exact .inl (by simp [hds])
      · by_cases hpoint : point < ds.length
        · have hfraction : ¬ds.length ≤ point.toNat := by omega
          rw [numeral_split hpositional (Int.not_le.1 hsmall) hpoint]
          exact .inl (by simp [hfraction])
        · rw [numeral_integral hpositional hds (Int.not_lt.1 hpoint)]
          exact .inl (by simp [h])

end Layout

end GraphIndex
