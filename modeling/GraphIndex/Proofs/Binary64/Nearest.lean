/-
**Rounding to nearest.**  What the number nearest to a rational is, as far as reading and writing need
it.

The magnitude of a finite number is its significand, counted on from where the numbers of its scale
begin.  Rounding finds the scale of a rational by its leading power of two, which is unique, and so the
value of a number is rounded to the number itself.  The numbers end half a step beyond the largest one:
what is smaller rounds to a finite number, and all the rest does not.

Main definitions:

* `Binary64.overflow` — the least number that does not round to a finite one.

Main results:

* `Binary64.floorLog2_spec` — the leading power of two;
* `Binary64.nearest_absRat` — **a finite number is nearest to its own value**;
* `Binary64.isFinite_nearest_iff` — what rounds to a finite number;
* `Binary64.nearest_of_lt` — what is too small rounds to zero.
-/
import GraphIndex.Binary64.Basic
import Mathlib.Algebra.Order.Field.Power
import Mathlib.Data.Rat.Floor
import Mathlib.Tactic.FieldSimp
import Mathlib.Tactic.Linarith
import Mathlib.Tactic.NormNum
import Mathlib.Tactic.Positivity
import Mathlib.Tactic.Ring

set_option autoImplicit false

namespace GraphIndex

namespace Binary64

/-! ### Leading powers -/

section Powers

variable {b r : Rat} {j k : Int}

/-- Powers of a base grow with their exponents. -/
theorem le_of_between (hb : 1 < b) (hj : b ^ j ≤ r) (hk : r < b ^ (k + 1)) : j ≤ k := by
  have hlt := (zpow_lt_zpow_iff_right₀ hb).1 (lt_of_le_of_lt hj hk)
  omega

theorem zpow_mul_pow (hb : b ≠ 0) {m n : Nat} (h : k + m = n) : b ^ k * b ^ m = b ^ n := by
  rw [← zpow_natCast, ← zpow_natCast, ← zpow_add₀ hb, h]

/-- A quotient is known up to one power of the base if its parts are known. -/
theorem leading_power (hb : 1 < b) (hr : 0 < r) {i j : Nat}
    (hi : b ^ i ≤ r.num.toNat ∧ (r.num.toNat : Rat) < b ^ (i + 1))
    (hj : b ^ j ≤ r.den ∧ (r.den : Rat) < b ^ (j + 1)) (guess : Int) (hguess : guess = i - j) :
    let k := if b ^ guess ≤ r then guess else guess - 1
    b ^ k ≤ r ∧ r < b ^ (k + 1) := by
  have hb0 : b ≠ 0 := by linarith
  have hbpos : 0 < b := by linarith
  have hden : (0 : Rat) < r.den := by exact_mod_cast r.den_pos
  have hnum : r * r.den = r.num.toNat := by
    rw [Rat.mul_den_eq_num]
    have hnonneg := Rat.num_nonneg.2 hr.le
    exact_mod_cast (Int.toNat_of_nonneg hnonneg).symm
  -- both parts may be off by one power of the base, in opposite directions
  have hlow : b ^ (guess - 1) < r := by
    have hsplit : b ^ (guess - 1) * b ^ (j + 1) = b ^ i := zpow_mul_pow hb0 (by omega)
    have hlt : b ^ (guess - 1) * r.den < r * r.den := by
      calc b ^ (guess - 1) * r.den < b ^ (guess - 1) * b ^ (j + 1) :=
            mul_lt_mul_of_pos_left hj.2 (zpow_pos hbpos _)
        _ = b ^ i := hsplit
        _ ≤ r * r.den := by rw [hnum]; exact hi.1
    exact lt_of_mul_lt_mul_right hlt hden.le
  have hhigh : r < b ^ (guess + 1) := by
    have hsplit : b ^ (guess + 1) * b ^ j = b ^ (i + 1) := zpow_mul_pow hb0 (by omega)
    have hlt : r * r.den < b ^ (guess + 1) * r.den := by
      calc r * r.den < b ^ (i + 1) := by rw [hnum]; exact hi.2
        _ = b ^ (guess + 1) * b ^ j := hsplit.symm
        _ ≤ b ^ (guess + 1) * r.den := mul_le_mul_of_nonneg_left hj.1 (zpow_pos hbpos _).le
    exact lt_of_mul_lt_mul_right hlt hden.le
  dsimp only
  split
  · next hle => exact ⟨hle, hhigh⟩
  · next hle =>
      refine ⟨hlow.le, ?_⟩
      rw [sub_add_cancel]
      exact not_le.1 hle

theorem natCast_log2 {n : Nat} (hn : n ≠ 0) :
    (2 : Rat) ^ n.log2 ≤ n ∧ (n : Rat) < 2 ^ (n.log2 + 1) := by
  have hle := Nat.log2_self_le hn
  have hlt := Nat.lt_log2_self (n := n)
  exact ⟨by exact_mod_cast hle, by exact_mod_cast hlt⟩

theorem toNat_num_ne_zero (hr : 0 < r) : r.num.toNat ≠ 0 := by
  have hnum := Rat.num_pos.2 hr
  omega

/-- **The leading power of two.** -/
theorem floorLog2_spec (hr : 0 < r) :
    (2 : Rat) ^ floorLog2 r ≤ r ∧ r < (2 : Rat) ^ (floorLog2 r + 1) :=
  leading_power (by norm_num) hr (natCast_log2 (toNat_num_ne_zero hr)) (natCast_log2 r.den_nz) _ rfl

/-- No other power of two leads. -/
theorem floorLog2_eq (hr : 0 < r) (hk : (2 : Rat) ^ k ≤ r) (hk' : r < (2 : Rat) ^ (k + 1)) :
    floorLog2 r = k := by
  obtain ⟨hle, hlt⟩ := floorLog2_spec hr
  exact Int.le_antisymm (le_of_between (by norm_num) hle hk') (le_of_between (by norm_num) hk hlt)

end Powers

/-! ### Rounding to an integer -/

section Integers

variable {r : Rat}

theorem floor_toNat_le (hr : 0 ≤ r) : (r.floor.toNat : Rat) ≤ r := by
  have hfloor : (0 : Int) ≤ r.floor := Rat.le_floor_iff.2 (by simpa using hr)
  have hle := Rat.floor_le r
  rw [← Int.toNat_of_nonneg hfloor] at hle
  exact_mod_cast hle

theorem lt_floor_toNat_add_one (hr : 0 ≤ r) : r < r.floor.toNat + 1 := by
  have hfloor : (0 : Int) ≤ r.floor := Rat.le_floor_iff.2 (by simpa using hr)
  have hlt := Rat.lt_floor_add_one r
  rw [← Int.toNat_of_nonneg hfloor] at hlt
  exact_mod_cast hlt

/-- An integer is rounded to itself. -/
theorem roundHalfEven_natCast (n : Nat) : roundHalfEven n = n := by
  have hfloor : (n : Rat).floor.toNat = n := by
    have h := Rat.floor_intCast (n : Int)
    rw [Int.cast_natCast] at h
    rw [h, Int.toNat_natCast]
  simp [roundHalfEven, hfloor]

/-- What is below one half is rounded to zero. -/
theorem roundHalfEven_of_lt (hr : 0 ≤ r) (hlt : r < 1 / 2) : roundHalfEven r = 0 := by
  have hle := floor_toNat_le hr
  have hfloor : r.floor.toNat = 0 := by
    by_contra hne
    have hone : (1 : Rat) ≤ r.floor.toNat := by exact_mod_cast Nat.pos_of_ne_zero hne
    linarith
  rw [roundHalfEven, hfloor, Nat.cast_zero, sub_zero]
  exact if_pos (.inl hlt)

/-- An even integer takes all from half a unit below it on. -/
theorem le_roundHalfEven_iff (hr : 0 ≤ r) {n : Nat} (hn : n % 2 = 0) :
    n ≤ roundHalfEven r ↔ (n : Rat) - 1 / 2 ≤ r := by
  have hle := floor_toNat_le hr
  have hlt := lt_floor_toNat_add_one hr
  rw [roundHalfEven]
  generalize r.floor.toNat = f at *
  -- only the integer just above the floor depends on the rounding, and then the floor is odd
  rcases Nat.lt_trichotomy (f + 1) n with hsmall | hnext | hlarge
  · have hgap : (f : Rat) + 2 ≤ n := by exact_mod_cast hsmall
    have hnot : ¬(n : Rat) - 1 / 2 ≤ r := by linarith
    simp only [hnot, iff_false]
    split <;> omega
  · have hcast : (n : Rat) = f + 1 := by exact_mod_cast hnext.symm
    split
    · next hdown =>
        have hodd : ¬f % 2 = 0 := by omega
        rcases hdown with hdown | ⟨-, heven⟩
        · refine ⟨fun h => absurd h (by omega), fun h => ?_⟩
          linarith
        · exact absurd heven hodd
    · next hup =>
        refine ⟨fun _ => ?_, fun _ => by omega⟩
        have hge : ¬r - f < 1 / 2 := fun h => hup (.inl h)
        linarith
  · have hcast : (n : Rat) ≤ f := by exact_mod_cast Nat.lt_succ_iff.1 hlarge
    have hyes : (n : Rat) - 1 / 2 ≤ r := by linarith
    simp only [hyes, iff_true]
    split <;> omega

end Integers

/-! ### Words -/

section Words

variable {x : Binary64} {m : Nat}

theorem magnitude_lt (x : Binary64) : x.magnitude < signWeight :=
  Nat.mod_lt _ (by decide)

theorem toNat_bits (x : Binary64) :
    x.bits.toNat = x.magnitude + if x.isNegative then signWeight else 0 := by
  have hlt : x.bits.toNat < 2 * signWeight := x.bits.toNat_lt
  rw [magnitude, isNegative]
  by_cases h : signWeight ≤ x.bits.toNat
  · rw [Nat.mod_eq_sub_mod h, Nat.mod_eq_of_lt (by omega)]
    simp [h]
  · rw [Nat.mod_eq_of_lt (by omega)]
    simp [h]

/-- A number is its sign and its magnitude. -/
theorem ofMagnitude_eta (x : Binary64) : ofMagnitude x.isNegative x.magnitude = x := by
  rw [ofMagnitude, ← toNat_bits, UInt64.ofNat_toNat]

theorem toNat_bits_ofMagnitude (negative : Bool) (hm : m < signWeight) :
    (ofMagnitude negative m).bits.toNat = m + if negative then signWeight else 0 := by
  rw [ofMagnitude, UInt64.toNat_ofNat']
  refine Nat.mod_eq_of_lt ?_
  rw [signWeight] at *
  split <;> omega

theorem magnitude_ofMagnitude (negative : Bool) (hm : m < signWeight) :
    (ofMagnitude negative m).magnitude = m := by
  rw [magnitude, toNat_bits_ofMagnitude negative hm]
  cases negative with
  | false => simpa using Nat.mod_eq_of_lt hm
  | true => simpa using Nat.mod_eq_of_lt hm

theorem isNegative_ofMagnitude (negative : Bool) (hm : m < signWeight) :
    (ofMagnitude negative m).isNegative = negative := by
  rw [isNegative, toNat_bits_ofMagnitude negative hm]
  cases negative with
  | false => simpa using hm
  | true => simp

/-! ### Scales -/

theorem scale_ge (x : Binary64) : -1074 ≤ x.scale := by
  rw [scale]
  omega

theorem significand_lt (x : Binary64) : x.significand < 2 * exponentWeight := by
  have hlt : x.fractionField < exponentWeight := Nat.mod_lt _ (by decide)
  rw [significand]
  split <;> omega

/-- Only at the lowest scale is there no leading bit. -/
theorem le_significand (h : x.scale ≠ -1074) : exponentWeight ≤ x.significand := by
  rw [scale] at h
  rw [significand, if_neg (by omega)]
  exact Nat.le_add_right _ _

/-- The magnitude counts the numbers of the scales below, and then the significand. -/
theorem magnitude_eq (x : Binary64) :
    x.magnitude = (x.scale + 1074).toNat * exponentWeight + x.significand := by
  have hdiv : exponentWeight * x.exponentField + x.fractionField = x.magnitude :=
    Nat.div_add_mod x.magnitude exponentWeight
  rw [scale, significand]
  by_cases hzero : x.exponentField = 0
  · rw [hzero] at hdiv ⊢
    simpa using hdiv.symm
  · obtain ⟨e, he⟩ := Nat.exists_eq_succ_of_ne_zero hzero
    have hscale : (((max x.exponentField 1 : Nat) : Int) - 1075 + 1074).toNat = e := by omega
    rw [if_neg hzero, hscale, ← hdiv, he, Nat.mul_succ, Nat.mul_comm e]
    omega

theorem significand_eq_zero_iff : x.significand = 0 ↔ x.magnitude = 0 := by
  have hmag := magnitude_eq x
  by_cases hscale : x.scale = -1074
  · rw [hscale] at hmag
    simp at hmag
    omega
  · have hle := le_significand hscale
    have hpos : 0 < exponentWeight := by decide
    omega

theorem absRat_nonneg (x : Binary64) : 0 ≤ x.absRat := by
  rw [absRat]
  positivity

theorem absRat_pos (h : x.magnitude ≠ 0) : 0 < x.absRat := by
  have hpos : 0 < x.significand := Nat.pos_of_ne_zero fun hzero => h (significand_eq_zero_iff.1 hzero)
  rw [absRat]
  positivity

/-- The scale of a number is the one around its value. -/
theorem scaleAround_absRat (h : x.magnitude ≠ 0) : scaleAround x.absRat = x.scale := by
  have hne : x.significand ≠ 0 := fun hzero => h (significand_eq_zero_iff.1 hzero)
  obtain ⟨hle, hlt⟩ := natCast_log2 hne
  have htwo : (2 : Rat) ≠ 0 := by norm_num
  have hpos : (0 : Rat) < 2 ^ x.scale := by positivity
  have hlog : floorLog2 x.absRat = x.significand.log2 + x.scale := by
    refine floorLog2_eq (absRat_pos h) ?_ ?_
    · rw [zpow_add₀ htwo, zpow_natCast, absRat]
      exact mul_le_mul_of_nonneg_right hle hpos.le
    · rw [add_right_comm, zpow_add₀ htwo, ← Nat.cast_succ, zpow_natCast, absRat]
      exact mul_lt_mul_of_pos_right hlt hpos
  have hhigh : x.significand.log2 < 53 := (Nat.log2_lt hne).2 (significand_lt x)
  have hge := scale_ge x
  rw [scaleAround, hlog]
  by_cases hscale : x.scale = -1074
  · omega
  · have hlow : 52 ≤ x.significand.log2 := (Nat.le_log2 hne).2 (le_significand hscale)
    omega

end Words

/-! ### Rounding to a number -/

variable {x : Binary64} {r : Rat}

/-- The magnitude of the number nearest to a positive rational, if numbers went on without end. -/
def roundedMagnitude (r : Rat) : Nat :=
  (scaleAround r + 1074).toNat * exponentWeight + roundHalfEven (r / (2 : Rat) ^ scaleAround r)

theorem nearest_of_pos (hr : 0 < r) :
    nearest r = ofMagnitude false (min (roundedMagnitude r) infiniteMagnitude) := by
  rw [nearest, if_neg (not_le.2 hr)]
  rfl

theorem magnitude_nearest (hr : 0 < r) :
    (nearest r).magnitude = min (roundedMagnitude r) infiniteMagnitude := by
  rw [nearest_of_pos hr]
  refine magnitude_ofMagnitude _ (Nat.lt_of_le_of_lt (Nat.min_le_right _ _) ?_)
  decide

theorem isNegative_nearest (r : Rat) : (nearest r).isNegative = false := by
  rcases le_or_gt r 0 with hr | hr
  · rw [nearest, if_pos hr]
    rfl
  · rw [nearest_of_pos hr]
    refine isNegative_ofMagnitude _ (Nat.lt_of_le_of_lt (Nat.min_le_right _ _) ?_)
    decide

/-- **A finite number is nearest to its own value.** -/
theorem nearest_absRat (hx : x.isFinite = true) :
    nearest x.absRat = ofMagnitude false x.magnitude := by
  have hlt : x.magnitude < infiniteMagnitude := by simpa [isFinite] using hx
  by_cases hzero : x.magnitude = 0
  · rw [absRat, significand_eq_zero_iff.2 hzero, hzero, Nat.cast_zero, zero_mul]
    rfl
  · have hpos : (0 : Rat) < 2 ^ x.scale := by positivity
    have hrounded : roundedMagnitude x.absRat = x.magnitude := by
      rw [roundedMagnitude, scaleAround_absRat hzero, absRat, mul_div_assoc, div_self hpos.ne',
        mul_one, roundHalfEven_natCast, ← magnitude_eq]
    rw [nearest_of_pos (absRat_pos hzero), hrounded, Nat.min_eq_left hlt.le]

/-- The least number that does not round to a finite one: half a step beyond the largest one. -/
def overflow : Nat :=
  2 ^ 1024 - 2 ^ 970

theorem overflow_eq : (overflow : Rat) = ((2 ^ 53 : Nat) - 1 / 2 : Rat) * 2 ^ (971 : Int) := by
  have hone : (2 : Rat) ^ 1024 = 2 ^ 53 * (2 * 2 ^ 970) := by
    rw [← pow_succ', ← pow_add]
  have htwo : (2 : Rat) ^ (971 : Int) = 2 * 2 ^ 970 := by
    rw [← pow_succ', ← zpow_natCast]
    rfl
  have hle : 2 ^ 970 ≤ 2 ^ 1024 := by decide +kernel
  rw [overflow, Nat.cast_sub hle, Nat.cast_pow, Nat.cast_pow, Nat.cast_ofNat, hone, htwo]
  generalize (2 : Rat) ^ 970 = p
  push_cast
  ring

theorem overflow_pos : (0 : Rat) < overflow := by
  rw [overflow_eq]
  exact mul_pos (by norm_num) (by positivity)

/-- The scale leaves room for fifty-three bits. -/
theorem lt_scaleAround (hr : 0 < r) : r < 2 ^ 53 * (2 : Rat) ^ scaleAround r := by
  have htwo : (2 : Rat) ≠ 0 := by norm_num
  obtain ⟨-, hlt⟩ := floorLog2_spec hr
  refine lt_of_lt_of_le hlt ?_
  rw [← zpow_natCast, ← zpow_add₀ htwo]
  refine zpow_le_zpow_right₀ (by norm_num) ?_
  rw [scaleAround]
  omega

theorem roundHalfEven_lt (hr : 0 < r) :
    roundHalfEven (r / (2 : Rat) ^ scaleAround r) < 2 ^ 53 + 2 := by
  have hpos : (0 : Rat) < 2 ^ scaleAround r := by positivity
  have hquotient : 0 ≤ r / (2 : Rat) ^ scaleAround r := by positivity
  have hlt := lt_scaleAround hr
  rw [← div_lt_iff₀ hpos] at hlt
  by_contra hge
  have hle := (le_roundHalfEven_iff hquotient (n := 2 ^ 53 + 2) (by decide)).1 (not_lt.1 hge)
  push_cast at hle
  linarith

/-- Below the last leading power there is room even for a carry. -/
theorem roundedMagnitude_lt_of_small (hr : 0 < r) (hk : floorLog2 r < 1023) :
    roundedMagnitude r < infiniteMagnitude ∧ r < overflow := by
  have htwo : (2 : Rat) ≠ 0 := by norm_num
  obtain ⟨-, hlt⟩ := floorLog2_spec hr
  constructor
  · have hcount := Nat.mul_le_mul_right exponentWeight
      (show (scaleAround r + 1074).toNat ≤ 2044 by rw [scaleAround]; omega)
    have hround := roundHalfEven_lt hr
    have hwidth : infiniteMagnitude = 2047 * exponentWeight := rfl
    have hdouble : 2 * exponentWeight = 2 ^ 53 := rfl
    rw [roundedMagnitude]
    omega
  · have hsmall : r < 2 ^ 52 * 2 ^ (971 : Int) := by
      refine lt_of_lt_of_le hlt ?_
      rw [← zpow_natCast, ← zpow_add₀ htwo]
      exact zpow_le_zpow_right₀ (by norm_num) (by omega)
    rw [overflow_eq]
    refine lt_of_lt_of_le hsmall (mul_le_mul_of_nonneg_right ?_ (by positivity))
    norm_num

/-- For the largest numbers the rounding decides. -/
theorem roundedMagnitude_lt_iff_of_large (hr : 0 < r) (hk : floorLog2 r = 1023) :
    roundedMagnitude r < infiniteMagnitude ↔ r < overflow := by
  have hscale : scaleAround r = 971 := by
    rw [scaleAround, hk]
    rfl
  have hpos : (0 : Rat) < 2 ^ (971 : Int) := by positivity
  have hquotient : 0 ≤ r / (2 : Rat) ^ (971 : Int) := by positivity
  have hround := le_roundHalfEven_iff hquotient (n := 2 ^ 53) (by decide)
  rw [le_div_iff₀ hpos, ← not_lt, ← not_lt, not_iff_not] at hround
  have hcount : ((971 : Int) + 1074).toNat = 2045 := rfl
  have hwidth : infiniteMagnitude = 2047 * exponentWeight := rfl
  have hdouble : 2 * exponentWeight = 2 ^ 53 := rfl
  rw [overflow_eq, ← hround, roundedMagnitude, hscale, hcount]
  omega

/-- Beyond the last leading power there is no number. -/
theorem roundedMagnitude_ge_of_huge (hr : 0 < r) (hk : 1023 < floorLog2 r) :
    infiniteMagnitude ≤ roundedMagnitude r ∧ (overflow : Rat) ≤ r := by
  have htwo : (2 : Rat) ≠ 0 := by norm_num
  obtain ⟨hle, -⟩ := floorLog2_spec hr
  have hscale : scaleAround r = floorLog2 r - 52 := by
    rw [scaleAround]
    omega
  constructor
  · have hpos : (0 : Rat) < 2 ^ scaleAround r := by positivity
    have hquotient : 0 ≤ r / (2 : Rat) ^ scaleAround r := by positivity
    have hcount := Nat.mul_le_mul_right exponentWeight
      (show 2046 ≤ (scaleAround r + 1074).toNat by omega)
    have hfull : ((2 ^ 52 : Nat) : Rat) ≤ r / (2 : Rat) ^ scaleAround r := by
      rw [le_div_iff₀ hpos, hscale, Nat.cast_pow, ← zpow_natCast, Nat.cast_ofNat,
        ← zpow_add₀ htwo]
      simpa using hle
    have hround : 2 ^ 52 ≤ roundHalfEven (r / (2 : Rat) ^ scaleAround r) := by
      refine (le_roundHalfEven_iff hquotient (by decide)).2 ?_
      linarith
    have hwidth : infiniteMagnitude = 2047 * exponentWeight := rfl
    have hone : exponentWeight = 2 ^ 52 := rfl
    rw [roundedMagnitude]
    omega
  · have hlarge : (2 ^ 53 : Nat) * (2 : Rat) ^ (971 : Int) ≤ r := by
      refine le_trans ?_ hle
      rw [Nat.cast_pow, ← zpow_natCast, Nat.cast_ofNat, ← zpow_add₀ htwo]
      exact zpow_le_zpow_right₀ (by norm_num) (by omega)
    rw [overflow_eq]
    refine le_trans (mul_le_mul_of_nonneg_right ?_ (by positivity)) hlarge
    norm_num

/-- The leading power of two decides, and for the largest numbers the rounding. -/
theorem roundedMagnitude_lt_iff (hr : 0 < r) :
    roundedMagnitude r < infiniteMagnitude ↔ r < overflow := by
  rcases lt_trichotomy (floorLog2 r) 1023 with hk | hk | hk
  · obtain ⟨hmagnitude, hvalue⟩ := roundedMagnitude_lt_of_small hr hk
    exact iff_of_true hmagnitude hvalue
  · exact roundedMagnitude_lt_iff_of_large hr hk
  · obtain ⟨hmagnitude, hvalue⟩ := roundedMagnitude_ge_of_huge hr hk
    exact iff_of_false (not_lt.2 hmagnitude) (not_lt.2 hvalue)

/-- **What rounds to a finite number.** -/
theorem isFinite_nearest_iff (hr : 0 ≤ r) : (nearest r).isFinite = true ↔ r < overflow := by
  rcases hr.eq_or_lt with rfl | hpos
  · simp only [overflow_pos, iff_true]
    rfl
  · rw [isFinite, decide_eq_true_iff, magnitude_nearest hpos, ← roundedMagnitude_lt_iff hpos]
    omega

/-- What is too large rounds to infinity. -/
theorem nearest_of_overflow_le (hr : overflow ≤ r) :
    nearest r = ofMagnitude false infiniteMagnitude := by
  have hpos : 0 < r := lt_of_lt_of_le overflow_pos hr
  have hlarge : ¬roundedMagnitude r < infiniteMagnitude := by
    rw [roundedMagnitude_lt_iff hpos]
    exact not_lt.2 hr
  rw [nearest_of_pos hpos, Nat.min_eq_right (not_lt.1 hlarge)]

/-- What is too small rounds to zero. -/
theorem nearest_of_lt (hr : r < (2 : Rat) ^ (-1075 : Int)) : nearest r = zero := by
  rcases le_or_gt r 0 with hzero | hpos
  · exact if_pos hzero
  · have hlog : floorLog2 r < -1075 := by
      obtain ⟨hle, -⟩ := floorLog2_spec hpos
      exact (zpow_lt_zpow_iff_right₀ (by norm_num)).1 (lt_of_le_of_lt hle hr)
    have hscale : scaleAround r = -1074 := by
      rw [scaleAround]
      omega
    have hround : roundHalfEven (r / (2 : Rat) ^ (-1074 : Int)) = 0 := by
      refine roundHalfEven_of_lt (by positivity) ?_
      rw [div_lt_iff₀ (by positivity), one_div, ← zpow_neg_one,
        ← zpow_add₀ (by norm_num)]
      exact hr
    rw [nearest_of_pos hpos, roundedMagnitude, hscale, hround]
    rfl

end Binary64

end GraphIndex
