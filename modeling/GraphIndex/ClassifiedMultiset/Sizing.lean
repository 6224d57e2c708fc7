/-
**Sizing of a multiset.**  How many buckets there are at first, and when their number changes.

The options name a number of buckets and two watermarks, as double-precision numbers.  Options are
accepted if halving a table that is below the shrinking watermark cannot bring it above the growth
watermark at once.  For accepted options the number of buckets is rounded up to a power of two, which
overflows if it is not a word of 64 bits any more, and the watermarks become exact ratios.

Main definitions:

* `SizingOptions` — the options;
* `SizingOptions.fault?` — why options are refused, the first reason first;
* `SizingOptions.leastCapacity?` — the number of buckets to begin with, if it does not overflow;
* `Sizing`, `SizingOptions.sizing?` — options as they are used, with the watermarks as rationals.
-/
import GraphIndex.Binary64.Basic
import GraphIndex.Error

set_option autoImplicit false

namespace GraphIndex

/-- The options of a multiset. -/
structure SizingOptions where
  /-- The number of buckets to begin with. -/
  capacity : UInt64
  /-- The table is doubled when more than this share of its buckets is in use. -/
  growLoad : Binary64
  /-- The table is halved when less than this share of its buckets is in use. -/
  shrinkLoad : Binary64
  deriving DecidableEq, Repr

/-- Options as they are used. -/
structure Sizing where
  /-- The number of buckets of an empty table, a power of two. -/
  floor : Nat
  /-- The growth watermark. -/
  growLoad : Rat
  /-- The shrinking watermark. -/
  shrinkLoad : Rat
  deriving DecidableEq, Repr

/-- Why there is no table for options. -/
inductive SizingFailure where
  /-- The options are refused. -/
  | refused (error : IndexError)
  /-- The options are accepted, but their number of buckets is too large to be rounded up. -/
  | overflow
  deriving DecidableEq, Repr

/-- Sixteen buckets, and watermarks of three quarters and of one quarter. -/
def Sizing.standard : Sizing :=
  ⟨16, 3 / 4, 1 / 4⟩

/-- The exponent of the least power of two that is not below a number. -/
def ceilLog2 (n : Nat) : Nat :=
  if n ≤ 1 then 0 else Nat.log2 (n - 1) + 1

namespace SizingOptions

/-- Sixteen buckets, and watermarks of three quarters and of one quarter. -/
def standard : SizingOptions where
  capacity := 16
  growLoad := Binary64.nearest (3 / 4)
  shrinkLoad := Binary64.nearest (1 / 4)

/-- The growth watermark is a number above zero and not above one. -/
def acceptsGrowLoad (o : SizingOptions) : Bool :=
  o.growLoad.isFinite && decide (0 < o.growLoad.toRat) && decide (o.growLoad.toRat ≤ 1)

/-- The shrinking watermark is a number that is not negative and below half of the growth
watermark. -/
def acceptsShrinkLoad (o : SizingOptions) : Bool :=
  o.shrinkLoad.isFinite && decide (0 ≤ o.shrinkLoad.toRat)
    && decide (o.shrinkLoad.toRat * 2 < o.growLoad.toRat)

/-- The first reason to refuse the options, if there is one. -/
def fault? (o : SizingOptions) : Option SizingFault :=
  if o.capacity = 0 then some .noCapacity
  else if !o.acceptsGrowLoad then some .growLoad
  else if !o.acceptsShrinkLoad then some .shrinkLoad
  else none

/-- The number of buckets of an empty table: the capacity, rounded up to a power of two.  There is none
if a word of 64 bits has no room for it. -/
def leastCapacity? (o : SizingOptions) : Option Nat :=
  let k := ceilLog2 (max 1 o.capacity.toNat)
  if k < 64 then some (1 <<< k) else none

/-- The options as they are used, if they are accepted and do not overflow. -/
def sizing? (o : SizingOptions) : Except SizingFailure Sizing :=
  match o.fault?, o.leastCapacity? with
  | some fault, _ => .error (.refused (.invalidSizing fault))
  | none, none => .error .overflow
  | none, some floor =>
      .ok { floor, growLoad := o.growLoad.toRat, shrinkLoad := o.shrinkLoad.toRat }

theorem sizing?_eq_ok {o : SizingOptions} {s : Sizing} (ho : o.fault? = none)
    (hfloor : o.leastCapacity? = some s.floor) (hgrow : o.growLoad.toRat = s.growLoad)
    (hshrink : o.shrinkLoad.toRat = s.shrinkLoad) : o.sizing? = .ok s := by
  rw [sizing?, ho, hfloor, hgrow, hshrink]

/-- The standard options are accepted. -/
theorem sizing?_standard : standard.sizing? = .ok Sizing.standard :=
  sizing?_eq_ok (by decide +kernel) (by decide +kernel) (by decide +kernel) (by decide +kernel)

end SizingOptions

end GraphIndex
