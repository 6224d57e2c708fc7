/-
**Spreading digests.**  No two digests are spread to the same word, and no word is left out.

A table looks at the low bits of a spread digest only.  Two values whose digests differ can still have
the same home, but only because the high bits are dropped after spreading: spreading itself can be taken
back.  It folds the upper half of a word into the lower one, which undoes itself, and multiplies by odd
words, which have inverses modulo `2 ^ 64`.  Hence every slot of a table is the home of equally many
digests.

Main definitions:

* `Digest.unspread` — the steps of spreading, taken back in reverse;
* `Digest.homedAt` — the digests with the same home.

Main results:

* `Digest.foldUpper_foldUpper` — folding undoes itself;
* `Digest.unspread_spread`, `Digest.spread_unspread` — spreading is taken back, on either side;
* `Digest.ncard_homedAt` — the slots of a table share the digests equally;
* `Digest.spread_bijective` — **spreading merges no digests**.
-/
import GraphIndex.Proofs.ProbeTable.Invariant
import Mathlib.Data.Set.Card

set_option autoImplicit false

namespace GraphIndex

namespace Digest

/-! ### Taking the steps back -/

/-- **Folding undoes itself**, because less than half of a word is left after shifting it down. -/
theorem foldUpper_foldUpper (w : UInt64) : foldUpper (foldUpper w) = w := by
  have hfold : ∀ v, (foldUpper v).toBitVec = v.toBitVec ^^^ v.toBitVec >>> 33 := fun _ => rfl
  rw [← UInt64.toBitVec_inj, hfold, hfold]
  refine BitVec.eq_of_getLsbD_eq fun i hi => ?_
  simp only [BitVec.getLsbD_xor, BitVec.getLsbD_ushiftRight]
  have hout : w.toBitVec.getLsbD (33 + (33 + i)) = false := BitVec.getLsbD_of_ge _ _ (by omega)
  rw [hout, Bool.xor_false, Bool.xor_assoc, Bool.xor_self, Bool.xor_false]

/-- A multiplication is taken back by the inverse modulo `2 ^ 64`. -/
theorem mul_mul_cancel {m n : UInt64} (h : m * n = 1) (w : UInt64) : w * m * n = w := by
  rw [UInt64.mul_assoc, h, UInt64.mul_one]

/-- The digest that is spread to a word. -/
def unspread (w : UInt64) : UInt64 :=
  foldUpper (foldUpper (foldUpper w * 0x9cb4b2f8129337db) * 0x4f74430c22a54005)

theorem unspread_spread (h : UInt64) : unspread (spread h) = h := by
  rw [unspread, spread, foldUpper_foldUpper, mul_mul_cancel (by decide), foldUpper_foldUpper,
    mul_mul_cancel (by decide), foldUpper_foldUpper]

theorem spread_unspread (w : UInt64) : spread (unspread w) = w := by
  rw [unspread, spread, foldUpper_foldUpper, mul_mul_cancel (by decide), foldUpper_foldUpper,
    mul_mul_cancel (by decide), foldUpper_foldUpper]

theorem spread_inj {x y : UInt64} : spread x = spread y ↔ x = y := by
  constructor
  · intro h
    rw [← unspread_spread x, h, unspread_spread]
  · intro h
    rw [h]

/-! ### Homes -/

/-- The digests whose home is slot `i` in a table with `c` slots. -/
def homedAt (c i : Nat) : Set UInt64 :=
  {h | (spread h).toNat % c = i}

/-- The digest whose spread has the given low and high bits. -/
theorem toNat_spread_unspread {k i q : Nat} (hk : k ≤ 64) (hi : i < 2 ^ k) (hq : q < 2 ^ (64 - k)) :
    (spread (unspread (.ofNat (i + 2 ^ k * q)))).toNat = i + 2 ^ k * q := by
  rw [spread_unspread]
  refine UInt64.toNat_ofNat_of_lt' ?_
  calc i + 2 ^ k * q < 2 ^ k * (q + 1) := by rw [Nat.mul_add_one]; omega
    _ ≤ 2 ^ k * 2 ^ (64 - k) := Nat.mul_le_mul_left _ hq
    _ = 2 ^ 64 := by rw [← Nat.pow_add, Nat.add_sub_cancel' hk]

/-- The digests with the same home are told apart by the high bits of their spreads. -/
theorem homedAt_eq_image {k i : Nat} (hk : k ≤ 64) (hi : i < 2 ^ k) :
    homedAt (2 ^ k) i =
      (fun q => unspread (.ofNat (i + 2 ^ k * q))) '' ↑(Finset.range (2 ^ (64 - k))) := by
  ext h
  simp only [Set.mem_image, Finset.mem_coe, Finset.mem_range]
  constructor
  · intro hlow
    refine ⟨(spread h).toNat / 2 ^ k, ?_, ?_⟩
    · rw [Nat.div_lt_iff_lt_mul (Nat.two_pow_pos k), ← Nat.pow_add, Nat.sub_add_cancel hk]
      exact (spread h).toNat_lt
    · have hsplit : i + 2 ^ k * ((spread h).toNat / 2 ^ k) = (spread h).toNat := by
        rw [← show (spread h).toNat % 2 ^ k = i from hlow, Nat.mod_add_div]
      rw [hsplit, UInt64.ofNat_toNat, unspread_spread]
  · rintro ⟨q, hq, rfl⟩
    show _ % 2 ^ k = i
    rw [toNat_spread_unspread hk hi hq, Nat.add_mul_mod_self_left, Nat.mod_eq_of_lt hi]

/-- **The slots of a table share the digests equally.** -/
theorem ncard_homedAt {k i : Nat} (hk : k ≤ 64) (hi : i < 2 ^ k) :
    (homedAt (2 ^ k) i).ncard = 2 ^ (64 - k) := by
  have hinj : Set.InjOn (fun q => unspread (.ofNat (i + 2 ^ k * q)))
      ↑(Finset.range (2 ^ (64 - k))) := by
    intro p hp q hq hpq
    simp only [Finset.mem_coe, Finset.mem_range] at hp hq
    have heq := congrArg (fun h => (spread h).toNat) hpq
    simp only [toNat_spread_unspread hk hi hp, toNat_spread_unspread hk hi hq] at heq
    exact Nat.eq_of_mul_eq_mul_left (Nat.two_pow_pos k) (Nat.add_left_cancel heq)
  rw [homedAt_eq_image hk hi, hinj.ncard_image, Set.ncard_coe_finset,
    Finset.card_range]

/-- **Spreading merges no digests.**  Different digests have different spreads, and every word is the
spread of a digest.  What a table looks at is the remainder of the spread alone, so values meet at a home
only when bits are dropped after spreading, and in a table of `2 ^ k` slots each slot is the home of
`2 ^ (64 - k)` digests. -/
theorem spread_bijective :
    (∀ x y, spread x = spread y ↔ x = y) ∧ Function.Surjective spread ∧
    (∀ (α : Type) [Digest α] (t : ProbeTable α) (a : α) (i : Nat),
      t.home a = i ↔ digest a ∈ homedAt t.capacity i) ∧
    ∀ (k : Fin 65) (i : Fin (2 ^ k.val)),
      (homedAt (2 ^ k.val) i).ncard = 2 ^ (64 - k.val) :=
  ⟨fun _ _ => spread_inj, fun w => ⟨unspread w, spread_unspread w⟩, fun _ _ _ _ _ => Iff.rfl,
    fun k i => ncard_homedAt (Nat.le_of_lt_succ k.isLt) i.isLt⟩

end Digest

end GraphIndex
