/-
**Digests.**  The 64-bit digest that decides where a value is kept in a hashed container.

A value is laid out as a sequence of 64-bit words, and the words are folded into one word by a
rotation, an exclusive or and a multiplication.  Byte strings are packed into words first, the
lowest byte first.  A table that keeps only the low bits of a digest spreads it first
(`spread`), so that the high bits of the digest take part in the choice.

Main definitions:

* `Digest` — the class of types whose values have a digest;
* `LawfulDigest` — equal values have equal digests;
* `Digest.ofWords` — the digest of a sequence of words;
* `Digest.wordsOfBytes` — a byte string as a sequence of words;
* `Digest.spread` — the mixing step that comes before the low bits are taken.
-/

set_option autoImplicit false

namespace GraphIndex

/-- A type whose values have a 64-bit digest. -/
class Digest (α : Type) where
  /-- The digest of a value. -/
  digest : α → UInt64

export Digest (digest)

/-- Values that are equal have equal digests. -/
class LawfulDigest (α : Type) [BEq α] [Digest α] : Prop where
  /-- The digest respects equality. -/
  digest_eq : ∀ {a b : α}, (a == b) = true → digest a = digest b

namespace Digest

/-! ### Folding words -/

/-- One more word is absorbed into a digest. -/
def absorb (h w : UInt64) : UInt64 :=
  ((h <<< 5 ||| h >>> 59) ^^^ w) * 0x517cc1b727220a95

/-- The digest of a sequence of words. -/
def ofWords (ws : List UInt64) : UInt64 :=
  ws.foldl absorb 0

/-! ### Byte strings as words -/

/-- The word whose lowest byte comes first. -/
def littleEndian (bs : List UInt8) : UInt64 :=
  bs.foldr (fun b w => w <<< 8 ||| b.toUInt64) 0

/-- Fewer than eight bytes become a word of four, then a word of two, then a word of one. -/
def tailWords (bs : List UInt8) : List UInt64 :=
  [4, 2, 1].foldl
    (fun (acc : List UInt64 × List UInt8) n =>
      if n ≤ acc.2.length then (acc.1 ++ [littleEndian (acc.2.take n)], acc.2.drop n) else acc)
    ([], bs) |>.1

/-- A byte string as words: eight bytes at a time, then what is left of it. -/
def wordsOfBytes : List UInt8 → List UInt64
  | a :: b :: c :: d :: e :: f :: g :: h :: rest =>
      littleEndian [a, b, c, d, e, f, g, h] :: wordsOfBytes rest
  | rest => tailWords rest

/-! ### Spreading -/

/-- The word is exclusive-ored with its own upper half, shifted down. -/
def foldUpper (w : UInt64) : UInt64 :=
  w ^^^ (w >>> 33)

/-- Every bit of a digest is made to bear on its low bits. -/
def spread (h : UInt64) : UInt64 :=
  foldUpper (foldUpper (foldUpper h * 0xff51afd7ed558ccd) * 0xc4ceb9fe1a85ec53)

end Digest

/-- A word is its own layout. -/
instance : Digest UInt64 where
  digest w := Digest.ofWords [w]

instance : LawfulDigest UInt64 where
  digest_eq h := by rw [eq_of_beq h]

end GraphIndex
