/-
**Tokens of JSON text.**  Brackets, marks, words, numbers and strings, read from a list of
characters.

Blanks separate tokens and mean nothing.  A number has no superfluous zero in front and at least
one digit wherever digits may stand.  A string holds no control character, and its escapes are
read as 16-bit units; a unit from the surrogate range counts only as part of a pair.

Main definitions:

* `Json.Token` — the type;
* `Json.readNumeral?`, `Json.readUnits?` — reading a number, and a string after its opening quote;
* `Json.ofUnits?` — the text that a sequence of units stands for;
* `Json.Token.scan?` — all tokens of a text.

Main results:

* `Json.Token.length_next?` — a token takes at least one character, so that scanning ends.
-/
import GraphIndex.Json.Basic

set_option autoImplicit false

namespace GraphIndex

namespace Json

/-! ### Numbers -/

/-- The digits at the front of a text, and what follows them. -/
def readDigits : List Char → List Nat × List Char
  | [] => ([], [])
  | c :: cs =>
      if c.isDigit then
        let (ds, rest) := readDigits cs
        ((c.toNat - '0'.toNat) :: ds, rest)
      else ([], c :: cs)

/-- Digits and what follows them take up the whole text. -/
theorem length_readDigits (cs : List Char) :
    (readDigits cs).1.length + (readDigits cs).2.length = cs.length := by
  induction cs with
  | nil => rfl
  | cons c cs ih =>
      unfold readDigits
      split
      · simp only [List.length_cons]; omega
      · simp

/-- The digits at the front of a text that has at least one. -/
def readSomeDigits? (cs : List Char) : Option (List Nat × List Char) :=
  let (ds, rest) := readDigits cs
  if ds.isEmpty then none else some (ds, rest)

/-- At least one digit is taken. -/
theorem length_readSomeDigits? {cs rest : List Char} {ds : List Nat}
    (h : readSomeDigits? cs = some (ds, rest)) : rest.length < cs.length := by
  have hlen := length_readDigits cs
  unfold readSomeDigits? at h
  simp only [Option.ite_none_left_eq_some, Option.some.injEq] at h
  obtain ⟨hne, heq⟩ := h
  simp only [Prod.ext_iff] at heq
  obtain ⟨rfl, rfl⟩ := heq
  cases hds : (readDigits cs).1 with
  | nil => simp [hds] at hne
  | cons d ds => simp only [hds, List.length_cons] at hlen; omega

/-- The digits before the point: a zero stands alone. -/
def readWhole? : List Char → Option (List Nat × List Char)
  | '0' :: rest => some ([0], rest)
  | cs => readSomeDigits? cs

/-- At least one digit is taken. -/
theorem length_readWhole? {cs rest : List Char} {ds : List Nat}
    (h : readWhole? cs = some (ds, rest)) : rest.length < cs.length := by
  unfold readWhole? at h
  split at h
  · simp only [Option.some.injEq, Prod.mk.injEq] at h
    simp [← h.2]
  · exact length_readSomeDigits? h

/-- A point and the digits after it, if there is a point. -/
def readFraction? : List Char → Option (List Nat × List Char)
  | '.' :: rest => readSomeDigits? rest
  | cs => some ([], cs)

/-- Nothing is put back. -/
theorem length_readFraction? {cs rest : List Char} {ds : List Nat}
    (h : readFraction? cs = some (ds, rest)) : rest.length ≤ cs.length := by
  unfold readFraction? at h
  split at h
  · have := length_readSomeDigits? h
    simp only [List.length_cons]; omega
  · simp only [Option.some.injEq, Prod.mk.injEq] at h
    simp [← h.2]

/-- A sign and the digits after it. -/
def readSigned? : List Char → Option (Int × List Char)
  | '-' :: rest => (readSomeDigits? rest).map fun (ds, r) => (-(ofDigits ds : Int), r)
  | '+' :: rest => (readSomeDigits? rest).map fun (ds, r) => ((ofDigits ds : Int), r)
  | cs => (readSomeDigits? cs).map fun (ds, r) => ((ofDigits ds : Int), r)

/-- At least one character is taken. -/
theorem length_readSigned? {cs rest : List Char} {e : Int}
    (h : readSigned? cs = some (e, rest)) : rest.length < cs.length := by
  unfold readSigned? at h
  split at h
  all_goals
    simp only [Option.map_eq_some_iff, Prod.mk.injEq, Prod.exists] at h
    obtain ⟨ds, r, hr, _, rfl⟩ := h
    have := length_readSomeDigits? hr
    grind

/-- A power of ten, if there is one. -/
def readExponent? : List Char → Option (Option Int × List Char)
  | 'e' :: rest => (readSigned? rest).map fun (e, r) => (some e, r)
  | 'E' :: rest => (readSigned? rest).map fun (e, r) => (some e, r)
  | cs => some (none, cs)

/-- Nothing is put back. -/
theorem length_readExponent? {cs rest : List Char} {e : Option Int}
    (h : readExponent? cs = some (e, rest)) : rest.length ≤ cs.length := by
  unfold readExponent? at h
  split at h
  case h_3 =>
    simp only [Option.some.injEq, Prod.mk.injEq] at h
    simp [← h.2]
  all_goals
    simp only [Option.map_eq_some_iff, Prod.mk.injEq, Prod.exists] at h
    obtain ⟨ds, r, hr, _, rfl⟩ := h
    have := length_readSigned? hr
    simp only [List.length_cons] at *
    omega

/-- The minus sign at the front of a text. -/
def readMinus : List Char → Bool × List Char
  | '-' :: rest => (true, rest)
  | cs => (false, cs)

/-- Nothing is put back. -/
theorem length_readMinus (cs : List Char) : (readMinus cs).2.length ≤ cs.length := by
  unfold readMinus
  split <;> simp

/-- A number at the front of a text. -/
def readNumeral? (cs : List Char) : Option (Numeral × List Char) :=
  (readWhole? (readMinus cs).2).bind fun (whole, r₁) =>
    (readFraction? r₁).bind fun (fraction, r₂) =>
      (readExponent? r₂).map fun (exponent, r₃) =>
        (⟨(readMinus cs).1, whole, fraction, exponent⟩, r₃)

/-- At least one character is taken. -/
theorem length_readNumeral? {cs rest : List Char} {n : Numeral}
    (h : readNumeral? cs = some (n, rest)) : rest.length < cs.length := by
  simp only [readNumeral?, Option.bind_eq_some_iff, Option.map_eq_some_iff, Prod.exists,
    Prod.mk.injEq] at h
  obtain ⟨whole, r₁, h₁, fraction, r₂, h₂, exponent, r₃, h₃, _, rfl⟩ := h
  have hm := length_readMinus cs
  have hw := length_readWhole? h₁
  have hf := length_readFraction? h₂
  have he := length_readExponent? h₃
  omega

/-! ### Strings -/

/-- The value of a hexadecimal digit. -/
def hexValue? (c : Char) : Option Nat :=
  if '0' ≤ c ∧ c ≤ '9' then some (c.toNat - '0'.toNat)
  else if 'a' ≤ c ∧ c ≤ 'f' then some (c.toNat - 'a'.toNat + 10)
  else if 'A' ≤ c ∧ c ≤ 'F' then some (c.toNat - 'A'.toNat + 10)
  else none

/-- The unit that four hexadecimal digits stand for. -/
def hexUnit? (a b c d : Char) : Option Nat :=
  ([a, b, c, d].mapM hexValue?).map fun vs => vs.foldl (fun n v => 16 * n + v) 0

/-- The unit that a backslash and one more character stand for. -/
def shortEscape? (c : Char) : Option Nat :=
  match c with
  | '"' => some 0x22
  | '\\' => some 0x5c
  | '/' => some 0x2f
  | 'b' => some 0x08
  | 'f' => some 0x0c
  | 'n' => some 0x0a
  | 'r' => some 0x0d
  | 't' => some 0x09
  | _ => none

/-- The units of a string up to its closing quote.  A unit is a code point, or half of one. -/
def readUnits? : List Char → Option (List Nat × List Char)
  | [] => none
  | '"' :: rest => some ([], rest)
  | '\\' :: 'u' :: a :: b :: c :: d :: rest =>
      (hexUnit? a b c d).bind fun u => (readUnits? rest).map fun (us, r) => (u :: us, r)
  | '\\' :: c :: rest =>
      (shortEscape? c).bind fun u => (readUnits? rest).map fun (us, r) => (u :: us, r)
  | c :: rest =>
      if c.toNat < 32 then none else (readUnits? rest).map fun (us, r) => (c.toNat :: us, r)

/-- The closing quote is taken. -/
theorem length_readUnits? {cs rest : List Char} {us : List Nat}
    (h : readUnits? cs = some (us, rest)) : rest.length < cs.length := by
  fun_induction readUnits? cs generalizing us rest with
  | case1 => simp at h
  | case2 =>
      simp only [Option.some.injEq, Prod.mk.injEq] at h
      simp [← h.2]
  | case3 a b c d r ih =>
      simp only [Option.bind_eq_some_iff, Option.map_eq_some_iff, Prod.exists, Prod.mk.injEq] at h
      obtain ⟨u, _, vs, s, hs, _, rfl⟩ := h
      have := ih hs
      simp only [List.length_cons]; omega
  | case4 c r _ ih =>
      simp only [Option.bind_eq_some_iff, Option.map_eq_some_iff, Prod.exists, Prod.mk.injEq] at h
      obtain ⟨u, _, vs, s, hs, _, rfl⟩ := h
      have := ih hs
      simp only [List.length_cons]; omega
  | case5 => simp at h
  | case6 c r _ _ _ _ ih =>
      simp only [Option.map_eq_some_iff, Prod.exists, Prod.mk.injEq] at h
      obtain ⟨vs, s, hs, _, rfl⟩ := h
      have := ih hs
      simp only [List.length_cons]; omega

/-- The first half of a code point above 65535. -/
def isHighHalf (u : Nat) : Bool :=
  decide (0xd800 ≤ u ∧ u < 0xdc00)

/-- The second half of a code point above 65535. -/
def isLowHalf (u : Nat) : Bool :=
  decide (0xdc00 ≤ u ∧ u < 0xe000)

/-- The characters that units stand for; half a code point stands for none. -/
def charsOfUnits? : List Nat → Option (List Char)
  | [] => some []
  | [u] => if isHighHalf u || isLowHalf u then none else some [Char.ofNat u]
  | u :: v :: rest =>
      if isHighHalf u then
        if isLowHalf v then
          (charsOfUnits? rest).map
            (Char.ofNat (0x10000 + (u - 0xd800) * 0x400 + (v - 0xdc00)) :: ·)
        else none
      else if isLowHalf u then none
      else (charsOfUnits? (v :: rest)).map (Char.ofNat u :: ·)

/-- The text that units stand for. -/
def ofUnits? (us : List Nat) : Option String :=
  (charsOfUnits? us).map String.ofList

/-! ### Tokens -/

/-- The smallest pieces of JSON text. -/
inductive Token where
  | openArray
  | closeArray
  | openObject
  | closeObject
  | comma
  | colon
  | null
  | bool (b : Bool)
  | number (n : Numeral)
  /-- A string, or nothing for one that is no Unicode text. -/
  | text (s : Option String)
  deriving DecidableEq, Repr

/-- The characters that only separate tokens. -/
def isBlank (c : Char) : Bool :=
  c = ' ' || c = '\t' || c = '\n' || c = '\r'

namespace Token

/-- The token at the front of a text without leading blanks. -/
def next? : List Char → Option (Token × List Char)
  | '[' :: rest => some (openArray, rest)
  | ']' :: rest => some (closeArray, rest)
  | '\x7b' :: rest => some (openObject, rest)
  | '\x7d' :: rest => some (closeObject, rest)
  | ',' :: rest => some (comma, rest)
  | ':' :: rest => some (colon, rest)
  | '"' :: rest => (readUnits? rest).map fun (us, r) => (text (ofUnits? us), r)
  | 'n' :: 'u' :: 'l' :: 'l' :: rest => some (null, rest)
  | 't' :: 'r' :: 'u' :: 'e' :: rest => some (bool true, rest)
  | 'f' :: 'a' :: 'l' :: 's' :: 'e' :: rest => some (bool false, rest)
  | cs => (readNumeral? cs).map fun (n, r) => (number n, r)

/-- A token takes at least one character. -/
theorem length_next? {cs rest : List Char} {t : Token} (h : next? cs = some (t, rest)) :
    rest.length < cs.length := by
  unfold next? at h
  split at h
  case h_7 =>
    simp only [Option.map_eq_some_iff, Prod.exists, Prod.mk.injEq] at h
    obtain ⟨us, r, hr, _, rfl⟩ := h
    have := length_readUnits? hr
    simp only [List.length_cons]; omega
  case h_11 =>
    simp only [Option.map_eq_some_iff, Prod.exists, Prod.mk.injEq] at h
    obtain ⟨n, r, hr, _, rfl⟩ := h
    exact length_readNumeral? hr
  all_goals
    simp only [Option.some.injEq, Prod.mk.injEq] at h
    simp only [← h.2, List.length_cons]; omega

/-- The tokens of a text. -/
def scan? (cs : List Char) : Option (List Token) :=
  match cs with
  | [] => some []
  | c :: rest =>
      if isBlank c then scan? rest
      else
        match _h : next? (c :: rest) with
        | none => none
        | some (t, r) => (scan? r).map (t :: ·)
termination_by cs.length
decreasing_by
  · simp
  · exact length_next? _h

end Token

end Json

end GraphIndex
