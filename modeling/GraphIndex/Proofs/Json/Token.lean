/-
**Tokens of what is written.**  Numbers and strings are read as they were written, whatever follows.

Digits are read as far as they go.  So a number is read back if what follows cannot go on with it,
which is the case at every comma, at every closing bracket and at the end of the text.  A string ends
with its closing quote, and of the characters before it, those that would end it or are not allowed have
been escaped.

In the other direction, every number that is read is one that can be written.

Main definitions:

* `Json.EndsNumber` — a text that does not go on with a number.

Main results:

* `Json.readNumeral?_text`, `Json.Token.next?_numeral` — **a number is read back**;
* `Json.readUnits?_quoted`, `Json.ofUnits?_unitsOf`, `Json.Token.next?_quote` — **a string is read
  back**;
* `Json.Token.spelled_of_scan?` — what is read as a number can be written.
-/
import GraphIndex.Json.Token
import GraphIndex.Proofs.Numeral

set_option autoImplicit false

namespace GraphIndex

open Numeral (spell digitsOf Spelled)

namespace Json

/-! ### Digits -/

theorem toList_spell (ds : List Nat) : (spell ds).toList = ds.map Nat.digitChar := by
  rw [spell, String.toList_ofList]

theorem digitChar_sub {c : Char} (h : c.isDigit = true) :
    Nat.digitChar (c.toNat - '0'.toNat) = c ∧ c.toNat - '0'.toNat < 10 := by
  rw [Char.isDigit_iff_toNat] at h
  have hzero : '0'.toNat = 48 := rfl
  have hnine : '9'.toNat = 57 := rfl
  have hlt : c.toNat - '0'.toNat < 10 := by omega
  refine ⟨Char.toNat_inj.1 ?_, hlt⟩
  rw [Nat.toNat_digitChar_of_lt_ten hlt]
  omega

/-- The text does not go on with a number. -/
def EndsNumber (cs : List Char) : Prop :=
  ∀ c, cs.head? = some c → c.isDigit = false ∧ c ≠ '.' ∧ c ≠ 'e' ∧ c ≠ 'E'

/-- The text does not go on with a digit. -/
def EndsDigits (cs : List Char) : Prop :=
  ∀ c, cs.head? = some c → c.isDigit = false

theorem EndsNumber.endsDigits {cs : List Char} (h : EndsNumber cs) : EndsDigits cs :=
  fun c hc => (h c hc).1

theorem readDigits_of_endsDigits {rest : List Char} (h : EndsDigits rest) :
    readDigits rest = ([], rest) := by
  cases rest with
  | nil => rfl
  | cons c cs =>
      rw [readDigits, if_neg]
      rw [h c rfl]
      exact Bool.false_ne_true

/-- **Digits are read back**, as far as they go. -/
theorem readDigits_append {ds : List Nat} (hds : ∀ d ∈ ds, d < 10) {rest : List Char}
    (h : EndsDigits rest) : readDigits (ds.map Nat.digitChar ++ rest) = (ds, rest) := by
  induction ds with
  | nil => exact readDigits_of_endsDigits h
  | cons d ds ih =>
      have hd := hds d List.mem_cons_self
      have hdigit : d.digitChar.isDigit = true := by
        rw [Nat.isDigit_digitChar]
        exact decide_eq_true hd
      rw [List.map_cons, List.cons_append, readDigits, if_pos hdigit,
        ih fun e he => hds e (List.mem_cons_of_mem d he), Nat.toNat_digitChar_of_lt_ten hd]
      simp

theorem readSomeDigits?_append {ds : List Nat} (hds : ∀ d ∈ ds, d < 10) (hne : ds ≠ [])
    {rest : List Char} (h : EndsDigits rest) :
    readSomeDigits? (ds.map Nat.digitChar ++ rest) = some (ds, rest) := by
  rw [readSomeDigits?, readDigits_append hds h]
  simp [hne]

/-- What is read as digits are digits, written as they were. -/
theorem readSomeDigits?_spec {cs rest : List Char} {ds : List Nat}
    (h : readSomeDigits? cs = some (ds, rest)) :
    ds ≠ [] ∧ (∀ d ∈ ds, d < 10) ∧ cs = ds.map Nat.digitChar ++ rest := by
  have hread : ∀ cs, (∀ d ∈ (readDigits cs).1, d < 10) ∧
      cs = (readDigits cs).1.map Nat.digitChar ++ (readDigits cs).2 := by
    intro cs
    induction cs with
    | nil => exact ⟨nofun, rfl⟩
    | cons c cs ih =>
        rw [readDigits]
        split
        · next hdigit =>
            obtain ⟨hchar, hlt⟩ := digitChar_sub hdigit
            refine ⟨?_, ?_⟩
            · intro d hd
              rcases List.mem_cons.1 hd with rfl | hd
              · exact hlt
              · exact ih.1 d hd
            · rw [List.map_cons, hchar, List.cons_append, ← ih.2]
        · exact ⟨nofun, rfl⟩
  obtain ⟨hlt, hcs⟩ := hread cs
  rw [readSomeDigits?] at h
  obtain ⟨hne, heq⟩ := Option.ite_none_left_eq_some.1 h
  have hpair : readDigits cs = (ds, rest) := Option.some_inj.1 heq
  rw [hpair] at hlt hcs hne
  exact ⟨by simpa using hne, hlt, hcs⟩

theorem isDigit_of_readSomeDigits? {c : Char} {cs : List Char} {p : List Nat × List Char}
    (h : readSomeDigits? (c :: cs) = some p) : c.isDigit = true := by
  by_contra hc
  rw [readSomeDigits?, readDigits, if_neg hc] at h
  simp at h

/-! ### Numbers -/

/-- The spelling of a fraction. -/
def fractionText (ds : List Nat) : String :=
  if ds.isEmpty then "" else "." ++ spell ds

/-- The spelling of a power of ten. -/
def exponentText (e : Option Int) : String :=
  match e with
  | none => ""
  | some e => "e" ++ toString e

section Numbers

variable {n : Numeral} {ds : List Nat} {rest : List Char}

theorem readWhole?_append (hds : ∀ d ∈ ds, d < 10) (hne : ds ≠ [])
    (hzero : ∀ es, ds = 0 :: es → es = []) (h : EndsDigits rest) :
    readWhole? (ds.map Nat.digitChar ++ rest) = some (ds, rest) := by
  cases ds with
  | nil => exact absurd rfl hne
  | cons d ds =>
      by_cases hd : d = 0
      · obtain rfl := hd
        obtain rfl := hzero ds rfl
        rfl
      · rw [← readSomeDigits?_append hds hne h, List.map_cons, List.cons_append, readWhole?]
        intro cs hcs
        rw [List.cons.injEq, Nat.digitChar_eq_zero] at hcs
        exact hd hcs.1

theorem readFraction?_append (hds : ∀ d ∈ ds, d < 10) (h : EndsDigits rest)
    (hpoint : rest.head? ≠ some '.') :
    readFraction? ((fractionText ds).toList ++ rest) =
      some (ds, rest) := by
  cases ds with
  | nil =>
      -- nothing is written, so what follows must not look like a fraction
      cases rest with
      | nil => rfl
      | cons c cs =>
          rw [fractionText, List.isEmpty_nil, if_pos rfl, String.toList_empty, List.nil_append,
            readFraction?]
          rintro cs' ⟨⟩
          exact hpoint rfl
  | cons d ds =>
      have hne : d :: ds ≠ [] := List.cons_ne_nil d ds
      rw [fractionText, List.isEmpty_cons, if_neg Bool.false_ne_true, String.toList_append,
        toList_spell]
      exact readSomeDigits?_append hds hne h

theorem map_digitsOf (n : Nat) : (digitsOf n).map Nat.digitChar = Nat.toDigits 10 n := by
  rw [digitsOf, List.map_map]
  refine (List.map_congr_left fun c hc => ?_).trans (List.map_id _)
  exact (digitChar_sub (Nat.isDigit_of_mem_toDigits (by omega) (by omega) hc)).1

theorem readSomeDigits?_repr (n : Nat) (h : EndsDigits rest) :
    readSomeDigits? (n.repr.toList ++ rest) = some (digitsOf n, rest) := by
  rw [Nat.toList_repr, ← map_digitsOf]
  exact readSomeDigits?_append (fun d hd => Numeral.digitsOf_lt hd) (Numeral.digitsOf_ne_nil n) h

theorem readSigned?_toString (e : Int) (h : EndsDigits rest) :
    readSigned? ((toString e).toList ++ rest) = some (e, rest) := by
  rw [Int.toString_eq_repr, Int.repr_eq_if]
  by_cases he : 0 ≤ e
  · have hread := readSomeDigits?_repr e.toNat h
    have hfirst : ∀ c cs, e.toNat.repr.toList ++ rest = c :: cs → c.isDigit = true := by
      intro c cs hcs
      exact isDigit_of_readSomeDigits? (hcs ▸ hread)
    rw [if_pos he, readSigned?, hread]
    · simp
      omega
    · exact fun cs hcs => absurd (hfirst _ cs hcs) (by decide)
    · exact fun cs hcs => absurd (hfirst _ cs hcs) (by decide)
  · rw [if_neg he, String.toList_append]
    change (readSomeDigits? ((-e).toNat.repr.toList ++ rest)).map _ = _
    rw [readSomeDigits?_repr (-e).toNat h]
    simp
    omega

theorem endsDigits_exponentText (e : Option Int) (h : EndsNumber rest) :
    EndsDigits ((exponentText e).toList ++ rest) ∧
      ((exponentText e).toList ++ rest).head? ≠ some '.' := by
  cases e with
  | none => exact ⟨h.endsDigits, fun hpoint => (h _ hpoint).2.1 rfl⟩
  | some e =>
      rw [exponentText, String.toList_append]
      refine ⟨?_, by simp⟩
      rintro c ⟨⟩
      rfl

theorem endsDigits_fractionText (ds : List Nat) (h : EndsDigits rest) :
    EndsDigits ((fractionText ds).toList ++ rest) := by
  cases ds with
  | nil => exact h
  | cons d ds =>
      rw [fractionText, List.isEmpty_cons, if_neg Bool.false_ne_true, String.toList_append]
      rintro c ⟨⟩
      rfl

theorem readExponent?_append (e : Option Int) (h : EndsNumber rest) :
    readExponent? ((exponentText e).toList ++ rest) =
      some (e, rest) := by
  cases e with
  | none =>
      cases rest with
      | nil => rfl
      | cons c cs =>
          obtain ⟨-, -, he, hE⟩ := h c rfl
          rw [exponentText, String.toList_empty, List.nil_append, readExponent?]
          · rintro cs' ⟨⟩
            exact he rfl
          · rintro cs' ⟨⟩
            exact hE rfl
  | some e =>
      rw [exponentText, String.toList_append]
      change (readSigned? ((toString e).toList ++ rest)).map _ = _
      rw [readSigned?_toString e h.endsDigits]
      rfl

theorem readMinus_append (negative : Bool) {cs : List Char} (h : cs.head? ≠ some '-') :
    readMinus ((if negative then "-" else "").toList ++ cs) = (negative, cs) := by
  cases negative with
  | true => rfl
  | false =>
      cases cs with
      | nil => rfl
      | cons c cs =>
          rw [if_neg Bool.false_ne_true, String.toList_empty, List.nil_append, readMinus]
          rintro cs' ⟨⟩
          exact h rfl

/-- **A number is read back.** -/
theorem readNumeral?_text (hn : n.Spelled) (h : EndsNumber rest) :
    readNumeral? (n.text.toList ++ rest) = some (n, rest) := by
  obtain ⟨hexponent, hpoint⟩ := endsDigits_exponentText n.exponent h
  have hfraction := endsDigits_fractionText n.fraction hexponent
  have hdigits := List.forall_mem_append.1 hn.digits
  have hwhole := readWhole?_append hdigits.1 hn.whole_ne_nil hn.no_zero_in_front hfraction
  have hminus : (n.whole.map Nat.digitChar ++
      ((fractionText n.fraction).toList ++ ((exponentText n.exponent).toList ++ rest))).head? ≠
      some '-' := by
    obtain ⟨d, ds, hds⟩ := List.exists_cons_of_ne_nil hn.whole_ne_nil
    rw [hds, List.map_cons, List.cons_append, List.head?_cons, Option.some_inj.ne]
    exact Nat.digitChar_ne _ (by decide)
  have htext : n.text.toList ++ rest = (if n.negative then "-" else "").toList ++
      (n.whole.map Nat.digitChar ++
        ((fractionText n.fraction).toList ++ ((exponentText n.exponent).toList ++ rest))) := by
    rw [Numeral.text, String.toList_append, String.toList_append, String.toList_append, toList_spell,
      List.append_assoc, List.append_assoc, List.append_assoc]
    rfl
  rw [htext, readNumeral?, readMinus_append _ hminus, hwhole]
  simp only [Option.bind_some, readFraction?_append hdigits.2 hexponent hpoint,
    readExponent?_append _ h, Option.map_some]

theorem readFraction?_spec {cs : List Char} {ds : List Nat}
    (h : readFraction? cs = some (ds, rest)) : ∀ d ∈ ds, d < 10 := by
  unfold readFraction? at h
  split at h
  · exact (readSomeDigits?_spec h).2.1
  · obtain ⟨rfl, -⟩ := Prod.mk.inj (Option.some_inj.1 h)
    simp

/-- What is read before the point: at least one digit, and a zero only by itself. -/
theorem readWhole?_spec {cs : List Char} {ds : List Nat} (h : readWhole? cs = some (ds, rest)) :
    (∀ d ∈ ds, d < 10) ∧ ds ≠ [] ∧ ∀ tail, ds = 0 :: tail → tail = [] := by
  unfold readWhole? at h
  split at h
  · obtain ⟨rfl, -⟩ := Prod.mk.inj (Option.some_inj.1 h)
    simp
  · next hzero =>
      obtain ⟨hne, hlt, hcs⟩ := readSomeDigits?_spec h
      refine ⟨hlt, hne, ?_⟩
      intro tail hds
      rw [hds] at hcs
      exact absurd hcs (hzero _)

/-- **What is read as a number can be written.** -/
theorem spelled_of_readNumeral? {cs : List Char} (h : readNumeral? cs = some (n, rest)) :
    n.Spelled := by
  simp only [readNumeral?, Option.bind_eq_some_iff, Option.map_eq_some_iff, Prod.exists,
    Prod.mk.injEq] at h
  obtain ⟨whole, r₁, hwhole, fraction, r₂, hfraction, exponent, r₃, -, rfl, -⟩ := h
  obtain ⟨hlt, hne, hhead⟩ := readWhole?_spec hwhole
  exact ⟨List.forall_mem_append.2 ⟨hlt, readFraction?_spec hfraction⟩, hne, hhead⟩

end Numbers

/-! ### Strings -/

/-- The units of a text. -/
def unitsOf (cs : List Char) : List Nat :=
  cs.map Char.toNat

theorem hexUnit?_hexByte : ∀ n < 32,
    hexUnit? '0' '0' (Nat.digitChar (n / 16 % 16)) (Nat.digitChar (n % 16)) = some n := by
  decide

/-- A character is read back, however it is written. -/
theorem readUnits?_escape (c : Char) (cs : List Char) :
    readUnits? ((escape c).toList ++ cs) =
      (readUnits? cs).map fun (us, r) => (c.toNat :: us, r) := by
  by_cases hquote : c = '"'
  · obtain rfl := hquote
    rfl
  by_cases hslash : c = '\\'
  · obtain rfl := hslash
    rfl
  by_cases hcontrol : c.toNat < 32
  · have hunit := hexUnit?_hexByte c.toNat hcontrol
    rw [escape, if_neg hquote, if_neg hslash, if_pos hcontrol, String.toList_append, hexByte]
    simp only [String.toList_ofList]
    change (hexUnit? '0' '0' _ _).bind _ = _
    rw [hunit, Option.bind_some]
    rfl
  · have hplain : escape c = c.toString := by
      rw [escape, if_neg hquote, if_neg hslash, if_neg hcontrol]
    rw [hplain, Char.toString, String.toList_singleton, List.singleton_append, readUnits?,
      if_neg hcontrol]
    · exact hquote
    · exact fun _ _ _ _ _ h _ => hslash h
    · exact fun _ _ h _ => hslash h

/-- **A string is read back** up to its closing quote. -/
theorem readUnits?_quoted (cs rest : List Char) :
    readUnits? (cs.flatMap (fun c => (escape c).toList) ++ '"' :: rest) =
      some (unitsOf cs, rest) := by
  induction cs with
  | nil => rfl
  | cons c cs ih =>
      rw [List.flatMap_cons, List.append_assoc, readUnits?_escape, ih]
      rfl

/-- A character is no half of another one. -/
theorem isHalf_toNat (c : Char) : isHighHalf c.toNat = false ∧ isLowHalf c.toNat = false := by
  have hvalid : c.toNat < 0xd800 ∨ 0xdfff < c.toNat ∧ c.toNat < 0x110000 := c.valid
  rw [isHighHalf, isLowHalf, decide_eq_false_iff_not, decide_eq_false_iff_not]
  omega

theorem charsOfUnits?_unitsOf (cs : List Char) : charsOfUnits? (unitsOf cs) = some cs := by
  induction cs with
  | nil => rfl
  | cons c cs ih =>
      obtain ⟨hhigh, hlow⟩ := isHalf_toNat c
      cases cs with
      | nil => simp [unitsOf, charsOfUnits?, hhigh, hlow]
      | cons d ds =>
          rw [unitsOf, List.map_cons, List.map_cons, charsOfUnits?, hhigh, hlow,
            if_neg Bool.false_ne_true, if_neg Bool.false_ne_true, ← List.map_cons, ← unitsOf, ih,
            Option.map_some, Char.ofNat_toNat]

/-- **A text is read back** from its units. -/
theorem ofUnits?_unitsOf (s : String) : ofUnits? (unitsOf s.toList) = some s := by
  rw [ofUnits?, charsOfUnits?_unitsOf, Option.map_some, String.ofList_toList]

/-! ### Tokens -/

namespace Token

theorem next?_quote (s : String) (rest : List Char) :
    next? ((quote s).toList ++ rest) = some (text (some s), rest) := by
  have htext : (quote s).toList ++ rest =
      '"' :: (s.toList.flatMap (fun c => (escape c).toList) ++ '"' :: rest) := by
    rw [quote, String.toList_append, String.toList_append, String.toList_join, List.flatMap_map,
      List.append_assoc, List.append_assoc]
    rfl
  rw [htext, next?, readUnits?_quoted, Option.map_some]
  simp only [ofUnits?_unitsOf]

/-- A text that begins with a number begins with no other token. -/
theorem next?_of_readNumeral? {cs rest : List Char} {n : Numeral}
    (h : readNumeral? cs = some (n, rest)) : next? cs = some (number n, rest) := by
  unfold next?
  split
  case h_11 =>
    rw [h]
    rfl
  all_goals cases h

theorem next?_numeral {n : Numeral} (hn : n.Spelled) {rest : List Char} (h : EndsNumber rest) :
    next? (n.text.toList ++ rest) = some (number n, rest) :=
  next?_of_readNumeral? (readNumeral?_text hn h)

theorem spelled_of_next? {cs rest : List Char} {n : Numeral}
    (h : next? cs = some (number n, rest)) : n.Spelled := by
  unfold next? at h
  split at h
  case h_11 =>
    obtain ⟨⟨m, r⟩, hread, heq⟩ := Option.map_eq_some_iff.1 h
    obtain ⟨hm, -⟩ := Prod.mk.inj heq
    obtain rfl := Token.number.inj hm
    exact spelled_of_readNumeral? hread
  case h_7 =>
    obtain ⟨⟨us, r⟩, -, heq⟩ := Option.map_eq_some_iff.1 h
    cases heq
  all_goals cases h

/-- **The numbers among the tokens of a text can be written.** -/
theorem spelled_of_scan? {cs : List Char} {ts : List Token} (h : scan? cs = some ts) {n : Numeral}
    (hn : number n ∈ ts) : n.Spelled := by
  fun_induction scan? cs generalizing ts with
  | case1 =>
      obtain rfl := Option.some_inj.1 h
      cases hn
  | case2 c rest hblank ih => exact ih h hn
  | case3 c rest hblank hnext => cases h
  | case4 c rest hblank t r hnext ih =>
      obtain ⟨us, hus, rfl⟩ := Option.map_eq_some_iff.1 h
      rcases List.mem_cons.1 hn with rfl | hn
      · exact spelled_of_next? hnext
      · exact ih hus hn

/-- A token that is no blank comes first. -/
theorem scan?_of_next? {c : Char} {cs rest : List Char} {t : Token} (hc : isBlank c = false)
    (h : next? (c :: cs) = some (t, rest)) :
    scan? (c :: cs) = (scan? rest).map (t :: ·) := by
  rw [scan?, hc, if_neg Bool.false_ne_true]
  split
  · next hnone =>
      rw [h] at hnone
      cases hnone
  · next t' r hsome =>
      rw [h] at hsome
      obtain ⟨rfl, rfl⟩ := Prod.mk.inj (Option.some_inj.1 hsome)
      rfl

end Token

end Json

end GraphIndex
