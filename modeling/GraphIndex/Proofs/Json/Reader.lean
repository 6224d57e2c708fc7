/-
**Documents of what is written.**  A document is read back from its text.

The text of a document is the text of its tokens, one after the other.  A number may only be followed by
something that does not go on with it; in a document, what follows is a comma, a bracket or the end.  And
the tokens of a document take the reader from any place where a document may stand to the place after it,
with the document in the innermost array or object.  Both are shown along the structure of the document.

In the other direction, all numbers in a document that has been read can be written.

Main definitions:

* `Json.Spelled` — the numbers of a document can be written;
* `Json.tokens` — the tokens of a document;
* `Json.Token.Scans` — a text is the text of some tokens, whatever follows.

Main results:

* `Json.scans_render` — the text of a document is that of its tokens;
* `Json.readAs_tokens` — the tokens of a document are read as the document;
* `Json.ofString?_render` — **a document is read back from its text**;
* `Json.spelled_of_ofString?` — the numbers of a document that was read can be written.
-/
import GraphIndex.Json.Reader
import GraphIndex.Proofs.Json.Token
import Mathlib.Data.List.Forall2

set_option autoImplicit false

namespace GraphIndex

/-! ### Lists of answers -/

section Answers

variable {α β : Type} {f : α → Option β} {xs : List α} {ys : List β}

/-- There is a list of answers if there is an answer for each item. -/
theorem mapM_eq_some_iff :
    xs.mapM f = some ys ↔ List.Forall₂ (fun x y => f x = some y) xs ys := by
  induction xs generalizing ys with
  | nil =>
      rw [List.mapM_nil, List.forall₂_nil_left_iff]
      exact Option.some_inj.trans eq_comm
  | cons x xs ih =>
      rw [List.mapM_cons]
      constructor
      · intro h
        obtain ⟨y, hy, hrest⟩ := Option.bind_eq_some_iff.1 h
        obtain ⟨zs, hzs, heq⟩ := Option.bind_eq_some_iff.1 hrest
        obtain rfl := Option.some_inj.1 heq
        exact .cons hy (ih.1 hzs)
      · rintro (_ | ⟨hy, hrest⟩)
        simp [hy, ih.2 hrest]

theorem exists_of_forall₂ {r : α → β → Prop} (h : List.Forall₂ r xs ys) {y : β} (hy : y ∈ ys) :
    ∃ x ∈ xs, r x y := by
  induction h with
  | nil => cases hy
  | cons hr hrest ih =>
      rcases List.mem_cons.1 hy with rfl | hy
      · exact ⟨_, List.mem_cons_self, hr⟩
      · obtain ⟨x, hx, hxy⟩ := ih hy
        exact ⟨x, List.mem_cons_of_mem _ hx, hxy⟩

theorem isSome_mapM_iff : (xs.mapM f).isSome = true ↔ ∀ x ∈ xs, (f x).isSome = true := by
  induction xs with
  | nil => simp
  | cons x xs ih =>
      rw [List.mapM_cons, List.forall_mem_cons, ← ih]
      cases f x with
      | none => simp
      | some y => cases xs.mapM f <;> simp

end Answers

namespace Json

/-- The numbers of a document can be written.  Strings that are no text stand in it only if they are
allowed. -/
inductive Spelled (garbledToo : Prop) : Json → Prop where
  | null : Spelled garbledToo null
  | bool (b : Bool) : Spelled garbledToo (bool b)
  | number {n : Numeral} (h : n.Spelled) : Spelled garbledToo (number n)
  | text (s : String) : Spelled garbledToo (text s)
  | array {items : List Json} (h : ∀ j ∈ items, Spelled garbledToo j) :
      Spelled garbledToo (array items)
  | object {members : List (String × Json)} (h : ∀ m ∈ members, Spelled garbledToo m.2) :
      Spelled garbledToo (object members)
  | garbled (h : garbledToo) : Spelled garbledToo garbled

/-! ### Tokens -/

mutual

/-- The tokens of a document. -/
def tokens : Json → List Token
  | null => [.null]
  | bool b => [.bool b]
  | number n => [.number n]
  | text s => [.text (some s)]
  | array items => .openArray :: ([Token.comma].intercalate (itemTokens items) ++ [.closeArray])
  | object members =>
      .openObject :: ([Token.comma].intercalate (memberTokens members) ++ [.closeObject])
  | garbled => [.null]

/-- The tokens of several documents. -/
def itemTokens : List Json → List (List Token)
  | [] => []
  | item :: items => tokens item :: itemTokens items

/-- The tokens of several members of an object. -/
def memberTokens : List (String × Json) → List (List Token)
  | [] => []
  | (name, value) :: members => (.text (some name) :: .colon :: tokens value) :: memberTokens members

end

theorem itemTokens_eq (items : List Json) : itemTokens items = items.map tokens := by
  induction items with
  | nil => rfl
  | cons item items ih => rw [itemTokens, ih, List.map_cons]

theorem memberTokens_eq (members : List (String × Json)) :
    memberTokens members = members.map fun m => .text (some m.1) :: .colon :: tokens m.2 := by
  induction members with
  | nil => rfl
  | cons m members ih => rw [memberTokens, ih, List.map_cons]

theorem renderItems_eq (items : List Json) : renderItems items = items.map render := by
  induction items with
  | nil => rfl
  | cons item items ih => rw [renderItems, ih, List.map_cons]

theorem renderMembers_eq (members : List (String × Json)) :
    renderMembers members = members.map fun m => quote m.1 ++ ":" ++ render m.2 := by
  induction members with
  | nil => rfl
  | cons m members ih => rw [renderMembers, ih, List.map_cons]

/-! ### From text to tokens -/

namespace Token

/-- The text is that of the tokens, whatever follows, unless it goes on with a number. -/
def Scans (cs : List Char) (ts : List Token) : Prop :=
  ∀ rest, EndsNumber rest → scan? (cs ++ rest) = (scan? rest).map (ts ++ ·)

variable {cs ds : List Char} {ts us : List Token}

theorem Scans.nil : Scans [] [] := by
  intro rest _
  simp

/-- A single token. -/
theorem Scans.single {t : Token} (hcs : ∃ c tail, cs = c :: tail ∧ isBlank c = false)
    (h : ∀ rest, EndsNumber rest → next? (cs ++ rest) = some (t, rest)) : Scans cs [t] := by
  intro rest hrest
  obtain ⟨c, tail, rfl, hc⟩ := hcs
  exact scan?_of_next? hc (h rest hrest)

/-- A bracket or a mark in front. -/
theorem Scans.mark {c : Char} {t : Token} (h : Scans cs ts) (hc : isBlank c = false)
    (hnext : ∀ rest, next? (c :: rest) = some (t, rest)) : Scans (c :: cs) (t :: ts) := by
  intro rest hrest
  rw [List.cons_append, scan?_of_next? hc (hnext _), h rest hrest, Option.map_map]
  rfl

theorem Scans.append (h₁ : Scans cs ts) (h₂ : Scans ds us)
    (hends : ∀ rest, EndsNumber rest → EndsNumber (ds ++ rest)) : Scans (cs ++ ds) (ts ++ us) := by
  intro rest hrest
  rw [List.append_assoc, h₁ _ (hends rest hrest), h₂ rest hrest, Option.map_map]
  simp [Function.comp_def]

theorem endsNumber_cons {c : Char} (hc : c.isDigit = false ∧ c ≠ '.' ∧ c ≠ 'e' ∧ c ≠ 'E')
    (cs : List Char) : EndsNumber (c :: cs) := by
  rintro d ⟨⟩
  exact hc

/-- Texts with commas between them. -/
theorem Scans.intercalate {css : List (List Char)} {tss : List (List Token)}
    (h : List.Forall₂ Scans css tss) :
    Scans ([','].intercalate css) ([comma].intercalate tss) := by
  induction h with
  | nil => exact Scans.nil
  | cons hfirst hrest ih =>
      cases hrest with
      | nil =>
          rw [List.intercalate_singleton, List.intercalate_singleton]
          exact hfirst
      | cons _ _ =>
          rw [List.intercalate_cons_cons, List.intercalate_cons_cons, List.append_assoc,
            List.append_assoc]
          refine hfirst.append (ih.mark rfl fun _ => rfl) fun rest _ => ?_
          exact endsNumber_cons (by decide) _

/-- A text in brackets. -/
theorem Scans.bracketed {c d : Char} {t u : Token} (h : Scans cs ts) (hc : isBlank c = false)
    (hnext : ∀ rest, next? (c :: rest) = some (t, rest)) (hd : isBlank d = false)
    (hnext' : ∀ rest, next? (d :: rest) = some (u, rest))
    (hends : d.isDigit = false ∧ d ≠ '.' ∧ d ≠ 'e' ∧ d ≠ 'E') :
    Scans (c :: (cs ++ [d])) (t :: (ts ++ [u])) := by
  refine Scans.mark (h.append (Scans.nil.mark hd hnext') fun rest _ => ?_) hc hnext
  exact endsNumber_cons hends _

theorem isBlank_of_readNumeral? {c : Char} {cs rest : List Char} {n : Numeral}
    (h : readNumeral? (c :: cs) = some (n, rest)) : isBlank c = false := by
  cases hblank : isBlank c with
  | false => rfl
  | true =>
      rw [isBlank] at hblank
      simp only [Bool.or_eq_true, decide_eq_true_eq] at hblank
      rcases hblank with ((rfl | rfl) | rfl) | rfl <;> cases h

theorem scans_numeral {n : Numeral} (hn : n.Spelled) : Scans n.text.toList [number n] := by
  have hend : EndsNumber [] := nofun
  have hread := readNumeral?_text hn hend
  rw [List.append_nil] at hread
  refine Scans.single ?_ fun rest hrest => next?_numeral hn hrest
  cases htext : n.text.toList with
  | nil =>
      rw [htext] at hread
      cases hread
  | cons c tail =>
      rw [htext] at hread
      exact ⟨c, tail, rfl, isBlank_of_readNumeral? hread⟩

theorem scans_quote (s : String) : Scans (quote s).toList [text (some s)] := by
  have htext : (quote s).toList = '"' :: ((String.join (s.toList.map escape)).toList ++ ['"']) := by
    rw [quote, String.toList_append, String.toList_append]
    rfl
  exact Scans.single ⟨'"', _, htext, rfl⟩ fun rest _ => next?_quote s rest

end Token

open Token (Scans)

/-- **The text of a document is that of its tokens.** -/
theorem scans_render {j : Json} (h : j.Spelled False) : Scans j.render.toList j.tokens := by
  induction h with
  | null => exact Scans.single ⟨'n', _, rfl, rfl⟩ fun rest _ => rfl
  | bool b =>
      cases b with
      | true => exact Scans.single ⟨'t', _, rfl, rfl⟩ fun rest _ => rfl
      | false => exact Scans.single ⟨'f', _, rfl, rfl⟩ fun rest _ => rfl
  | number h =>
      rw [render, tokens]
      exact Token.scans_numeral h
  | text s =>
      rw [render, tokens]
      exact Token.scans_quote s
  | @array items h ih =>
      have hitems : List.Forall₂ Scans ((renderItems items).map String.toList)
          (itemTokens items) := by
        rw [renderItems_eq, itemTokens_eq, List.map_map]
        rw [List.forall₂_map_left_iff, List.forall₂_map_right_iff, List.forall₂_same]
        exact ih
      rw [render, tokens, String.toList_append, String.toList_append, String.toList_intercalate]
      exact (Scans.intercalate hitems).bracketed rfl (fun _ => rfl) rfl (fun _ => rfl) (by decide)
  | @object members h ih =>
      have hmembers : List.Forall₂ Scans ((renderMembers members).map String.toList)
          (memberTokens members) := by
        rw [renderMembers_eq, memberTokens_eq, List.map_map]
        rw [List.forall₂_map_left_iff, List.forall₂_map_right_iff, List.forall₂_same]
        intro m hm
        have hvalue : Scans (':' :: m.2.render.toList) (.colon :: m.2.tokens) :=
          (ih m hm).mark rfl fun _ => rfl
        have hmember := (Token.scans_quote m.1).append hvalue fun rest _ =>
          Token.endsNumber_cons (by decide) _
        rw [Function.comp_apply, String.toList_append, String.toList_append, List.append_assoc]
        exact hmember
      rw [render, tokens, String.toList_append, String.toList_append, String.toList_intercalate]
      exact (Scans.intercalate hmembers).bracketed rfl (fun _ => rfl) rfl (fun _ => rfl) (by decide)
  | garbled h => exact h.elim

/-! ### From tokens to documents -/

section Reading

variable {frames : List Frame} {phase : Phase}

theorem foldlM_append (r : Reader) (ts us : List Token) :
    (ts ++ us).foldlM Reader.accept? r =
      (ts.foldlM Reader.accept? r).bind fun r' => us.foldlM Reader.accept? r' :=
  List.foldlM_append

/-- The reader is at a place where a document may stand. -/
def Phase.Begins : Phase → Prop
  | .value => True
  | .firstItem => True
  | _ => False

/-- The reader is at a place where the name of a member may stand. -/
def Phase.Names : Phase → Prop
  | .name => True
  | .firstName => True
  | _ => False

/-- Some tokens are read as a document, wherever it may stand. -/
def ReadAs (ts : List Token) (j : Json) : Prop :=
  ∀ frames phase, Phase.Begins phase →
    ts.foldlM Reader.accept? ⟨frames, phase⟩ = some (Reader.finish frames j)

theorem readAs_single {t : Token} {j : Json} (ht : t ≠ .closeArray)
    (h : ∀ frames, Reader.begin? frames t = some (Reader.finish frames j)) : ReadAs [t] j := by
  intro frames phase hphase
  rw [List.foldlM_cons]
  cases phase with
  | value =>
      change (Reader.begin? frames t).bind _ = _
      rw [h]
      rfl
  | firstItem =>
      change (if t = .closeArray then _ else Reader.begin? frames t).bind _ = _
      rw [if_neg ht, h]
      rfl
  | _ => exact hphase.elim

/-- The rest of an array, from one of its items on. -/
theorem foldlM_items {items : List Json} (h : ∀ j ∈ items, ReadAs j.tokens j) (hne : items ≠ [])
    (acc : List Json) (hphase : Phase.Begins phase) :
    ([Token.comma].intercalate (itemTokens items) ++ [Token.closeArray]).foldlM Reader.accept?
        ⟨.array acc :: frames, phase⟩ =
      some (Reader.finish frames (array (acc.reverse ++ items))) := by
  -- after a comma the reader is where a document may stand, with one more item in the frame
  induction items generalizing acc phase with
  | nil => exact absurd rfl hne
  | cons item items ih =>
      have hitem := h item List.mem_cons_self
      cases items with
      | nil =>
          rw [itemTokens, itemTokens, List.intercalate_singleton, foldlM_append, hitem _ _ hphase,
            ← List.reverse_cons]
          rfl
      | cons next items =>
          have hvalue : Phase.Begins .value := trivial
          have hrest := ih (fun j hj => h j (List.mem_cons_of_mem _ hj)) (List.cons_ne_nil _ _)
            (item :: acc) hvalue
          rw [List.reverse_cons, List.append_assoc] at hrest
          rw [itemTokens, itemTokens, List.intercalate_cons_cons, List.append_assoc,
            List.append_assoc, foldlM_append, hitem _ _ hphase]
          exact hrest

/-- **An array is read** if its items are. -/
theorem readAs_array {items : List Json} (h : ∀ j ∈ items, ReadAs j.tokens j) :
    ReadAs (array items).tokens (array items) := by
  intro frames phase hphase
  have hopen : (array items).tokens.foldlM Reader.accept? ⟨frames, phase⟩ =
      ([Token.comma].intercalate (itemTokens items) ++ [Token.closeArray]).foldlM Reader.accept?
        ⟨.array [] :: frames, .firstItem⟩ := by
    rw [tokens, List.foldlM_cons]
    cases phase with
    | value => rfl
    | firstItem => rfl
    | _ => exact hphase.elim
  rw [hopen]
  cases items with
  | nil => rfl
  | cons item items => exact foldlM_items h (List.cons_ne_nil _ _) [] trivial

theorem mapM_named (members : List (String × Json)) :
    ((members.map fun m => (some m.1, m.2)).mapM fun (m : Option String × Json) =>
      m.1.map fun n => (n, m.2)) = some members := by
  rw [mapM_eq_some_iff, List.forall₂_map_left_iff, List.forall₂_same]
  intro m _
  rfl

/-- The rest of an object, from the name of one of its members on. -/
theorem foldlM_members {members : List (String × Json)} (h : ∀ m ∈ members, ReadAs m.2.tokens m.2)
    (hne : members ≠ []) (acc : List (Option String × Json)) (name : Option String)
    (hphase : Phase.Names phase) :
    ([Token.comma].intercalate (memberTokens members) ++ [Token.closeObject]).foldlM Reader.accept?
        ⟨.object acc name :: frames, phase⟩ =
      some (Reader.finish frames
        (objectOf ((members.map fun m => (some m.1, m.2)).reverse ++ acc))) := by
  -- as for the items of an array, but a comma is followed by a name
  induction members generalizing acc name phase with
  | nil => exact absurd rfl hne
  | cons m members ih =>
      have hvalue := h m List.mem_cons_self (.object acc (some m.1) :: frames) .value trivial
      have hmember : (Token.text (some m.1) :: .colon :: m.2.tokens).foldlM Reader.accept?
          ⟨.object acc name :: frames, phase⟩ =
          some ⟨.object ((some m.1, m.2) :: acc) none :: frames, .next⟩ := by
        cases phase with
        | name => exact hvalue
        | firstName => exact hvalue
        | _ => exact hphase.elim
      cases members with
      | nil =>
          rw [memberTokens, memberTokens, List.intercalate_singleton, foldlM_append, hmember]
          rfl
      | cons next members =>
          have hname : Phase.Names .name := trivial
          have hrest := ih (fun j hj => h j (List.mem_cons_of_mem _ hj)) (List.cons_ne_nil _ _)
            ((some m.1, m.2) :: acc) none hname
          rw [List.map_cons, List.reverse_cons, List.append_assoc]
          rw [memberTokens, memberTokens, List.intercalate_cons_cons, List.append_assoc,
            List.append_assoc, foldlM_append, hmember]
          exact hrest

/-- **An object is read** if the values of its members are. -/
theorem readAs_object {members : List (String × Json)}
    (h : ∀ m ∈ members, ReadAs m.2.tokens m.2) :
    ReadAs (object members).tokens (object members) := by
  intro frames phase hphase
  have hopen : (object members).tokens.foldlM Reader.accept? ⟨frames, phase⟩ =
      ([Token.comma].intercalate (memberTokens members) ++ [Token.closeObject]).foldlM
        Reader.accept? ⟨.object [] none :: frames, .firstName⟩ := by
    rw [tokens, List.foldlM_cons]
    cases phase with
    | value => rfl
    | firstItem => rfl
    | _ => exact hphase.elim
  rw [hopen]
  cases members with
  | nil => rfl
  | cons m members =>
      have hname : Phase.Names .firstName := trivial
      rw [foldlM_members h (List.cons_ne_nil _ _) [] none hname, objectOf, List.append_nil,
        List.reverse_reverse, mapM_named]

/-- **The tokens of a document are read as the document.** -/
theorem readAs_tokens {j : Json} (h : j.Spelled False) : ReadAs j.tokens j := by
  induction h with
  | null => exact readAs_single nofun fun _ => rfl
  | bool b => exact readAs_single nofun fun _ => rfl
  | number h => exact readAs_single nofun fun _ => rfl
  | text s => exact readAs_single nofun fun _ => rfl
  | array h ih => exact readAs_array ih
  | object h ih => exact readAs_object ih
  | garbled h => exact h.elim

end Reading

/-- **A document is read back from its text.** -/
theorem ofString?_render {j : Json} (h : j.Spelled False) : ofString? j.render = some j := by
  have hscan := scans_render h [] nofun
  have hread := readAs_tokens h [] .value trivial
  rw [List.append_nil] at hscan
  rw [ofString?, hscan, Token.scan?, Option.map_some, List.append_nil, Option.bind_some, ofTokens?]
  change (j.tokens.foldlM Reader.accept? ⟨[], .value⟩).bind _ = _
  rw [hread]
  rfl

/-! ### Documents that are read -/

/-- The documents that a frame holds. -/
def Frame.documents : Frame → List Json
  | .array items => items
  | .object members _ => members.map Prod.snd

/-- The numbers in the frames can be written. -/
def FramesSpelled (frames : List Frame) : Prop :=
  ∀ f ∈ frames, ∀ j ∈ f.documents, Spelled True j

/-- All numbers that have been read can be written. -/
structure Reader.Spelled (r : Reader) : Prop where
  frames : FramesSpelled r.frames
  complete : ∀ j, r.phase = .complete j → Json.Spelled True j

section Reading

variable {frames : List Frame} {r r' : Reader} {t : Token}

theorem FramesSpelled.cons {f : Frame} (h : FramesSpelled frames)
    (hf : ∀ j ∈ f.documents, Spelled True j) : FramesSpelled (f :: frames) :=
  List.forall_mem_cons.2 ⟨hf, h⟩

theorem FramesSpelled.uncons {f : Frame} (h : FramesSpelled (f :: frames)) :
    (∀ j ∈ f.documents, Spelled True j) ∧ FramesSpelled frames :=
  List.forall_mem_cons.1 h

theorem FramesSpelled.finish {j : Json} (h : FramesSpelled frames) (hj : Spelled True j) :
    (Reader.finish frames j).Spelled := by
  cases frames with
  | nil =>
      refine ⟨h, ?_⟩
      rintro _ ⟨⟩
      exact hj
  | cons f outer =>
      obtain ⟨hf, houter⟩ := h.uncons
      cases f with
      | array items => exact ⟨houter.cons (List.forall_mem_cons.2 ⟨hj, hf⟩), nofun⟩
      | object members name => exact ⟨houter.cons (List.forall_mem_cons.2 ⟨hj, hf⟩), nofun⟩

theorem FramesSpelled.begin? (h : FramesSpelled frames) (ht : ∀ n, t = .number n → n.Spelled)
    (hr : Reader.begin? frames t = some r') : r'.Spelled := by
  unfold Reader.begin? at hr
  split at hr
  · obtain rfl := Option.some_inj.1 hr
    exact ⟨h.cons nofun, nofun⟩
  · obtain rfl := Option.some_inj.1 hr
    exact ⟨h.cons nofun, nofun⟩
  · obtain rfl := Option.some_inj.1 hr
    exact h.finish .null
  · obtain rfl := Option.some_inj.1 hr
    exact h.finish (.bool _)
  · obtain rfl := Option.some_inj.1 hr
    exact h.finish (.number (ht _ rfl))
  · obtain rfl := Option.some_inj.1 hr
    exact h.finish (.text _)
  · obtain rfl := Option.some_inj.1 hr
    exact h.finish (.garbled trivial)
  · cases hr

theorem FramesSpelled.name? (h : FramesSpelled frames) (hr : Reader.name? frames t = some r') :
    r'.Spelled := by
  unfold Reader.name? at hr
  split at hr
  · split at hr
    · obtain rfl := Option.some_inj.1 hr
      obtain ⟨hf, houter⟩ := h.uncons
      exact ⟨houter.cons hf, nofun⟩
    · cases hr
  · cases hr

theorem spelled_objectOf {members : List (Option String × Json)}
    (h : ∀ j ∈ members.map Prod.snd, Spelled True j) : Spelled True (objectOf members) := by
  rw [objectOf]
  split
  · next named hnamed =>
      refine .object fun m hm => ?_
      obtain ⟨⟨name, value⟩, hmember, hm'⟩ := exists_of_forall₂ (mapM_eq_some_iff.1 hnamed) hm
      obtain ⟨n, -, rfl⟩ := Option.map_eq_some_iff.1 hm'
      exact h _ (List.mem_map_of_mem (List.mem_reverse.1 hmember))
  · exact .garbled trivial

theorem FramesSpelled.close? (h : FramesSpelled frames) (hr : Reader.close? frames t = some r') :
    r'.Spelled := by
  unfold Reader.close? at hr
  split at hr
  · split at hr
    · obtain rfl := Option.some_inj.1 hr
      obtain ⟨hf, houter⟩ := h.uncons
      exact houter.finish (.array fun j hj => hf j (List.mem_reverse.1 hj))
    · cases hr
  · split at hr
    · obtain rfl := Option.some_inj.1 hr
      obtain ⟨hf, houter⟩ := h.uncons
      exact houter.finish (spelled_objectOf hf)
    · cases hr
  · cases hr

theorem FramesSpelled.comma? (h : FramesSpelled frames) (hr : Reader.comma? frames = some r') :
    r'.Spelled := by
  unfold Reader.comma? at hr
  split at hr
  · obtain rfl := Option.some_inj.1 hr
    exact ⟨h, nofun⟩
  · obtain rfl := Option.some_inj.1 hr
    exact ⟨h, nofun⟩
  · cases hr

/-- **Every token keeps the numbers that have been read in order.** -/
theorem Reader.Spelled.accept? (h : r.Spelled) (ht : ∀ n, t = .number n → n.Spelled)
    (hr : r.accept? t = some r') : r'.Spelled := by
  unfold Reader.accept? at hr
  split at hr
  · exact h.frames.begin? ht hr
  · split at hr
    · exact h.frames.close? hr
    · exact h.frames.begin? ht hr
  · split at hr
    · exact h.frames.close? hr
    · exact h.frames.name? hr
  · exact h.frames.name? hr
  · obtain ⟨-, hr⟩ := Option.ite_none_right_eq_some.1 hr
    obtain rfl := Option.some_inj.1 hr
    exact ⟨h.frames, nofun⟩
  · split at hr
    · exact h.frames.comma? hr
    · exact h.frames.close? hr
  · cases hr

/-- Tokens keep the numbers that have been read in order. -/
theorem Reader.Spelled.foldlM {ts : List Token} (h : r.Spelled)
    (hts : ∀ n, .number n ∈ ts → n.Spelled) (hr : ts.foldlM Reader.accept? r = some r') :
    r'.Spelled := by
  induction ts generalizing r with
  | nil =>
      obtain rfl := Option.some_inj.1 hr
      exact h
  | cons t ts ih =>
      rw [List.foldlM_cons] at hr
      obtain ⟨r₁, hr₁, hrest⟩ := Option.bind_eq_some_iff.1 hr
      refine ih (h.accept? (fun n hn => hts n ?_) hr₁) (fun n hn => hts n ?_) hrest
      · exact hn ▸ List.mem_cons_self
      · exact List.mem_cons_of_mem _ hn

/-- **The numbers of a document that was read can be written.** -/
theorem spelled_of_ofString? {s : String} {j : Json} (h : ofString? s = some j) :
    j.Spelled True := by
  obtain ⟨ts, hscan, hread⟩ := Option.bind_eq_some_iff.1 h
  obtain ⟨r, hr, hj⟩ := Option.bind_eq_some_iff.1 hread
  have hstart : Reader.start.Spelled := ⟨nofun, nofun⟩
  have hspelled := hstart.foldlM (fun n hn => Token.spelled_of_scan? hscan hn) hr
  refine hspelled.complete j ?_
  rw [Reader.document?] at hj
  split at hj
  · next document hphase =>
      rw [hphase, Option.some_inj.1 hj]
  · cases hj

end Reading

end Json

end GraphIndex
