/-
**How often a probe table is cleaned up.**  A table that has no room because of its vacated slots is
rebuilt with the capacity it has.  How long this lasts depends on the room it makes.

An erased value leaves a vacated slot, and the next value may need another one.  So one call of either kind
wears a table by one slot at most, and a clean-up is due when three quarters of the slots are worn.  A table
that was just cleaned up is worn by its live values alone.  If these fill five eighths of it or less, an
eighth as many calls as there are slots pass before the next clean-up.  If they fill more, fewer calls are
enough: `clean_ups_in_close_succession`.  And if they fill all that may be filled, erasing a value and
inserting it again leads to the next clean-up, which places all the others anew, and so on for ever.

Main definitions:

* `ProbeTable.Change.cleansUp` — the change rebuilds the table with the same capacity;
* `ProbeTable.wear` — how many slots are worn;
* `ProbeTable.Full` — three quarters of the slots are live, and none is vacated;
* `ProbeTable.moved` — how many values are placed anew in a run;
* `ProbeTable.CleanUpsFollow` — when the next clean-up comes.

Main results:

* `ProbeTable.Reachable.wear_apply`, `ProbeTable.Reachable.wear_run` — **a call wears one slot at most**;
* `ProbeTable.Reachable.insertNews` — without vacated slots, inserting fills the room there is;
* `ProbeTable.Full.round`, `ProbeTable.Full.rounds` — a full table is cleaned up by every other call;
* `ProbeTable.clean_up_leaves_room` — **the room that is left decides when the next clean-up comes**.
-/
import GraphIndex.Proofs.ProbeTable.Capacity

set_option autoImplicit false

namespace GraphIndex

namespace ProbeTable

variable {α : Type} [Digest α]

/-! ### Vacated slots after a change -/

/-- A rebuilt table has no vacated slots when a value is placed in it, and in one that is not rebuilt there
are none more than before. -/
theorem Balanced.vacated_insertNew {t : ProbeTable α} (h : t.Balanced) (a : α) :
    (t.insertNew a).vacated ≤ t.vacated ∧
      (t.expansion?.isSome = true → (t.insertNew a).vacated = 0) := by
  rw [ProbeTable.insertNew]
  split
  · next hnone =>
      rw [hnone]
      exact ⟨h.vacated_place_le h.size_lt a, fun hsome => absurd hsome Bool.false_ne_true⟩
  · next c hc =>
      obtain ⟨hfilled, hb⟩ := h.rebuild_expansion hc
      have hle := hb.vacated_place_le hb.size_lt a
      rw [hfilled.vacated_eq, Nat.le_zero] at hle
      exact ⟨by omega, fun _ => hle⟩

/-- A table that is halved has no vacated slots. -/
theorem Balanced.vacated_contract {t : ProbeTable α} (h : t.Balanced) :
    t.contract.vacated = if t.contract.capacity = t.capacity then t.vacated else 0 := by
  have hleast := h.least_le
  rw [leastCapacity] at hleast
  rw [ProbeTable.contract]
  split
  · rw [if_pos rfl]
  · next c hc =>
      have hfilled := (h.rebuild_contraction hc).1
      obtain ⟨hhalf, -, -⟩ := contraction?_spec hc
      rw [hfilled.vacated_eq, hfilled.capacity_eq, if_neg (by omega)]

variable [BEq α]

/-- A value that is erased leaves a vacated slot, unless the table is rebuilt. -/
theorem Balanced.vacated_erase {t : ProbeTable α} (h : t.Balanced) {a : α}
    (ha : t.contains a = true) :
    (t.erase a).vacated = if (t.erase a).capacity = t.capacity then t.vacated + 1 else 0 := by
  obtain ⟨i, hi⟩ := Option.isSome_iff_exists.1 ha
  obtain ⟨b, hb, -⟩ := findFrom_eq_some hi
  have heq : t.erase a = (t.vacate i).contract := by rw [ProbeTable.erase, hi]
  rw [heq, (h.vacate hb).vacated_contract, capacity_vacate]
  rfl

/-! ### Wear -/

omit [Digest α] [BEq α] in
/-- Live and vacated slots are worn, and one more if there are vacated ones. -/
def wear (t : ProbeTable α) : Nat :=
  t.size + t.vacated + if t.vacated = 0 then 0 else 1

/-- The change rebuilds the table with the capacity that it has. -/
def Change.cleansUp : Change α → ProbeTable α → Bool
  | insertNew _, t => t.expansion? == some t.capacity
  | erase _, _ => false

/-- A table that is cleaned up is worn by more than three quarters. -/
theorem Reachable.wear_of_cleansUp {t : ProbeTable α} (h : Reachable t) {c : Change α}
    (hc : c.cleansUp t = true) :
    3 * t.capacity + 4 ≤ 4 * wear t ∧ 4 * (t.size + 1) ≤ 3 * t.capacity := by
  cases c with
  | erase a => cases hc
  | insertNew a =>
      have hexpand : t.expansion? = some t.capacity := beq_iff_eq.1 hc
      have hfit := (h.balanced.expansion?_spec hexpand).2
      obtain ⟨k, hk⟩ := h.balanced.least_dvd
      have hfull : 3 * t.capacity < 4 * (t.size + t.vacated + 1) := by
        refine Nat.lt_of_not_le fun hle => ?_
        rw [expansion?, isOverfull_eq_false_iff.2 hle] at hexpand
        cases hexpand
      rw [leastCapacity] at hk
      refine ⟨?_, hfit⟩
      rw [wear, if_neg (by omega)]
      omega

/-- **A call wears one slot at most**, and if it changes the capacity, no more than half of the slots are
worn afterwards. -/
theorem Reachable.wear_apply {t : ProbeTable α} (h : Reachable t) {c : Change α}
    (hc : c.succeeds t = true) :
    ((c.apply t).capacity = t.capacity → wear (c.apply t) ≤ wear t + 1) ∧
      ((c.apply t).capacity ≠ t.capacity → 2 * wear (c.apply t) ≤ (c.apply t).capacity) := by
  -- a change of the capacity leaves nothing vacated and leads to the middle
  have hmiddle : (c.apply t).vacated = 0 → (c.apply t).capacity ≠ t.capacity →
      2 * wear (c.apply t) ≤ (c.apply t).capacity := by
    intro hvac hne
    have hupper := (h.nearMiddle_of_capacity_ne hc hne).2.upper
    rw [wear, if_pos hvac]
    omega
  cases c with
  | insertNew a =>
      obtain ⟨hsize, hcap⟩ := h.balanced.insertNew_numbers a
      obtain ⟨hle, hrebuilt⟩ := h.balanced.vacated_insertNew a
      refine ⟨fun _ => ?_, fun hne => hmiddle (hrebuilt ?_) hne⟩
      · rw [Change.apply, wear, wear, hsize]
        split <;> split <;> omega
      · cases hexpand : t.expansion? with
        | some c => rfl
        | none =>
            have hfit := load_le_of_expansion?_eq_none hexpand
            rw [grownCapacity, if_neg (by omega)] at hcap
            exact absurd hcap hne
  | erase a =>
      obtain ⟨hsize, -⟩ := h.balanced.erase_numbers hc
      have hvac := h.balanced.vacated_erase hc
      refine ⟨fun hsame => ?_, fun hne => hmiddle ?_ hne⟩
      · rw [Change.apply] at hsame ⊢
        rw [if_pos hsame] at hvac
        rw [wear, wear, hvac]
        split <;> omega
      · rw [Change.apply] at hne ⊢
        rw [hvac, if_neg hne]

/-- **Wear adds up slowly.**  If at most `m` slots are worn whenever the capacity is `c`, and `m` is at least
half of `c`, then at most `k` more are worn after `k` calls, whatever happens to the capacity meanwhile. -/
theorem Reachable.wear_run {t : ProbeTable α} (h : Reachable t) {cs : List (Change α)}
    (hs : allSucceed t cs = true) {c m : Nat} (hm : c ≤ 2 * m)
    (ht : t.capacity = c → wear t ≤ m) :
    (run t cs).capacity = c → wear (run t cs) ≤ m + cs.length := by
  induction cs generalizing t m with
  | nil => exact ht
  | cons d cs ih =>
      rw [allSucceed, Bool.and_eq_true] at hs
      obtain ⟨hsame, hother⟩ := h.wear_apply hs.1
      intro hcap
      have hstep : (d.apply t).capacity = c → wear (d.apply t) ≤ m + 1 := by
        intro hc
        by_cases heq : t.capacity = c
        · have hworn := hsame (hc.trans heq.symm)
          have hbefore := ht heq
          omega
        · have hhalf := hother fun hsame => heq (hsame.symm.trans hc)
          omega
      have hrest := ih (h.apply hs.1) hs.2 (by omega) hstep hcap
      rw [List.length_cons]
      calc wear (run t (d :: cs)) ≤ m + 1 + cs.length := hrest
        _ = m + (cs.length + 1) := by omega

theorem reachable_run {t : ProbeTable α} (h : Reachable t) {cs : List (Change α)}
    (hs : allSucceed t cs = true) : Reachable (run t cs) := by
  induction cs generalizing t with
  | nil => exact h
  | cons c cs ih =>
      rw [allSucceed, Bool.and_eq_true] at hs
      exact ih (h.apply hs.1) hs.2

/-! ### Full tables -/

/-- As long as nothing is vacated and there is room, inserted values are placed without rebuilding. -/
theorem Reachable.insertNews {t : ProbeTable α} (h : Reachable t) (hvac : t.vacated = 0) {bs : List α}
    (hs : allSucceed t (bs.map .insertNew) = true)
    (hroom : 4 * (t.size + bs.length) ≤ 3 * t.capacity) :
    Reachable (run t (bs.map .insertNew)) ∧ (run t (bs.map .insertNew)).vacated = 0 ∧
      (run t (bs.map .insertNew)).size = t.size + bs.length ∧
      (run t (bs.map .insertNew)).capacity = t.capacity := by
  induction bs generalizing t with
  | nil => exact ⟨h, hvac, rfl, rfl⟩
  | cons b bs ih =>
      rw [List.map_cons, allSucceed, Bool.and_eq_true] at hs
      rw [List.length_cons] at hroom
      obtain ⟨hsize, hcap⟩ := h.balanced.insertNew_numbers b
      have hnone := (h.balanced.vacated_insertNew b).1
      rw [hvac, Nat.le_zero] at hnone
      rw [grownCapacity, if_neg (by omega)] at hcap
      obtain ⟨hreach, hvacs, hsizes, hcaps⟩ :=
        ih (h.apply hs.1) hnone hs.2 (by rw [Change.apply, hsize, hcap]; omega)
      rw [Change.apply, hsize] at hsizes
      rw [Change.apply, hcap] at hcaps
      refine ⟨hreach, hvacs, hsizes.trans ?_, hcaps⟩
      rw [List.length_cons]
      omega

/-- Three quarters of the slots of a table are live, and none is vacated. -/
structure Full (t : ProbeTable α) : Prop where
  reachable : Reachable t
  vacated_eq : t.vacated = 0
  size_eq : 4 * t.size = 3 * t.capacity

/-- When a value has been erased from a full table, the next one cleans it up. -/
theorem Full.erase {t : ProbeTable α} (h : t.Full) {a : α} (ha : t.contains a = true) :
    (t.erase a).size + 1 = t.size ∧ (t.erase a).capacity = t.capacity ∧
      (t.erase a).expansion? = some (t.erase a).capacity := by
  have hfull := h.size_eq
  obtain ⟨hsize, hcap⟩ := h.reachable.balanced.erase_numbers ha
  have hvac := h.reachable.balanced.vacated_erase ha
  rw [shrunkCapacity, if_neg (by omega)] at hcap
  rw [if_pos hcap, h.vacated_eq] at hvac
  have hover : isOverfull ((t.erase a).size + (t.erase a).vacated + 1) (t.erase a).capacity = true :=
    decide_eq_true (by omega)
  have hfit : isOverfull ((t.erase a).size + 1) (t.erase a).capacity = false :=
    isOverfull_eq_false_iff.2 (by omega)
  refine ⟨hsize, hcap, ?_⟩
  rw [expansion?, hover, hfit]
  rfl

/-- A value is erased and inserted again, a number of times. -/
def rounds (a : α) : Nat → List (Change α)
  | 0 => []
  | k + 1 => .erase a :: .insertNew a :: rounds a k

/-- How many live values a change places anew, because it rebuilds the table. -/
def Change.moved : Change α → ProbeTable α → Nat
  | insertNew _, t => if t.expansion?.isSome then t.size else 0
  | erase a, t =>
      if (t.find? a).any fun i => (t.vacate i).contraction?.isSome then t.size - 1 else 0

/-- How many values are placed anew in a run. -/
def moved : ProbeTable α → List (Change α) → Nat
  | _, [] => 0
  | t, c :: cs => c.moved t + moved (c.apply t) cs

/-- Erasing a value from a full table moves nothing, and inserting it again moves all the others. -/
theorem Full.moved_round {t : ProbeTable α} (h : t.Full) {a : α} (ha : t.contains a = true) :
    (Change.erase a).moved t + (Change.insertNew a).moved (t.erase a) = t.size - 1 := by
  obtain ⟨hsize, -, hexpand⟩ := h.erase ha
  have hkept : ∀ i, (t.vacate i).contraction? = none := by
    intro i
    have hfull := h.size_eq
    have hleast := h.reachable.balanced.least_le
    rw [leastCapacity] at hleast
    rw [contraction?, capacity_vacate]
    refine if_neg fun hlow => ?_
    have hfew : (t.size - 1) * 4 < t.capacity := hlow.2
    omega
  have herase : (t.find? a).any (fun i => (t.vacate i).contraction?.isSome) = false := by
    simp [hkept]
  rw [Change.moved, Change.moved, herase, hexpand, if_neg Bool.false_ne_true,
    if_pos Option.isSome_some]
  omega

section Lawful

variable [EquivBEq α] [LawfulDigest α]

/-- A value that was erased can be inserted again, and this cleans the table up and makes it full. -/
theorem Full.round {t : ProbeTable α} (h : t.Full) {a : α} (ha : t.contains a = true) :
    (t.erase a).contains a = false ∧ ((t.erase a).insertNew a).contains a = true ∧
      ((t.erase a).insertNew a).capacity = t.capacity ∧ ((t.erase a).insertNew a).Full := by
  have hreach : Reachable (t.erase a) := h.reachable.erase a
  have hout : (t.erase a).contains a = false := by
    rw [hreach.wellFormed.contains_eq, (h.reachable.wellFormed.erase_perm a).contains_eq,
      contains_without, BEq.rfl, Bool.not_true, Bool.false_and]
  have hin : ((t.erase a).insertNew a).contains a = true := by
    rw [(hreach.insertNew hout).wellFormed.contains_eq,
      (hreach.wellFormed.insertNew_perm a).contains_eq, List.contains_cons, BEq.rfl, Bool.true_or]
  obtain ⟨hsize, hcap, hexpand⟩ := h.erase ha
  obtain ⟨hsize', hcap'⟩ := hreach.balanced.insertNew_numbers a
  have hvac' := (hreach.balanced.vacated_insertNew a).2 (by rw [hexpand]; rfl)
  have hfull := h.size_eq
  rw [grownCapacity, if_neg (by omega)] at hcap'
  exact ⟨hout, hin, hcap'.trans hcap, hreach.insertNew hout, hvac', by omega⟩

/-- **A full table is cleaned up by every other call**, which moves all values but one. -/
theorem Full.rounds {t : ProbeTable α} (h : t.Full) {a : α} (ha : t.contains a = true) (k : Nat) :
    allSucceed t (ProbeTable.rounds a k) = true ∧
      moved t (ProbeTable.rounds a k) = k * (t.size - 1) ∧
      (run t (ProbeTable.rounds a k ++ [.erase a])).capacity = t.capacity ∧
      (Change.insertNew a).cleansUp (run t (ProbeTable.rounds a k ++ [.erase a])) = true := by
  induction k generalizing t with
  | zero =>
      obtain ⟨-, hcap, hexpand⟩ := h.erase ha
      exact ⟨rfl, (Nat.zero_mul _).symm, hcap, beq_iff_eq.2 hexpand⟩
  | succ k ih =>
      obtain ⟨hout, hin, hcap, hnext⟩ := h.round ha
      obtain ⟨hs, hmoved, hcaps, hclean⟩ := ih hnext hin
      refine ⟨?_, ?_, hcaps.trans hcap, hclean⟩
      · rw [ProbeTable.rounds, allSucceed, allSucceed, Change.succeeds, Change.succeeds]
        simp only [Change.apply, ha, hout, hs, Bool.not_false, Bool.and_self]
      · have hsame : ((t.erase a).insertNew a).size = t.size := by
          have hbefore := h.size_eq
          have hafter := hnext.size_eq
          omega
        calc moved t (ProbeTable.rounds a (k + 1))
            = (Change.erase a).moved t + ((Change.insertNew a).moved (t.erase a)
                + moved ((t.erase a).insertNew a) (ProbeTable.rounds a k)) := rfl
          _ = t.size - 1 + k * (t.size - 1) := by
              rw [← Nat.add_assoc, h.moved_round ha, hmoved, hsame]
          _ = (k + 1) * (t.size - 1) := by rw [Nat.add_one_mul, Nat.add_comm]

end Lawful

/-! ### The next clean-up -/

/-- Values are inserted, and one is erased. -/
def fillAndErase (bs : List α) (a : α) : List (Change α) :=
  bs.map .insertNew ++ [.erase a]

/-- When a table that was just cleaned up is cleaned up again. -/
structure CleanUpsFollow (u : ProbeTable α) : Prop where
  /-- Every call before the next clean-up wears at most one of the slots that are left. -/
  far : ∀ cs (last : Change α), allSucceed u (cs ++ [last]) = true →
    last.cleansUp (run u cs) = true → (run u cs).capacity = u.capacity →
    3 * u.capacity + 4 ≤ 4 * (max u.size (u.capacity / 2) + cs.length)
  /-- With enough room there are an eighth as many calls as slots. -/
  eighth : 8 * u.size ≤ 5 * u.capacity + 8 → ∀ cs (last : Change α),
    allSucceed u (cs ++ [last]) = true → last.cleansUp (run u cs) = true →
    (run u cs).capacity = u.capacity → u.capacity ≤ 8 * cs.length
  /-- Filling the table and erasing a value leads to the next clean-up, and with less room this takes
  fewer calls. -/
  near : ∀ (bs : List α) (a : α), 4 * (u.size + bs.length) = 3 * u.capacity →
    allSucceed u (fillAndErase bs a) = true →
    allSucceed u (fillAndErase bs a ++ [.insertNew a]) = true ∧
    (Change.insertNew a).cleansUp (run u (fillAndErase bs a)) = true ∧
    (run u (fillAndErase bs a)).capacity = u.capacity ∧
    (u.capacity ≤ 8 * (fillAndErase bs a).length ↔ 8 * u.size ≤ 5 * u.capacity + 8)
  /-- Without room every other call cleans the table up, for ever, and moves all values but one. -/
  everyOther : 4 * u.size = 3 * u.capacity → ∀ a, u.contains a = true → ∀ k,
    allSucceed u (rounds a k) = true ∧ moved u (rounds a k) = k * (u.size - 1) ∧
    (run u (rounds a k ++ [.erase a])).capacity = u.capacity ∧
    (Change.insertNew a).cleansUp (run u (rounds a k ++ [.erase a])) = true

/-- **Before a table is cleaned up, the slots that the last clean-up left must be worn.** -/
theorem Reachable.le_of_cleansUp {u : ProbeTable α} (h : Reachable u) (hvac : u.vacated = 0)
    {cs : List (Change α)} {last : Change α} (hs : allSucceed u (cs ++ [last]) = true)
    (hlast : last.cleansUp (run u cs) = true) (hcap : (run u cs).capacity = u.capacity) :
    3 * u.capacity + 4 ≤ 4 * (max u.size (u.capacity / 2) + cs.length) := by
  rw [allSucceed_append, Bool.and_eq_true] at hs
  obtain ⟨k, hk⟩ := h.balanced.least_dvd
  rw [leastCapacity] at hk
  have hstart : u.capacity = u.capacity → wear u ≤ max u.size (u.capacity / 2) := by
    intro _
    rw [wear, if_pos hvac, hvac]
    exact Nat.le_max_left _ _
  have hworn := h.wear_run hs.1 (by omega) hstart hcap
  have hdue := (reachable_run h hs.1).wear_of_cleansUp hlast
  rw [hcap] at hdue
  omega

/-- **The way through a full table to the next clean-up**, which is too short if the room was. -/
theorem Reachable.fillAndErase [EquivBEq α] [LawfulDigest α] {u : ProbeTable α} (h : Reachable u)
    (hvac : u.vacated = 0) {bs : List α} {a : α} (hfill : 4 * (u.size + bs.length) = 3 * u.capacity)
    (hs : allSucceed u (ProbeTable.fillAndErase bs a) = true) :
    allSucceed u (ProbeTable.fillAndErase bs a ++ [.insertNew a]) = true ∧
      (Change.insertNew a).cleansUp (run u (ProbeTable.fillAndErase bs a)) = true ∧
      (run u (ProbeTable.fillAndErase bs a)).capacity = u.capacity ∧
      (u.capacity ≤ 8 * (ProbeTable.fillAndErase bs a).length ↔ 8 * u.size ≤ 5 * u.capacity + 8) := by
  have hrun : run u (ProbeTable.fillAndErase bs a) = (run u (bs.map .insertNew)).erase a := by
    rw [run, ProbeTable.fillAndErase, List.foldl_append]
    rfl
  have hlength : (ProbeTable.fillAndErase bs a).length = bs.length + 1 := by
    simp [ProbeTable.fillAndErase]
  have hparts := hs
  rw [ProbeTable.fillAndErase, allSucceed_append, Bool.and_eq_true] at hparts
  -- inserting makes the table full
  obtain ⟨hreach, hvacs, hsize, hcap⟩ := h.insertNews hvac hparts.1 (Nat.le_of_eq hfill)
  have hfull : (run u (bs.map .insertNew)).Full := ⟨hreach, hvacs, by rw [hsize, hcap, hfill]⟩
  have ha : (run u (bs.map .insertNew)).contains a = true := by
    simpa [allSucceed, Change.succeeds] using hparts.2
  obtain ⟨-, hcap', hexpand⟩ := hfull.erase ha
  rw [allSucceed_append, hs, hrun, hlength]
  refine ⟨?_, beq_iff_eq.2 hexpand, hcap'.trans hcap, by omega⟩
  simp [allSucceed, Change.succeeds, (hfull.round ha).1]

/-- **The room that is left decides when the next clean-up comes.**  In a run of successful changes from a
table that can come about, let one clean the table up.  The capacity is then the same, and nothing is
vacated.  The next clean-up at this capacity comes after an eighth as many calls as there are slots if at
most five eighths of the slots are live, or one more value.  If more are live, there is a shorter way to it,
and if three quarters are, every other call leads to one. -/
theorem clean_up_leaves_room [EquivBEq α] [LawfulDigest α] {t : ProbeTable α} (h : Reachable t)
    {first : Change α} (hs : first.succeeds t = true) (hfirst : first.cleansUp t = true) :
    (first.apply t).capacity = t.capacity ∧ (first.apply t).vacated = 0 ∧
      (first.apply t).size = t.size + 1 ∧ CleanUpsFollow (first.apply t) := by
  cases first with
  | erase a => cases hfirst
  | insertNew a =>
      have hexpand : t.expansion? = some t.capacity := beq_iff_eq.1 hfirst
      have hroom := (h.wear_of_cleansUp hfirst).2
      obtain ⟨hsize, hcap⟩ := h.balanced.insertNew_numbers a
      have hvac := (h.balanced.vacated_insertNew a).2 (by rw [hexpand]; rfl)
      rw [grownCapacity, if_neg (by omega)] at hcap
      have hreach := h.apply hs
      refine ⟨hcap, hvac, hsize, fun cs last => hreach.le_of_cleansUp hvac, ?_, ?_, ?_⟩
      · intro hfew cs last hcs hlast hsame
        have hfar := hreach.le_of_cleansUp hvac hcs hlast hsame
        omega
      · intro bs b hfill hbs
        exact hreach.fillAndErase hvac hfill hbs
      · intro hfull b hb k
        exact Full.rounds ⟨hreach, hvac, hfull⟩ hb k

/-- A table of forty-seven words and a vacated slot is cleaned up by the next word.  It is then full, and
erasing a word and inserting it again cleans it up each time. -/
theorem clean_up_leaves_room_of_words :
    let t := (ofDistinct ((List.range 48).map UInt64.ofNat)).erase 0
    let u := t.insertNew 48
    Reachable t ∧ t.contains 48 = false ∧ (Change.insertNew 48).cleansUp t = true ∧
      u.capacity = 64 ∧ u.size = 48 ∧
      ∀ k, allSucceed u (rounds 48 k) = true ∧ moved u (rounds 48 k) = k * 47 := by
  intro t u
  have hreach : Reachable t := .erase (.ofDistinct (by decide +kernel)) 0
  have hnumbers : (Change.insertNew 48).succeeds t = true ∧ t.contains 48 = false ∧
      (Change.insertNew 48).cleansUp t = true ∧ t.capacity = 64 ∧ t.size = 47 ∧
      u.contains 48 = true := by
    decide +kernel
  obtain ⟨hs, hnew, hclean, hcap, hsize, hin⟩ := hnumbers
  obtain ⟨hsame, -, hmore, hfollow⟩ := clean_up_leaves_room hreach hs hclean
  rw [hcap] at hsame
  rw [hsize] at hmore
  have hfull : 4 * u.size = 3 * u.capacity := by
    rw [show u.size = 47 + 1 from hmore, show u.capacity = 64 from hsame]
  refine ⟨hreach, hnew, hclean, hsame, hmore, fun k => ?_⟩
  obtain ⟨hrounds, hmoved, -⟩ := hfollow.everyOther hfull 48 hin k
  rw [hmore] at hmoved
  exact ⟨hrounds, hmoved⟩

/-- Of forty-eight words in sixty-four slots two are erased, and the next word cleans the table up.  After
three more calls it is cleaned up again. -/
theorem clean_ups_in_close_succession :
    let t := ((ofDistinct ((List.range 48).map UInt64.ofNat)).erase 0).erase 1
    let cs : List (Change UInt64) := [.insertNew 49, .erase 2, .erase 3]
    Reachable t ∧ allSucceed t (.insertNew 48 :: cs ++ [.insertNew 50]) = true ∧
      (Change.insertNew 48).cleansUp t = true ∧
      (Change.insertNew 50).cleansUp (run t (.insertNew 48 :: cs)) = true ∧
      t.capacity = 64 ∧ (run t (.insertNew 48 :: cs)).capacity = 64 ∧ ¬64 ≤ 8 * cs.length := by
  intro t cs
  have hreach : Reachable t := .erase (.erase (.ofDistinct (by decide +kernel)) 0) 1
  exact ⟨hreach, by decide +kernel⟩

end ProbeTable

end GraphIndex
