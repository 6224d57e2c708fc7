/-
**What happens to shared values.**  The values and the numbers of holders after each operation.

An operation on one reference leaves the values of all others alone, and most leave all values alone.
The exception is giving back the last hold on a value, with which the value is gone.  Making a value
one's own moves one hold from the reference to the answer, which nobody else holds: whoever holds the
old reference besides still finds the old value there.

Main results:

* `Heap.holders_hold`, `Heap.holders_release`, `Heap.read?_release` — one holder more and one less;
* `Heap.own_spec` — **a value that is one's own is held by nobody else**, and has the same content;
* `Heap.update?_spec` — changing a value changes no other one.
-/
import GraphIndex.Heap

set_option autoImplicit false

namespace GraphIndex

namespace Heap

variable {α β : Type} {h : Heap α} {r q : Ref}

/-! ### Cells -/

theorem index_ne (hne : q ≠ r) : q.index ≠ r.index := by
  intro hindex
  cases q
  cases r
  exact hne (congrArg Ref.mk hindex)

theorem lt_of_cell? {c : Cell α} (hc : h.cell? r = some c) : r.index < h.cells.size := by
  rcases Nat.lt_or_ge r.index h.cells.size with hlt | hge
  · exact hlt
  · rw [cell?, Array.getElem?_eq_none hge] at hc
    cases hc

theorem cell?_put_of_ne (hne : q ≠ r) (c : Option (Cell α)) : (h.put r c).cell? q = h.cell? q := by
  rw [cell?, cell?, put, Array.getElem?_setIfInBounds_ne (index_ne hne).symm]

theorem cell?_put_self {c₀ : Cell α} (hr : h.cell? r = some c₀) (c : Option (Cell α)) :
    (h.put r c).cell? r = c := by
  rw [cell?, put, Array.getElem?_setIfInBounds_self_of_lt (lt_of_cell? hr)]
  rfl

/-- Where there is no cell, none is made. -/
theorem put_none (hr : h.cell? r = none) : (h.put r none).cell? q = h.cell? q := by
  by_cases hqr : q = r
  · subst hqr
    rw [hr, cell?, put, Array.getElem?_setIfInBounds_self]
    split <;> rfl
  · exact cell?_put_of_ne hqr none

theorem exists_cell (hpos : 0 < h.holders r) :
    ∃ c, h.cell? r = some c ∧ h.holders r = c.others + 1 := by
  rw [holders] at hpos ⊢
  cases hc : h.cell? r with
  | none => simp [hc] at hpos
  | some c => exact ⟨c, rfl, rfl⟩

theorem holders_of_cell? {c : Cell α} (hc : h.cell? r = some c) : h.holders r = c.others + 1 := by
  rw [holders, hc]

theorem holders_of_none (hr : h.cell? r = none) : h.holders r = 0 := by
  rw [holders, hr]

theorem holders_congr {h' : Heap α} (hc : h'.cell? q = h.cell? q) :
    h'.holders q = h.holders q := by
  rw [holders, holders, hc]

theorem read?_congr {h' : Heap α} (hc : h'.cell? q = h.cell? q) : h'.read? q = h.read? q := by
  rw [read?, read?, hc]

/-- What is held can be read. -/
theorem isSome_read? (hpos : 0 < h.holders r) : (h.read? r).isSome = true := by
  obtain ⟨c, hc, -⟩ := exists_cell hpos
  rw [read?, hc]
  rfl

/-! ### One holder more, one holder less -/

theorem read?_hold (h : Heap α) (r q : Ref) : (h.hold r).read? q = h.read? q := by
  rw [hold]
  cases hc : h.cell? r with
  | none => exact read?_congr (put_none hc)
  | some c =>
      by_cases hqr : q = r
      · subst hqr
        rw [read?, read?, cell?_put_self hc, hc]
        rfl
      · exact read?_congr (cell?_put_of_ne hqr _)

theorem holders_hold (hpos : 0 < h.holders r) (q : Ref) :
    (h.hold r).holders q = h.holders q + if r = q then 1 else 0 := by
  obtain ⟨c, hc, -⟩ := exists_cell hpos
  rw [hold, hc]
  by_cases hqr : r = q
  · subst hqr
    rw [if_pos rfl, holders_of_cell? hc, Option.map_some, holders_of_cell? (cell?_put_self hc _)]
  · rw [if_neg hqr]
    exact holders_congr (cell?_put_of_ne (Ne.symm hqr) _)

theorem holders_release (h : Heap α) (r q : Ref) :
    (h.release r).holders q = h.holders q - if r = q then 1 else 0 := by
  rw [release]
  by_cases hqr : r = q
  · subst hqr
    rw [if_pos rfl]
    cases hc : h.cell? r with
    | none => rw [Option.bind_none, holders_congr (put_none hc), holders_of_none hc]
    | some c =>
        rw [Option.bind_some, holders_of_cell? hc, holders, cell?_put_self hc]
        by_cases hlast : c.others = 0
        · simp [hlast]
        · rw [if_neg hlast]
          show c.others - 1 + 1 = c.others + 1 - 1
          omega
  · rw [if_neg hqr]
    exact holders_congr (cell?_put_of_ne (Ne.symm hqr) _)

/-- A value is kept as long as somebody else holds it. -/
theorem read?_release (hkept : q ≠ r ∨ 1 < h.holders r) : (h.release r).read? q = h.read? q := by
  rw [release]
  by_cases hqr : q = r
  · subst hqr
    have hmore : 1 < h.holders q := hkept.resolve_left fun hne => hne rfl
    obtain ⟨c, hc, hcount⟩ := exists_cell (Nat.lt_trans Nat.zero_lt_one hmore)
    have hlast : c.others ≠ 0 := by omega
    rw [hc, Option.bind_some, if_neg hlast, read?, read?, cell?_put_self hc, hc]
    rfl
  · exact read?_congr (cell?_put_of_ne hqr _)

/-- What is still held is kept. -/
theorem read?_release_of_held (hpos : 0 < (h.release r).holders q) :
    (h.release r).read? q = h.read? q := by
  refine read?_release ?_
  rw [holders_release] at hpos
  by_cases hqr : r = q
  · subst hqr
    rw [if_pos rfl] at hpos
    exact .inr (by omega)
  · exact .inl (Ne.symm hqr)

/-! ### New values -/

/-- The reference of a new value is new. -/
theorem holders_allocate_fst (h : Heap α) (a : α) : h.holders (h.allocate a).1 = 0 := by
  refine holders_of_none ?_
  rw [allocate, cell?, Array.getElem?_eq_none (Nat.le_refl _)]
  rfl

theorem ne_allocate_fst (a : α) (hpos : 0 < h.holders q) : q ≠ (h.allocate a).1 := by
  rintro rfl
  rw [holders_allocate_fst] at hpos
  exact Nat.lt_irrefl 0 hpos

theorem cell?_allocate_fst (h : Heap α) (a : α) :
    (h.allocate a).2.cell? (h.allocate a).1 = some ⟨a, 0⟩ := by
  rw [allocate, cell?, Array.getElem?_push_size]
  rfl

theorem cell?_allocate_of_ne {a : α} (hne : q ≠ (h.allocate a).1) :
    (h.allocate a).2.cell? q = h.cell? q := by
  have hindex : q.index ≠ h.cells.size := index_ne hne
  rw [allocate, cell?, cell?, Array.getElem?_push, if_neg hindex]

theorem holders_allocate (h : Heap α) (a : α) (q : Ref) :
    (h.allocate a).2.holders q = h.holders q + if (h.allocate a).1 = q then 1 else 0 := by
  by_cases hq : (h.allocate a).1 = q
  · rw [if_pos hq, ← hq, holders_allocate_fst, holders_of_cell? (cell?_allocate_fst h a)]
  · rw [if_neg hq]
    exact holders_congr (cell?_allocate_of_ne (Ne.symm hq))

/-! ### A value of one's own -/

/-- **A value that is one's own is held by nobody else.**  It has the content of the value it was made
of.  One hold has moved to it, and whoever held the old value besides still finds it. -/
theorem own_spec (hpos : 0 < h.holders r) :
    (h.own r).2.read? (h.own r).1 = h.read? r ∧ (h.own r).2.holders (h.own r).1 = 1 ∧
    (∀ q, (h.own r).2.holders q + (if r = q then 1 else 0) =
      h.holders q + if (h.own r).1 = q then 1 else 0) ∧
    ∀ q, (if r = q then 1 else 0) < h.holders q →
      q ≠ (h.own r).1 ∧ (h.own r).2.read? q = h.read? q := by
  obtain ⟨c, hc, hcount⟩ := exists_cell hpos
  by_cases hlast : c.others = 0
  · -- nobody else holds the value
    have hown : h.own r = (r, h) := by simp only [own, hc, hlast, if_true]
    rw [hown]
    dsimp only
    refine ⟨rfl, by omega, fun q => rfl, fun q hq => ⟨?_, rfl⟩⟩
    rintro rfl
    rw [if_pos rfl] at hq
    omega
  · have hown : h.own r =
        ((h.allocate c.value).1, (h.allocate c.value).2.release r) := by
      simp only [own, hc, if_neg hlast]
    have hfresh : r ≠ (h.allocate c.value).1 := ne_allocate_fst c.value hpos
    have hzero := holders_allocate_fst h c.value
    have hshared : 1 < (h.allocate c.value).2.holders r := by
      rw [holders_allocate, if_neg hfresh.symm]
      omega
    rw [hown]
    dsimp only
    refine ⟨?_, ?_, fun q => ?_, fun q hq => ⟨?_, ?_⟩⟩
    · rw [read?_release (.inl hfresh.symm), read?, cell?_allocate_fst, read?, hc]
      rfl
    · rw [holders_release, holders_allocate, if_pos rfl, if_neg hfresh]
      omega
    · rw [holders_release, holders_allocate]
      by_cases hqr : r = q
      · subst hqr
        rw [if_pos rfl, if_neg hfresh.symm]
        omega
      · rw [if_neg hqr]
        rfl
    · exact ne_allocate_fst c.value (by omega)
    · have hne : q ≠ (h.allocate c.value).1 := ne_allocate_fst c.value (by omega)
      rw [read?_release (.inr hshared)]
      exact read?_congr (cell?_allocate_of_ne hne)

/-! ### Changing a value -/

/-- **Changing a value changes no other one**, and no number of holders. -/
theorem update?_spec {a : α} (hr : h.read? r = some a) (f : α → β × α) :
    ∃ h', h.update? r f = some ((f a).1, h') ∧ h'.read? r = some (f a).2 ∧
      (∀ q, q ≠ r → h'.read? q = h.read? q) ∧ ∀ q, h'.holders q = h.holders q := by
  obtain ⟨c, hc, rfl⟩ := Option.map_eq_some_iff.1 hr
  refine ⟨h.put r (some { c with value := (f c.value).2 }), ?_, ?_, fun q hq => ?_, fun q => ?_⟩
  · rw [update?, hc]
  · rw [read?, cell?_put_self hc]
    rfl
  · exact read?_congr (cell?_put_of_ne hq _)
  · by_cases hqr : q = r
    · subst hqr
      rw [holders_of_cell? hc, holders_of_cell? (cell?_put_self hc _)]
    · exact holders_congr (cell?_put_of_ne hqr _)

end Heap

end GraphIndex
