/-
**Taking an item out of a list.**  The last item moves into the place of the one that is taken out,
so that no other item moves.

Main definitions:

* `swapErase` — the list without the item at a position.

Main results:

* `getElem_cons_swapErase_perm` — up to order, only the item at the position is missing.
-/

set_option autoImplicit false

namespace GraphIndex

/-- The list without the item at position `i`, whose place the last item takes. -/
def swapErase {α : Type} (xs : List α) (i : Nat) : List α :=
  match xs.getLast? with
  | none => []
  | some last => (xs.set i last).dropLast

/-- Up to order, replacing an item exchanges it for the new one. -/
theorem getElem_cons_set_perm {α : Type} (a : α) :
    ∀ (xs : List α) (i : Nat) (h : i < xs.length), (xs[i] :: xs.set i a).Perm (a :: xs)
  | [], i, h => absurd h (Nat.not_lt_zero i)
  | b :: bs, 0, _ => List.Perm.swap a b bs
  | b :: bs, i + 1, h => by
      have ih := getElem_cons_set_perm a bs i (Nat.lt_of_succ_lt_succ h)
      exact (List.Perm.swap b _ _).trans ((ih.cons b).trans (List.Perm.swap a b bs))

/-- Up to order, the list is what is left and the item at the position. -/
theorem getElem_cons_swapErase_perm {α : Type} {xs : List α} {i : Nat} (h : i < xs.length) :
    (xs[i] :: swapErase xs i).Perm xs := by
  rcases List.eq_nil_or_concat xs with rfl | ⟨ys, y, rfl⟩
  · simp at h
  · unfold swapErase
    simp only [List.concat_eq_append] at h ⊢
    simp only [List.getLast?_append, List.getLast?_singleton, Option.some_or]
    rcases Nat.lt_or_ge i ys.length with hi | hi
    · rw [List.set_append_left _ _ hi, List.dropLast_concat, List.getElem_append_left hi]
      exact (getElem_cons_set_perm y ys i hi).trans (List.perm_append_singleton y ys).symm
    · have hlen : i = ys.length := by simp at h; omega
      subst hlen
      simpa using (List.perm_append_singleton y ys).symm

/-- One item less is left, whatever the position. -/
theorem length_swapErase {α : Type} (xs : List α) (i : Nat) :
    (swapErase xs i).length = xs.length - 1 := by
  unfold swapErase
  split <;> simp_all

end GraphIndex
