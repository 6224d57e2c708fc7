/-
**Runs of a probe table.**  What holds of every table that can come about.

A table comes about from a list of distinct values, by inserting values that it does not contain and
by erasing values.  Every such table is well formed, and each time it is rebuilt on the way, no
value is lost, no slot stays vacated, and the capacity that was chosen has room for the value that
is waiting.

Main definitions:

* `ProbeTable.Reachable` — the tables that can come about.

Main results:

* `ProbeTable.Reachable.balanced`, `ProbeTable.Reachable.wellFormed` — every step keeps the invariant,
  and so does every run;
* `ProbeTable.reachable_invariant` — **the invariant, and what rebuilding does**.
-/
import GraphIndex.Proofs.ProbeTable.Change

set_option autoImplicit false

namespace GraphIndex

namespace ProbeTable

variable {α : Type} [BEq α] [Digest α]

/-- The tables that can come about. -/
inductive Reachable : ProbeTable α → Prop
  | ofDistinct {as : List α} (h : Distinct as) : Reachable (ofDistinct as)
  /-- A value that the table does not contain is inserted. -/
  | insertNew {t : ProbeTable α} (h : Reachable t) {a : α} (ha : t.contains a = false) :
      Reachable (t.insertNew a)
  | erase {t : ProbeTable α} (h : Reachable t) (a : α) : Reachable (t.erase a)

/-- The numbers are right in every table, whatever digest its values have. -/
theorem Reachable.balanced {t : ProbeTable α} (h : Reachable t) : t.Balanced := by
  induction h with
  | ofDistinct _ => exact Balanced.ofDistinct _
  | insertNew _ _ ih => exact ih.insertNew _
  | erase _ a ih => exact ih.erase a

variable [EquivBEq α] [LawfulDigest α]

/-- Every table is well formed. -/
theorem Reachable.wellFormed {t : ProbeTable α} (h : Reachable t) : t.WellFormed := by
  induction h with
  | ofDistinct h => exact WellFormed.ofDistinct h
  | @insertNew t _ a ha ih =>
      rw [ih.contains_eq] at ha
      exact ih.insertNew ha
  | erase _ a ih => exact ih.erase a

/-- **Every table is well formed, and a quarter of its slots are empty.  When it is about to be
expanded, its capacity is kept or doubled once, which leaves room for one more value; when it is
contracted, its capacity is halved.  Either way the rebuilt table has the same values and nothing
vacated.** -/
theorem reachable_invariant {t : ProbeTable α} (h : Reachable t) :
    t.WellFormed ∧
    t.capacity ≤ 4 * t.slots.toList.countP (fun s => s.isHole && !s.isVacated) ∧
    (∀ c, t.expansion? = some c →
      BuiltFrom t.toList c (t.rebuild c) ∧ (c = t.capacity ∨ c = t.capacity * 2) ∧
        4 * (t.size + 1) ≤ 3 * c) ∧
    (∀ a i c, t.find? a = some i → (t.vacate i).contraction? = some c →
      BuiltFrom (without t.toList a) c ((t.vacate i).rebuild c) ∧ c = t.capacity / 2) ∧
    (∀ a, t.contains a = false → (t.insertNew a).toList.Perm (a :: t.toList)) ∧
    ∀ a, (t.erase a).toList.Perm (without t.toList a) := by
  have hwf := h.wellFormed
  refine ⟨hwf, hwf.capacity_le, ?_, ?_, fun a _ => hwf.insertNew_perm a, hwf.erase_perm⟩
  · intro c hc
    exact ⟨(hwf.rebuild_expansion hc).1, hwf.expansion?_spec hc⟩
  · intro a i c hi hc
    obtain ⟨b, hb, hba⟩ := hwf.find?_eq_some_iff.1 hi
    have hbuilt := ((hwf.vacate hb).rebuild_contraction hc).1
    have hperm := perm_without (vacate_perm hb) hba hwf.distinct
    refine ⟨⟨hbuilt.consistent, hbuilt.perm.trans hperm, hbuilt.capacity_eq, hbuilt.vacated_eq⟩, ?_⟩
    rw [← capacity_vacate t i]
    exact (contraction?_spec hc).1

/-- A table of 48 words from which one is erased is about to be rebuilt with the same capacity. -/
theorem reachable_invariant_of_words :
    let t := (ofDistinct ((List.range 48).map UInt64.ofNat)).erase 7
    t.expansion? = some 64 ∧ t.vacated = 1 ∧
      BuiltFrom t.toList 64 (t.rebuild 64) ∧ 4 * (t.size + 1) ≤ 3 * 64 := by
  intro t
  have hreach : Reachable t := .erase (.ofDistinct (by decide +kernel)) 7
  obtain ⟨-, -, hexpand, -⟩ := reachable_invariant hreach
  have hc : t.expansion? = some 64 := by decide +kernel
  obtain ⟨hbuilt, -, hroom⟩ := hexpand 64 hc
  exact ⟨hc, by decide +kernel, hbuilt, hroom⟩

end ProbeTable

end GraphIndex
