/-
**Equality of dictionaries.**  Two dictionaries are equal exactly if they have the same keys with equal
values, whatever has happened to either of them.

Equality looks at one side only: the dictionaries are of one size, and the second one has an equal value
for each key of the first one.  That the first one has all keys of the second one follows by counting.  So
neither the order of storage nor the tier plays a part, and equality is symmetric and transitive because
equality of values is.  It is not reflexive: a dictionary that has a NaN among its values is not equal to
itself.

Main definitions:

* `Dictionary.Agrees` — two dictionaries have the same keys with equal values;
* `Dictionary.Reached` — the dictionaries that runs lead to.

Main results:

* `Dictionary.WellFormed.equal_iff` — **dictionaries are equal if they agree**;
* `Dictionary.WellFormed.equal_self_iff` — which dictionaries are equal to themselves;
* `Dictionary.equality_and_maps_forget_storage` — equality and the two conversions, for all dictionaries
  that are reached.
-/
import GraphIndex.Proofs.Dictionary.Entries
import GraphIndex.Proofs.Value.Key
import Mathlib.Data.List.Perm.Subperm

set_option autoImplicit false

namespace GraphIndex

namespace Dictionary

variable {d e f : Dictionary}

/-! ### Agreement -/

/-- The dictionaries have the same keys, with equal values. -/
structure Agrees (d e : Dictionary) : Prop where
  mem_keys_iff : ∀ k, k ∈ d.keys ↔ k ∈ e.keys
  values_equal : ∀ k v w, d.get? k = some v → e.get? k = some w → v.equal w = true

theorem Agrees.symm (h : Agrees d e) : Agrees e d where
  mem_keys_iff k := (h.mem_keys_iff k).symm
  values_equal k v w hv hw := Value.equal_symm (h.values_equal k w v hw hv)

theorem Agrees.exists_equal (hd : d.WellFormed) (he : e.WellFormed) (h : Agrees d e) {k : String}
    {v : Value} (hv : d.get? k = some v) : ∃ w, e.get? k = some w ∧ v.equal w = true := by
  have hk : k ∈ e.keys := (h.mem_keys_iff k).1 (hd.mem_keys_iff.2 ⟨v, hv⟩)
  obtain ⟨w, hw⟩ := he.mem_keys_iff.1 hk
  exact ⟨w, hw, h.values_equal k v w hv hw⟩

/-- The value of a key in the dictionary in between is equal to both others. -/
theorem Agrees.trans (hd : d.WellFormed) (he : e.WellFormed) (h : Agrees d e) (h' : Agrees e f) :
    Agrees d f where
  mem_keys_iff k := (h.mem_keys_iff k).trans (h'.mem_keys_iff k)
  values_equal k v u hv hu := by
    obtain ⟨w, hw, hequal⟩ := h.exists_equal hd he hv
    exact Value.equal_trans hequal (h'.values_equal k w u hw hu)

/-! ### Equal dictionaries -/

/-- What is compared: every key of the first dictionary has an equal value in the second one. -/
theorem WellFormed.all_entries_iff (hd : d.WellFormed) :
    (d.entries.all fun (k, v) => (e.get? k).any fun w => v.equal w) = true ↔
      ∀ k v, d.get? k = some v → ∃ w, e.get? k = some w ∧ v.equal w = true := by
  simp only [List.all_eq_true, Prod.forall, ← hd.get?_eq_some_iff, Option.any_eq_true]

/-- **Dictionaries are equal if they agree.** -/
theorem WellFormed.equal_iff (hd : d.WellFormed) (he : e.WellFormed) :
    d.equal e = true ↔ Agrees d e := by
  rw [equal, Bool.and_eq_true, beq_iff_eq, hd.all_entries_iff, hd.size_eq_length_keys,
    he.size_eq_length_keys]
  constructor
  · rintro ⟨hsize, hall⟩
    have hsub : d.keys ⊆ e.keys := by
      intro k hk
      obtain ⟨v, hv⟩ := hd.mem_keys_iff.1 hk
      obtain ⟨w, hw, -⟩ := hall k v hv
      exact he.mem_keys_iff.2 ⟨w, hw⟩
    -- no key comes twice, so there is no room for further keys in the second dictionary
    have hperm : d.keys.Perm e.keys :=
      (List.subperm_of_subset hd.nodup hsub).perm_of_length_le (Nat.le_of_eq hsize.symm)
    refine ⟨fun k => hperm.mem_iff, fun k v w hv hw => ?_⟩
    obtain ⟨w', hw', hequal⟩ := hall k v hv
    obtain rfl := Option.some_inj.1 (hw'.symm.trans hw)
    exact hequal
  · intro h
    have hperm : d.keys.Perm e.keys :=
      (List.perm_ext_iff_of_nodup hd.nodup he.nodup).2 h.mem_keys_iff
    exact ⟨hperm.length_eq, fun k v hv => h.exists_equal hd he hv⟩

/-- A dictionary is equal to itself unless it has a NaN. -/
theorem WellFormed.equal_self_iff (hd : d.WellFormed) :
    d.equal d = true ↔ ∀ k v, d.get? k = some v → v.isNaN = false := by
  rw [hd.equal_iff hd]
  constructor
  · intro h k v hv
    exact Value.equal_self_iff.1 (h.values_equal k v v hv hv)
  · intro hnan
    refine ⟨fun k => Iff.rfl, fun k v w hv hw => ?_⟩
    obtain rfl := Option.some_inj.1 (hv.symm.trans hw)
    exact Value.equal_self_iff.2 (hnan k v hv)

/-! ### Runs -/

/-- A run leads to the dictionary. -/
def Reached (d : Dictionary) : Prop :=
  ∃ es cs, run es cs = d

theorem Reached.wellFormed (h : Reached d) : d.WellFormed := by
  obtain ⟨es, cs, rfl⟩ := h
  exact (represents_run es cs).wellFormed

/-- **Equality and finite maps do not depend on how dictionaries are stored.**  Of all dictionaries that
runs lead to, two are equal exactly if they have the same keys with equal values.  So equality is
symmetric and transitive, and a dictionary is equal to itself exactly if no value in it is a NaN.

A dictionary that is made of entries has for each key the last value.  The finite map of a dictionary that
is reached has what the dictionary has, and in whatever order it is enumerated, the dictionary that is
made of it has the same contents in the same tier; and every finite map comes back from every dictionary
that is made of it. -/
theorem equality_and_maps_forget_storage :
    (∀ d e, Reached d → Reached e → (d.equal e = true ↔ Agrees d e)) ∧
    (∀ d e, Reached d → Reached e → d.equal e = true → e.equal d = true) ∧
    (∀ d e f, Reached d → Reached e → Reached f →
      d.equal e = true → e.equal f = true → d.equal f = true) ∧
    (∀ d, Reached d → (d.equal d = true ↔ ∀ k v, d.get? k = some v → v.isNaN = false)) ∧
    (∀ es k, (ofList es).get? k = ((es.filter fun e => e.1 = k).getLast?).map Prod.snd) ∧
    (∀ d, Reached d → (∀ k, d.toMap[k]? = d.get? k) ∧
      ∀ order, order.Perm d.toMap.toList → (∀ k, (ofList order).get? k = d.get? k) ∧
        (ofList order).entries.Perm d.entries ∧ (ofList order).size = d.size ∧
        (ofList order).tier = d.tier) ∧
    ∀ (m : Std.ExtTreeMap String Value Text.compare) (order : List (String × Value)),
      order.Perm m.toList → (ofList order).toMap = m := by
  refine ⟨fun d e hd he => hd.wellFormed.equal_iff he.wellFormed, fun d e hd he h => ?_,
    fun d e f hd he hf h h' => ?_, fun d hd => hd.wellFormed.equal_self_iff, get?_ofList,
    fun d hd => ⟨hd.wellFormed.getElem?_toMap, fun order h => ?_⟩, fun m order => toMap_ofList⟩
  · rw [hd.wellFormed.equal_iff he.wellFormed] at h
    exact (he.wellFormed.equal_iff hd.wellFormed).2 h.symm
  · rw [hd.wellFormed.equal_iff he.wellFormed] at h
    rw [he.wellFormed.equal_iff hf.wellFormed] at h'
    exact (hd.wellFormed.equal_iff hf.wellFormed).2 (h.trans hd.wellFormed he.wellFormed h')
  · have himage := hd.wellFormed.image_ofMap h
    refine ⟨fun k => (himage.get?_eq k).trans Option.map_id_apply, ?_, himage.size_eq,
      himage.tier_eq⟩
    exact himage.entries_perm.trans (List.Perm.of_eq (List.map_id _))

/-- Of seven keys the last one is removed, and the others are set in reverse, with a zero of the other
sign: two lists of entries in different orders, but equal dictionaries.  With a NaN, a dictionary differs
from itself and comes back from its map all the same. -/
theorem equality_and_maps_forget_storage_of_numbers :
    let es := [("a", .float .zero), ("b", .int 1), ("c", .null), ("d", .bool true),
      ("e", .string "x"), ("f", .bytes [])]
    let d := run (es ++ [("g", .null)]) [.remove "g"]
    let e := run (("a", .null) :: es.reverse) [.set "a" (.float Binary64.zero.neg)]
    let n := run [("x", .float .quietNaN), ("x", .int 1), ("x", .float .quietNaN)] []
    d.entries ≠ e.entries ∧ d.equal e = true ∧ e.equal d = true ∧ (∀ k, k ∈ d.keys ↔ k ∈ e.keys) ∧
    d.equal d = true ∧ n.equal n = false ∧ n.get? "x" = some (.float .quietNaN) ∧
    (ofList d.toMap.toList.reverse).tier = .inline 6 ∧
    (ofList n.toMap.toList).get? "x" = some (.float .quietNaN) ∧
    (ofList n.toMap.toList).toMap = n.toMap := by
  intro es d e n
  have hd : Reached d := ⟨_, _, rfl⟩
  have he : Reached e := ⟨_, _, rfl⟩
  have hn : Reached n := ⟨_, _, rfl⟩
  obtain ⟨hiff, hsymm, htrans, hself, hlast, hmap, hback⟩ := equality_and_maps_forget_storage
  have hequal : d.equal e = true := by decide +kernel
  have hequal' := hsymm d e hd he hequal
  have hx : n.get? "x" = some (.float .quietNaN) := (hlast _ "x").trans (by decide +kernel)
  have hne : n.equal n = false :=
    Bool.eq_false_iff.2 fun h => absurd ((hself n hn).1 h "x" _ hx) (by decide)
  obtain ⟨-, horders⟩ := hmap d hd
  obtain ⟨-, -, -, htier⟩ := horders _ (List.reverse_perm _)
  obtain ⟨-, horders'⟩ := hmap n hn
  obtain ⟨hget, -⟩ := horders' _ (List.Perm.refl _)
  exact ⟨by decide +kernel, hequal, hequal', ((hiff d e hd he).1 hequal).mem_keys_iff,
    htrans d e d hd he hd hequal hequal', hne, hx, htier.trans (by decide +kernel),
    (hget "x").trans hx, hback _ _ (List.Perm.refl _)⟩

end Dictionary

end GraphIndex
