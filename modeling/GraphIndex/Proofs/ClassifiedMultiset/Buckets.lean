/-
**Cells in buckets.**  What the buckets of a classified multiset do to the list of its cells.

Up to order, a change of one chain changes one cell of the whole list and leaves the others as they
are, and a new number of buckets leaves all of them as they are.  This is so because every cell
sits in the bucket of its classifier: the cells in the other buckets have other classifiers.

Main definitions:

* `ClassifiedMultiset.alter?`, `ClassifiedMultiset.alterCells` — the set of one classifier is
  changed, in its cell and in a list of cells;
* `ClassifiedMultiset.Placed` — every cell sits in the bucket of its classifier.

Main results:

* `ClassifiedMultiset.find?_alterCells` — **only the cell of the classifier is changed**;
* `ClassifiedMultiset.Placed.find?_chain` — a cell is found in its chain if it is in the table;
* `ClassifiedMultiset.Placed.alterCell`, `ClassifiedMultiset.Placed.alterCell_perm` — a change of
  one chain;
* `ClassifiedMultiset.placed_resize`, `ClassifiedMultiset.resize_perm` — a new number of buckets.
-/
import GraphIndex.ClassifiedMultiset.Basic
import GraphIndex.Proofs.Distinct

set_option autoImplicit false

namespace GraphIndex

namespace ClassifiedMultiset

variable {κ α : Type}

/-! ### Lists of cells -/

section Cells

variable [BEq κ]

/-- What becomes of a cell, if there is one, when the set of its classifier is changed. -/
def alter? (k : κ) (f : Option (CompactSet α) → Option (CompactSet α))
    (c? : Option (Cell κ α)) : Option (Cell κ α) :=
  (f (c?.map Cell.members)).map fun s => ⟨(c?.map Cell.key).getD k, s⟩

/-- The cells of the other classifiers. -/
def others (k : κ) (cs : List (Cell κ α)) : List (Cell κ α) :=
  cs.filter fun c => !(c.key == k)

/-- Cells in which the set of one classifier is changed, the changed cell first. -/
def alterCells (k : κ) (f : Option (CompactSet α) → Option (CompactSet α))
    (cs : List (Cell κ α)) : List (Cell κ α) :=
  (alter? k f (cs.find? (·.key == k))).toList ++ others k cs

omit [BEq κ] in
theorem members_alter? (k : κ) (f : Option (CompactSet α) → Option (CompactSet α))
    (c? : Option (Cell κ α)) : (alter? k f c?).map Cell.members = f (c?.map Cell.members) := by
  rw [alter?, Option.map_map]
  exact congrFun Option.map_id _

theorem others_eq_self {k : κ} {cs : List (Cell κ α)} (h : ∀ c ∈ cs, (c.key == k) = false) :
    others k cs = cs := by
  refine List.filter_eq_self.2 fun c hc => ?_
  rw [h c hc]
  rfl

theorem others_cons_of_ne {k : κ} {c : Cell κ α} (h : (c.key == k) = false)
    (cs : List (Cell κ α)) : others k (c :: cs) = c :: others k cs :=
  List.filter_cons_of_pos (by rw [h]; rfl)

theorem find?_eq_none_of_others {k : κ} {cs : List (Cell κ α)}
    (h : ∀ c ∈ cs, (c.key == k) = false) : cs.find? (·.key == k) = none := by
  refine List.find?_eq_none.2 fun c hc => ?_
  rw [h c hc]
  exact Bool.false_ne_true

variable [EquivBEq κ]

/-- A cell that has been found, or made, has the classifier it was looked for. -/
theorem key_alter? {k : κ} {f : Option (CompactSet α) → Option (CompactSet α)}
    {cs : List (Cell κ α)} {c : Cell κ α} (h : alter? k f (cs.find? (·.key == k)) = some c) :
    (c.key == k) = true := by
  rw [alter?, Option.map_eq_some_iff] at h
  obtain ⟨s, -, rfl⟩ := h
  cases hfind : cs.find? (·.key == k) with
  | none => exact BEq.rfl
  | some d =>
      have hdk : (d.key == k) = true := by simpa using List.find?_some hfind
      exact hdk

/-- After a cell of the classifier, no other one has it. -/
theorem others_cons_of_eq {k : κ} {c : Cell κ α} {cs : List (Cell κ α)}
    (h : Distinct ((c :: cs).map Cell.key)) (hck : (c.key == k) = true) :
    others k (c :: cs) = cs := by
  have hne : ∀ d ∈ cs, (d.key == k) = false := by
    intro d hd
    rw [← BEq.congr_right hck, BEq.comm]
    exact contains_eq_false_iff.1 (distinct_cons.1 h).1 d.key (List.mem_map_of_mem hd)
  rw [others, List.filter_cons_of_neg (by rw [hck]; exact Bool.false_ne_true)]
  exact others_eq_self hne

/-- Of cells with distinct classifiers, the one that is found is the only one that could be. -/
theorem find?_key_eq_some_iff {k : κ} {cs : List (Cell κ α)} (h : Distinct (cs.map Cell.key))
    {c : Cell κ α} : cs.find? (·.key == k) = some c ↔ c ∈ cs ∧ (c.key == k) = true := by
  induction cs with
  | nil => simp
  | cons d ds ih =>
      obtain ⟨hd, hds⟩ := distinct_cons.1 h
      rw [List.find?_cons, List.mem_cons]
      cases hdk : d.key == k with
      | false =>
          rw [ih hds]
          constructor
          · exact fun ⟨hc, hck⟩ => ⟨.inr hc, hck⟩
          · rintro ⟨rfl | hc, hck⟩
            · rw [hdk] at hck
              exact absurd hck Bool.false_ne_true
            · exact ⟨hc, hck⟩
      | true =>
          constructor
          · intro hdc
            rw [← Option.some_inj.1 hdc]
            exact ⟨.inl rfl, hdk⟩
          · rintro ⟨rfl | hc, hck⟩
            · rfl
            · -- a second cell of this classifier
              have hne := contains_eq_false_iff.1 hd c.key (List.mem_map_of_mem hc)
              rw [BEq.trans hdk (BEq.symm hck)] at hne
              exact absurd hne.symm Bool.false_ne_true

theorem find?_key_perm {k : κ} {cs ds : List (Cell κ α)} (h : Distinct (cs.map Cell.key))
    (p : cs.Perm ds) : cs.find? (·.key == k) = ds.find? (·.key == k) := by
  refine Option.ext fun c => ?_
  rw [find?_key_eq_some_iff h, find?_key_eq_some_iff (h.perm (p.map _)), p.mem_iff]

/-- Cells with distinct classifiers are the one that is found and the others. -/
theorem perm_find?_others {k : κ} {cs : List (Cell κ α)} (h : Distinct (cs.map Cell.key)) :
    cs.Perm ((cs.find? (·.key == k)).toList ++ others k cs) := by
  induction cs with
  | nil => exact List.Perm.refl _
  | cons d ds ih =>
      rw [List.find?_cons]
      cases hdk : d.key == k with
      | false =>
          rw [others_cons_of_ne hdk]
          exact ((ih (distinct_cons.1 h).2).cons d).trans List.perm_middle.symm
      | true =>
          rw [others_cons_of_eq h hdk]
          exact List.Perm.refl _

theorem alterCells_perm {k : κ} {f : Option (CompactSet α) → Option (CompactSet α)}
    {cs ds : List (Cell κ α)} (h : Distinct (cs.map Cell.key)) (p : cs.Perm ds) :
    (alterCells k f cs).Perm (alterCells k f ds) := by
  rw [alterCells, alterCells, find?_key_perm h p]
  exact (p.filter _).append_left _

theorem Distinct.alterCells {cs : List (Cell κ α)} (h : Distinct (cs.map Cell.key)) (k : κ)
    (f : Option (CompactSet α) → Option (CompactSet α)) :
    Distinct ((alterCells k f cs).map Cell.key) := by
  have hothers : Distinct ((others k cs).map Cell.key) := by
    have hfilter := h.filter fun l => !(l == k)
    rwa [List.filter_map] at hfilter
  rw [ClassifiedMultiset.alterCells]
  cases hc : alter? k f (cs.find? (·.key == k)) with
  | none => exact hothers
  | some c =>
      refine distinct_cons.2 ⟨contains_eq_false_iff.2 fun l hl => ?_, hothers⟩
      obtain ⟨d, hd, rfl⟩ := List.mem_map.1 hl
      have hdk : (d.key == k) = false := by simpa using (List.mem_filter.1 hd).2
      rw [BEq.congr_left (key_alter? hc), BEq.comm, hdk]

/-- **Only the cell of the classifier is changed.** -/
theorem find?_alterCells (k l : κ) (f : Option (CompactSet α) → Option (CompactSet α))
    (cs : List (Cell κ α)) :
    (alterCells k f cs).find? (·.key == l) =
      if k == l then alter? k f (cs.find? (·.key == k)) else cs.find? (·.key == l) := by
  have hothers : (others k cs).find? (·.key == l) =
      if k == l then none else cs.find? (·.key == l) := by
    rw [others, List.find?_filter]
    cases hkl : k == l with
    | true =>
        refine List.find?_eq_none.2 fun c hc => ?_
        rw [BEq.congr_right hkl]
        cases c.key == l <;> simp
    | false =>
        -- a cell of the second classifier is not one of the first
        refine congrArg (fun p => cs.find? p) (funext fun c => ?_)
        cases hcl : c.key == l with
        | false => simp
        | true =>
            rw [BEq.congr_left hcl, BEq.comm, hkl]
            rfl
  rw [alterCells, List.find?_append, hothers]
  cases hc : alter? k f (cs.find? (·.key == k)) with
  | none => simp
  | some c =>
      have hcl : (c.key == l) = (k == l) := BEq.congr_left (key_alter? hc)
      rw [Option.toList_some, List.find?_singleton, hcl]
      cases k == l <;> simp

end Cells

/-! ### Chains -/

theorem rotateRight_perm (cs : List (Cell κ α)) : cs.rotateRight.Perm cs := by
  rw [List.rotateRight]
  dsimp only
  split
  · exact List.Perm.refl _
  · refine List.perm_append_comm.trans ?_
    rw [List.take_append_drop]

/-- In a chain, the cell of one classifier is changed, up to order. -/
theorem alterChain_perm [BEq κ] [EquivBEq κ] {cs : List (Cell κ α)}
    (h : Distinct (cs.map Cell.key)) (k : κ)
    (f : Option (CompactSet α) → Option (CompactSet α)) :
    (alterChain k f cs).Perm (alterCells k f cs) := by
  induction cs with
  | nil =>
      rw [alterChain, alterCells, alter?]
      cases hf : f none with
      | none => simp [others, hf]
      | some s => simp [others, hf]
  | cons c cs ih =>
      rw [alterChain, alterCells, List.find?_cons]
      cases hck : c.key == k with
      | false =>
          rw [others_cons_of_ne hck]
          exact ((ih (distinct_cons.1 h).2).cons c).trans List.perm_middle.symm
      | true =>
          rw [others_cons_of_eq h hck]
          cases hf : f (some c.members) with
          | none => simpa [alter?, hf] using rotateRight_perm cs
          | some s => simp [alter?, hf]

/-- A chain does not get other classifiers than the given one. -/
theorem key_of_mem_alterChain [BEq κ] {k : κ} {f : Option (CompactSet α) → Option (CompactSet α)}
    {chain : List (Cell κ α)} {c : Cell κ α} (h : c ∈ alterChain k f chain) :
    c.key = k ∨ ∃ d ∈ chain, d.key = c.key := by
  induction chain with
  | nil =>
      rw [alterChain] at h
      split at h
      · simp at h
      · rw [List.mem_singleton] at h
        exact .inl (by rw [h])
  | cons d ds ih =>
      rw [alterChain] at h
      split at h
      · split at h
        · have hc := (rotateRight_perm ds).mem_iff.1 h
          exact .inr ⟨c, List.mem_cons_of_mem d hc, rfl⟩
        · rcases List.mem_cons.1 h with rfl | hc
          · exact .inr ⟨d, List.mem_cons_self, rfl⟩
          · exact .inr ⟨c, List.mem_cons_of_mem d hc, rfl⟩
      · rcases List.mem_cons.1 h with rfl | hc
        · exact .inr ⟨c, List.mem_cons_self, rfl⟩
        · refine (ih hc).imp_right ?_
          exact fun ⟨e, he, hec⟩ => ⟨e, List.mem_cons_of_mem d he, hec⟩

/-! ### Buckets -/

section Buckets

variable [Digest κ]

/-- Every cell sits in the bucket that the digest of its classifier gives among so many. -/
def Placed (buckets : Array (List (Cell κ α))) : Prop :=
  ∀ i chain, buckets[i]? = some chain → ∀ c ∈ chain,
    (digest c.key).toNat % buckets.size = i

theorem bucketOf_lt {buckets : Array (List (Cell κ α))} (h : 0 < buckets.size) (k : κ) :
    bucketOf buckets k < buckets.size :=
  Nat.mod_lt _ h

theorem bucketOf_eq_of_beq [BEq κ] [LawfulDigest κ] (buckets : Array (List (Cell κ α))) {k l : κ}
    (h : (k == l) = true) : bucketOf buckets k = bucketOf buckets l := by
  rw [bucketOf, bucketOf, LawfulDigest.digest_eq h]

omit [Digest κ] in
/-- Up to order, a change of one chain leaves the cells in the other buckets as they are. -/
theorem flatten_modify_perm {buckets : Array (List (Cell κ α))} {i : Nat} (hi : i < buckets.size) :
    ∃ rest, buckets.toList.flatten.Perm (buckets.getD i [] ++ rest) ∧
      (∀ g, (buckets.modify i g).toList.flatten.Perm (g (buckets.getD i []) ++ rest)) ∧
      ∀ c ∈ rest, ∃ j chain, j ≠ i ∧ buckets[j]? = some chain ∧ c ∈ chain := by
  have hlen : i < buckets.toList.length := by simpa using hi
  have hget : buckets.getD i [] = buckets.toList[i] := by simp [hi]
  refine ⟨(buckets.toList.take i).flatten ++ (buckets.toList.drop (i + 1)).flatten, ?_, ?_, ?_⟩
  · rw [hget]
    conv => lhs; rw [← List.take_append_drop i buckets.toList, List.drop_eq_getElem_cons hlen]
    rw [List.flatten_append, List.flatten_cons]
    exact List.perm_append_comm_assoc _ _ _
  · intro g
    rw [hget, Array.toList_modify, List.modify_eq_take_cons_drop hlen, List.flatten_append,
      List.flatten_cons]
    exact List.perm_append_comm_assoc _ _ _
  · intro c hc
    rw [List.mem_append, List.mem_flatten, List.mem_flatten] at hc
    rcases hc with ⟨chain, hchain, hc⟩ | ⟨chain, hchain, hc⟩
    · obtain ⟨j, hj, hjchain⟩ := List.getElem_of_mem hchain
      rw [List.length_take] at hj
      rw [List.getElem_take] at hjchain
      refine ⟨j, chain, by omega, ?_, hc⟩
      rw [← hjchain, Array.getElem_toList]
      exact Array.getElem?_eq_getElem _
    · obtain ⟨j, hj, hjchain⟩ := List.getElem_of_mem hchain
      rw [List.length_drop] at hj
      rw [List.getElem_drop] at hjchain
      refine ⟨i + 1 + j, chain, by omega, ?_, hc⟩
      rw [← hjchain, Array.getElem_toList]
      exact Array.getElem?_eq_getElem _

/-- Changing the chain of a classifier keeps the cells in their buckets, if the new chain has no
other classifiers than the old one and the given one. -/
theorem Placed.modify {buckets : Array (List (Cell κ α))} (h : Placed buckets) {k : κ}
    {g : List (Cell κ α) → List (Cell κ α)}
    (hg : ∀ chain, ∀ c ∈ g chain, bucketOf buckets c.key = bucketOf buckets k ∨
      ∃ d ∈ chain, d.key = c.key) :
    Placed (buckets.modify (bucketOf buckets k) g) := by
  intro i chain hchain c hc
  rw [Array.getElem?_modify] at hchain
  rw [Array.size_modify]
  change bucketOf buckets c.key = i
  split at hchain
  · next hi =>
      rw [Option.map_eq_some_iff] at hchain
      obtain ⟨old, hold, rfl⟩ := hchain
      rcases hg old c hc with hk | ⟨d, hd, hdc⟩
      · rw [hk, hi]
      · rw [← hdc]
        exact h i old hold d hd
  · exact h i chain hchain c hc

/-! ### A change of one cell -/

section Alter

variable [BEq κ] [LawfulDigest κ] {buckets : Array (List (Cell κ α))}

/-- The cells in the other buckets have other classifiers. -/
theorem Placed.exists_rest (h : Placed buckets) (hpos : 0 < buckets.size) (k : κ) :
    ∃ rest, buckets.toList.flatten.Perm (buckets.getD (bucketOf buckets k) [] ++ rest) ∧
      (∀ g, (buckets.modify (bucketOf buckets k) g).toList.flatten.Perm
        (g (buckets.getD (bucketOf buckets k) []) ++ rest)) ∧
      ∀ c ∈ rest, (c.key == k) = false := by
  obtain ⟨rest, hold, hnew, hrest⟩ := flatten_modify_perm (bucketOf_lt hpos k)
  refine ⟨rest, hold, hnew, fun c hc => ?_⟩
  obtain ⟨j, chain, hne, hchain, hcc⟩ := hrest c hc
  cases hck : c.key == k with
  | false => rfl
  | true => exact absurd ((h j chain hchain c hcc).symm.trans (bucketOf_eq_of_beq buckets hck)) hne

omit [LawfulDigest κ] in
theorem Placed.alterCell (h : Placed buckets) (k : κ)
    (f : Option (CompactSet α) → Option (CompactSet α)) : Placed (alterCell buckets k f) :=
  h.modify fun _ _ hc => (key_of_mem_alterChain hc).imp_left (congrArg _)

variable [EquivBEq κ]

/-- A cell is found in its chain if it is in the table. -/
theorem Placed.find?_chain (h : Placed buckets) (hpos : 0 < buckets.size)
    (hd : Distinct (buckets.toList.flatten.map Cell.key)) (k : κ) :
    (buckets.getD (bucketOf buckets k) []).find? (·.key == k) =
      buckets.toList.flatten.find? (·.key == k) := by
  obtain ⟨rest, hold, -, hrest⟩ := h.exists_rest hpos k
  rw [find?_key_perm hd hold, List.find?_append, find?_eq_none_of_others hrest, Option.or_none]

/-- **In the table, the cell of one classifier is changed**, up to order. -/
theorem Placed.alterCell_perm (h : Placed buckets) (hpos : 0 < buckets.size)
    (hd : Distinct (buckets.toList.flatten.map Cell.key)) (k : κ)
    (f : Option (CompactSet α) → Option (CompactSet α)) :
    (ClassifiedMultiset.alterCell buckets k f).toList.flatten.Perm
      (alterCells k f buckets.toList.flatten) := by
  obtain ⟨rest, hold, hnew, hrest⟩ := h.exists_rest hpos k
  have hdold := hd.perm (hold.map _)
  have hdchain : Distinct ((buckets.getD (bucketOf buckets k) []).map Cell.key) := by
    rw [List.map_append] at hdold
    exact (List.pairwise_append.1 hdold).1
  have hsplit : alterCells k f (buckets.getD (bucketOf buckets k) [] ++ rest) =
      alterCells k f (buckets.getD (bucketOf buckets k) []) ++ rest := by
    have hothers := others_eq_self hrest
    rw [others] at hothers
    rw [alterCells, alterCells, List.find?_append, find?_eq_none_of_others hrest, Option.or_none,
      others, others, List.filter_append, hothers, List.append_assoc]
  have hchain := (alterChain_perm hdchain k f).append_right rest
  rw [← hsplit] at hchain
  exact (hnew _).trans (hchain.trans (alterCells_perm hd hold).symm)

end Alter

/-! ### Another number of buckets -/

theorem placed_replicate (n : Nat) : Placed (Array.replicate n ([] : List (Cell κ α))) := by
  intro i chain hchain c hc
  rw [Array.getElem?_replicate] at hchain
  split at hchain
  · rw [← Option.some_inj.1 hchain] at hc
    exact absurd hc List.not_mem_nil
  · exact absurd hchain (by simp)

theorem pushCell_perm {buckets : Array (List (Cell κ α))} (hpos : 0 < buckets.size)
    (c : Cell κ α) : (pushCell buckets c).toList.flatten.Perm (c :: buckets.toList.flatten) := by
  obtain ⟨rest, hold, hnew, -⟩ := flatten_modify_perm (bucketOf_lt hpos c.key)
  have hpush := (List.perm_append_singleton c (buckets.getD (bucketOf buckets c.key) []))
  exact (hnew _).trans ((hpush.append_right rest).trans (hold.symm.cons c))

theorem Placed.pushCell {buckets : Array (List (Cell κ α))} (h : Placed buckets)
    (c : Cell κ α) : Placed (pushCell buckets c) := by
  refine h.modify fun chain d hd => ?_
  rcases List.mem_append.1 hd with hd | hd
  · exact .inr ⟨d, hd, rfl⟩
  · rw [List.mem_singleton.1 hd]
    exact .inl rfl

theorem Placed.foldl_pushCell {buckets : Array (List (Cell κ α))} (h : Placed buckets)
    (hpos : 0 < buckets.size) (cs : List (Cell κ α)) :
    (cs.foldl ClassifiedMultiset.pushCell buckets).size = buckets.size ∧
      Placed (cs.foldl ClassifiedMultiset.pushCell buckets) ∧
      (cs.foldl ClassifiedMultiset.pushCell buckets).toList.flatten.Perm
        (cs ++ buckets.toList.flatten) := by
  induction cs generalizing buckets with
  | nil => exact ⟨rfl, h, List.Perm.refl _⟩
  | cons c cs ih =>
      have hsize : (ClassifiedMultiset.pushCell buckets c).size = buckets.size :=
        Array.size_modify ..
      obtain ⟨hfold, hplaced, hperm⟩ := ih (h.pushCell c) (by rw [hsize]; exact hpos)
      refine ⟨hfold.trans hsize, hplaced, hperm.trans ?_⟩
      exact ((pushCell_perm hpos c).append_left cs).trans List.perm_middle

theorem capacity_resize (m : ClassifiedMultiset κ α) {n : Nat} (hn : 0 < n) :
    (m.resize n).capacity = n := by
  obtain ⟨hsize, -⟩ := (placed_replicate n).foldl_pushCell (by simpa using hn) m.cells
  rw [Array.size_replicate] at hsize
  exact hsize

theorem placed_resize (m : ClassifiedMultiset κ α) {n : Nat} (hn : 0 < n) :
    Placed (m.resize n).buckets := by
  obtain ⟨-, hplaced, -⟩ := (placed_replicate n).foldl_pushCell (by simpa using hn) m.cells
  exact hplaced

/-- **Rehashing keeps the cells**, up to order. -/
theorem resize_perm (m : ClassifiedMultiset κ α) {n : Nat} (hn : 0 < n) :
    (m.resize n).cells.Perm m.cells := by
  obtain ⟨-, -, hperm⟩ := (placed_replicate n).foldl_pushCell (by simpa using hn) m.cells
  rwa [Array.toList_replicate, List.flatten_replicate_nil, List.append_nil] at hperm

end Buckets

end ClassifiedMultiset

end GraphIndex
