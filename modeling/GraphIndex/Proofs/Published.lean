/-
**Runs of a published value.**  What readers see, whatever drafts are opened and however they end.

A session is a published value together with the snapshots that readers have taken and not given back.
The reference for it is a ledger of changes: those that have been published, in their order, and those
of the draft that is open.  The value that readers see is the first value with the published changes
made to it, and the value of a draft is that with the changes of the draft made to it besides.

All of this rests on the numbers of holders.  Each version is held by exactly those that refer to it,
the published value, the draft and the snapshots.  So the first change of a draft finds a version that
is held by others too and copies it, and later changes find a version that nobody else holds.

Main definitions:

* `Published.Action`, `Published.Session` — what can be done, and what it is done to;
* `Published.Ledger`, `Published.ledger` — the changes that a run publishes and those of its draft;
* `Published.WellFormed` — every version is held by those that refer to it.

Main results:

* `Published.WellFormed.update` — the first change of a draft copies what others hold;
* `Published.Represents.apply` — every action keeps session and ledger together;
* `Published.run_is_transactional` — **readers see the changes of the drafts that were closed, and no
  others**.
-/
import GraphIndex.Proofs.Heap
import GraphIndex.Published

set_option autoImplicit false

namespace GraphIndex

namespace Published

variable {α : Type}

/-! ### Sessions -/

/-- What readers and a writer can do. -/
inductive Action (α : Type) where
  /-- A snapshot is taken. -/
  | load
  /-- A snapshot is given back. -/
  | forget (snapshot : Ref)
  /-- A draft is opened. -/
  | write
  /-- The draft is looked at. -/
  | read
  /-- The draft is changed. -/
  | mutate (f : α → α)
  /-- The draft is published. -/
  | publish
  /-- The draft is let go, which publishes it too. -/
  | drop
  /-- The draft is discarded. -/
  | discard

/-- A published value and the snapshots that readers have. -/
structure Session (α : Type) where
  /-- The published value. -/
  cell : Published α
  /-- The snapshots, the latest first. -/
  snapshots : List Ref

/-- Nothing has been done yet. -/
def Session.start (a : α) : Session α :=
  ⟨ofValue a, []⟩

/-- What an action does, if it is possible: all but taking a snapshot ask for a snapshot, for a draft
or for that there is none. -/
def Action.apply : Action α → Session α → Option (Session α)
  | load, s =>
      let (snapshot, cell) := s.cell.load
      some ⟨cell, snapshot :: s.snapshots⟩
  | forget r, s =>
      if r ∈ s.snapshots then some ⟨s.cell.forget r, s.snapshots.erase r⟩ else none
  | write, s => s.cell.openDraft?.map fun cell => { s with cell }
  | read, s => s.cell.staged?.map fun _ => s
  | mutate f, s =>
      (s.cell.update? fun a => ((), f a)).map fun answered => { s with cell := answered.2 }
  | publish, s => s.cell.closeDraft?.map fun cell => { s with cell }
  | drop, s => s.cell.closeDraft?.map fun cell => { s with cell }
  | discard, s => s.cell.discard?.map fun cell => { s with cell }

/-- A run of actions, if all of them are possible. -/
def run (s : Session α) (acts : List (Action α)) : Option (Session α) :=
  acts.foldlM (fun s act => act.apply s) s

/-! ### Ledgers -/

/-- The changes that have been made. -/
structure Ledger (α : Type) where
  /-- Those that have been published, the first one first. -/
  published : List (α → α)
  /-- Those of the draft that is open. -/
  draft : Option (List (α → α))

/-- An action is noted. -/
def Ledger.note (l : Ledger α) : Action α → Ledger α
  | .load | .forget _ | .read => l
  | .write => { l with draft := some [] }
  | .mutate f => { l with draft := l.draft.map fun fs => fs ++ [f] }
  | .publish | .drop => ⟨l.published ++ l.draft.getD [], none⟩
  | .discard => { l with draft := none }

/-- The changes of a run. -/
def ledger (acts : List (Action α)) : Ledger α :=
  acts.foldl Ledger.note ⟨[], none⟩

/-- A value with changes made to it, one after the other. -/
def replay (fs : List (α → α)) (a : α) : α :=
  fs.foldl (fun v f => f v) a

/-- The action is possible. -/
def Action.Allowed (l : Ledger α) (snapshots : List Ref) : Action α → Prop
  | load => True
  | forget r => r ∈ snapshots
  | write => l.draft = none
  | _ => l.draft.isSome = true

/-! ### Holders -/

/-- All references to versions. -/
def Session.refs (s : Session α) : List Ref :=
  s.cell.current :: ((s.cell.draft.map Draft.staged).toList ++ s.snapshots)

/-- Every version is held by those that refer to it.  The version of a draft is the current one until
the draft is touched, and then one that nobody else holds. -/
structure WellFormed (s : Session α) : Prop where
  holders_eq : ∀ r, s.cell.heap.holders r = s.refs.count r
  staged_eq : ∀ d, s.cell.draft = some d → d.touched = false → d.staged = s.cell.current
  staged_own : ∀ d, s.cell.draft = some d → d.touched = true → s.cell.heap.holders d.staged = 1

variable {s s' : Session α} {d : Draft}

theorem count_refs (s : Session α) (r : Ref) : s.refs.count r =
    (if s.cell.current = r then 1 else 0) +
      ((s.cell.draft.map Draft.staged).toList.count r + s.snapshots.count r) := by
  rw [Session.refs, List.count_cons, List.count_append, Nat.add_comm]
  simp only [beq_iff_eq]

theorem count_refs_of_draft (hd : s.cell.draft = some d) (r : Ref) : s.refs.count r =
    (if s.cell.current = r then 1 else 0) +
      ((if d.staged = r then 1 else 0) + s.snapshots.count r) := by
  rw [count_refs, hd, Option.map_some, Option.toList_some, List.count_singleton]
  simp only [beq_iff_eq]

theorem WellFormed.holders_current_pos (h : WellFormed s) :
    0 < s.cell.heap.holders s.cell.current := by
  rw [h.holders_eq, count_refs, if_pos rfl]
  omega

theorem WellFormed.holders_staged_pos (h : WellFormed s) (hd : s.cell.draft = some d) :
    0 < s.cell.heap.holders d.staged := by
  rw [h.holders_eq, count_refs_of_draft hd, if_pos rfl]
  omega

theorem WellFormed.holders_snapshot_pos (h : WellFormed s) {r : Ref} (hr : r ∈ s.snapshots) :
    0 < s.cell.heap.holders r := by
  have hcount := List.count_pos_iff.2 hr
  rw [h.holders_eq, count_refs]
  omega

/-- Readers do not see the version of a draft that has been touched. -/
theorem WellFormed.staged_unseen (h : WellFormed s) (hd : s.cell.draft = some d)
    (ht : d.touched = true) : d.staged ≠ s.cell.current ∧ d.staged ∉ s.snapshots := by
  have hone := h.staged_own d hd ht
  rw [h.holders_eq, count_refs_of_draft hd, if_pos rfl] at hone
  constructor
  · intro hcurrent
    rw [if_pos hcurrent.symm] at hone
    omega
  · intro hsnapshot
    have hcount := List.count_pos_iff.2 hsnapshot
    omega

/-! ### What the actions do to holders and values -/

theorem WellFormed.start (a : α) : WellFormed (Session.start a) := by
  refine ⟨fun r => ?_, nofun, nofun⟩
  have hempty : (Heap.empty : Heap α).holders r = 0 := rfl
  rw [Session.start, ofValue, count_refs]
  dsimp only
  rw [Heap.holders_allocate, hempty]
  simp

theorem WellFormed.load (h : WellFormed s) :
    WellFormed ⟨s.cell.load.2, s.cell.load.1 :: s.snapshots⟩ := by
  have hpos := h.holders_current_pos
  refine ⟨fun r => ?_, h.staged_eq, fun d hd ht => ?_⟩
  · rw [Published.load, count_refs]
    dsimp only
    rw [Heap.holders_hold hpos, h.holders_eq, count_refs, List.count_cons]
    simp only [beq_iff_eq]
    omega
  · have hne := (h.staged_unseen hd ht).1
    rw [Published.load]
    dsimp only
    rw [Heap.holders_hold hpos, if_neg hne.symm]
    exact h.staged_own d hd ht

theorem WellFormed.forget (h : WellFormed s) {r : Ref} (hr : r ∈ s.snapshots) :
    WellFormed ⟨s.cell.forget r, s.snapshots.erase r⟩ := by
  refine ⟨fun q => ?_, h.staged_eq, fun d hd ht => ?_⟩
  · have hcount := List.count_pos_iff.2 hr
    rw [Published.forget, count_refs]
    dsimp only
    rw [Heap.holders_release, h.holders_eq, count_refs, List.count_erase]
    simp only [beq_iff_eq]
    split <;> grind
  · have hne : r ≠ d.staged := by
      rintro rfl
      exact (h.staged_unseen hd ht).2 hr
    rw [Published.forget]
    dsimp only
    rw [Heap.holders_release, if_neg hne]
    exact h.staged_own d hd ht

theorem WellFormed.opened (h : WellFormed s) (hnone : s.cell.draft = none) :
    WellFormed ⟨{ s.cell with
      heap := s.cell.heap.hold s.cell.current
      draft := some ⟨s.cell.current, false⟩ }, s.snapshots⟩ := by
  refine ⟨fun r => ?_, fun d hd _ => ?_, fun d hd ht => ?_⟩
  · rw [count_refs_of_draft rfl]
    dsimp only
    rw [Heap.holders_hold h.holders_current_pos, h.holders_eq, count_refs, hnone]
    simp only [Option.map_none, Option.toList_none, List.count_nil]
    omega
  · obtain rfl := Option.some_inj.1 hd
    rfl
  · obtain rfl := Option.some_inj.1 hd
    cases ht

/-- **The first change of a draft copies what others hold.**  However often the draft has been changed,
its version has the changed value, nobody else holds it, and no reader sees a change. -/
theorem WellFormed.update (h : WellFormed s) (hd : s.cell.draft = some d) {a : α}
    (ha : s.cell.heap.read? d.staged = some a) {β : Type} (f : α → β × α) :
    ∃ r heap, s.cell.update? f =
        some ((f a).1, { s.cell with heap, draft := some ⟨r, true⟩ }) ∧
      WellFormed ⟨{ s.cell with heap, draft := some ⟨r, true⟩ }, s.snapshots⟩ ∧
      heap.read? r = some (f a).2 ∧
      ∀ q, q = s.cell.current ∨ q ∈ s.snapshots → heap.read? q = s.cell.heap.read? q := by
  have hpos := h.holders_staged_pos hd
  obtain ⟨hread, hone, hmoved, hothers⟩ := Heap.own_spec hpos
  rw [ha] at hread
  obtain ⟨heap, hupdate, hnew, hkept, hholders⟩ := Heap.update?_spec hread f
  -- what readers refer to has a hold besides that of the draft
  have hunseen : ∀ q, q = s.cell.current ∨ q ∈ s.snapshots →
      q ≠ (s.cell.heap.own d.staged).1 ∧
        (s.cell.heap.own d.staged).2.read? q = s.cell.heap.read? q := by
    intro q hq
    refine hothers q ?_
    rw [h.holders_eq, count_refs_of_draft hd]
    rcases hq with rfl | hq
    · rw [if_pos rfl]
      omega
    · have hcount := List.count_pos_iff.2 hq
      omega
  refine ⟨(s.cell.heap.own d.staged).1, heap, ?_, ⟨fun q => ?_, fun d' hd' ht => ?_,
    fun d' hd' _ => ?_⟩, hnew, fun q hq => ?_⟩
  · rw [update?, hd, Option.bind_some]
    show Option.map _ ((s.cell.heap.own d.staged).2.update? (s.cell.heap.own d.staged).1 f) = _
    rw [hupdate]
    rfl
  · have hmove := hmoved q
    rw [h.holders_eq, count_refs_of_draft hd] at hmove
    rw [count_refs_of_draft rfl]
    dsimp only
    rw [hholders]
    omega
  · obtain rfl := Option.some_inj.1 hd'
    cases ht
  · obtain rfl := Option.some_inj.1 hd'
    dsimp only
    rw [hholders, hone]
  · rw [hkept q (hunseen q hq).1, (hunseen q hq).2]

/-- A draft is given up. -/
theorem WellFormed.givenUp (h : WellFormed s) (hd : s.cell.draft = some d) :
    WellFormed ⟨{ s.cell with heap := s.cell.heap.release d.staged, draft := none },
      s.snapshots⟩ := by
  refine ⟨fun r => ?_, nofun, nofun⟩
  rw [count_refs]
  dsimp only
  rw [Heap.holders_release, h.holders_eq, count_refs_of_draft hd]
  simp only [Option.map_none, Option.toList_none, List.count_nil]
  omega

/-- The version of a draft becomes the current one. -/
theorem WellFormed.committed (h : WellFormed s) (hd : s.cell.draft = some d) :
    WellFormed ⟨{
      heap := ((s.cell.heap.hold d.staged).release s.cell.current).release d.staged
      current := d.staged
      draft := none }, s.snapshots⟩ := by
  refine ⟨fun r => ?_, nofun, nofun⟩
  rw [count_refs]
  dsimp only
  rw [Heap.holders_release, Heap.holders_release, Heap.holders_hold (h.holders_staged_pos hd),
    h.holders_eq, count_refs_of_draft hd]
  simp only [Option.map_none, Option.toList_none, List.count_nil]
  omega

/-! ### Sessions and ledgers -/

/-- The session is what comes of the first value and the changes of the ledger. -/
structure Represents (a : α) (s : Session α) (l : Ledger α) : Prop where
  wellFormed : WellFormed s
  /-- Readers see the published changes. -/
  value_eq : s.cell.value? = some (replay l.published a)
  draft_none : l.draft = none → s.cell.draft = none
  /-- The draft has its own changes besides, and has been touched if there are any. -/
  draft_some : ∀ fs, l.draft = some fs → ∃ d, s.cell.draft = some d ∧
    s.cell.heap.read? d.staged = some (replay fs (replay l.published a)) ∧
    (d.touched = true ↔ fs ≠ [])

theorem replay_append (fs gs : List (α → α)) (a : α) :
    replay (fs ++ gs) a = replay gs (replay fs a) := by
  rw [replay, replay, replay, List.foldl_append]

variable {a : α} {l : Ledger α}

theorem Represents.start (a : α) : Represents a (Session.start a) ⟨[], none⟩ where
  wellFormed := .start a
  value_eq := by
    rw [Session.start, ofValue, value?, Heap.read?]
    dsimp only
    rw [Heap.cell?_allocate_fst]
    rfl
  draft_none _ := rfl
  draft_some := nofun

theorem Represents.load (h : Represents a s l) :
    Represents a ⟨s.cell.load.2, s.cell.load.1 :: s.snapshots⟩ l where
  wellFormed := h.wellFormed.load
  value_eq := (Heap.read?_hold _ _ _).trans h.value_eq
  draft_none := h.draft_none
  draft_some fs hfs := by
    obtain ⟨d, hd, hread, ht⟩ := h.draft_some fs hfs
    exact ⟨d, hd, (Heap.read?_hold _ _ _).trans hread, ht⟩

theorem Represents.forget (h : Represents a s l) {r : Ref} (hr : r ∈ s.snapshots) :
    Represents a ⟨s.cell.forget r, s.snapshots.erase r⟩ l := by
  have hwf := h.wellFormed.forget hr
  refine ⟨hwf, ?_, h.draft_none, fun fs hfs => ?_⟩
  · exact (Heap.read?_release_of_held hwf.holders_current_pos).trans h.value_eq
  · obtain ⟨d, hd, hread, ht⟩ := h.draft_some fs hfs
    exact ⟨d, hd, (Heap.read?_release_of_held (hwf.holders_staged_pos hd)).trans hread, ht⟩

theorem Represents.opened (h : Represents a s l) (hnone : s.cell.draft = none) :
    Represents a ⟨{ s.cell with
      heap := s.cell.heap.hold s.cell.current
      draft := some ⟨s.cell.current, false⟩ }, s.snapshots⟩ ⟨l.published, some []⟩ := by
  refine ⟨h.wellFormed.opened hnone, (Heap.read?_hold _ _ _).trans h.value_eq, nofun,
    fun fs hfs => ?_⟩
  obtain rfl := Option.some_inj.1 hfs
  exact ⟨_, rfl, (Heap.read?_hold _ _ _).trans h.value_eq, by simp⟩

theorem Represents.update (h : Represents a s l) {fs : List (α → α)} (hfs : l.draft = some fs)
    (f : α → α) : ∃ cell, (s.cell.update? fun v => ((), f v)) = some ((), cell) ∧
      Represents a ⟨cell, s.snapshots⟩ ⟨l.published, some (fs ++ [f])⟩ ∧
      cell.current = s.cell.current ∧
      ∀ q ∈ s.snapshots, cell.heap.read? q = s.cell.heap.read? q := by
  obtain ⟨d, hd, hread, -⟩ := h.draft_some fs hfs
  obtain ⟨r, heap, hupdate, hwf, hnew, hseen⟩ :=
    h.wellFormed.update hd hread fun v => ((), f v)
  refine ⟨_, hupdate, ⟨hwf, (hseen _ (.inl rfl)).trans h.value_eq, nofun, fun gs hgs => ?_⟩, rfl,
    fun q hq => hseen q (.inr hq)⟩
  obtain rfl := Option.some_inj.1 hgs
  refine ⟨_, rfl, hnew.trans ?_, by simp⟩
  rw [replay_append]
  rfl

theorem Represents.givenUp (h : Represents a s l) (hd : s.cell.draft = some d) :
    Represents a ⟨{ s.cell with heap := s.cell.heap.release d.staged, draft := none },
      s.snapshots⟩ ⟨l.published, none⟩ := by
  have hwf := h.wellFormed.givenUp hd
  exact ⟨hwf, (Heap.read?_release_of_held hwf.holders_current_pos).trans h.value_eq,
    fun _ => rfl, nofun⟩

/-- What is still held when a draft is committed is kept. -/
theorem WellFormed.read?_committed (h : WellFormed s) (hd : s.cell.draft = some d) {r : Ref}
    (hr : r = d.staged ∨ r ∈ s.snapshots) :
    (((s.cell.heap.hold d.staged).release s.cell.current).release d.staged).read? r =
      s.cell.heap.read? r := by
  have hwf := h.committed hd
  have hpos : 0 < (((s.cell.heap.hold d.staged).release s.cell.current).release
      d.staged).holders r := by
    rcases hr with rfl | hr
    · exact hwf.holders_current_pos
    · exact hwf.holders_snapshot_pos hr
  have hpos' : 0 < ((s.cell.heap.hold d.staged).release s.cell.current).holders r := by
    rw [Heap.holders_release] at hpos
    omega
  rw [Heap.read?_release_of_held hpos, Heap.read?_release_of_held hpos', Heap.read?_hold]

theorem Represents.committed (h : Represents a s l) {fs : List (α → α)}
    (hfs : l.draft = some fs) (hd : s.cell.draft = some d) :
    Represents a ⟨{
      heap := ((s.cell.heap.hold d.staged).release s.cell.current).release d.staged
      current := d.staged
      draft := none }, s.snapshots⟩ ⟨l.published ++ fs, none⟩ := by
  obtain ⟨d', hd', hread, -⟩ := h.draft_some fs hfs
  obtain rfl : d = d' := Option.some_inj.1 (hd.symm.trans hd')
  refine ⟨h.wellFormed.committed hd, ?_, fun _ => rfl, nofun⟩
  rw [replay_append]
  exact (h.wellFormed.read?_committed hd (.inl rfl)).trans hread

/-! ### The ends of a draft -/

/-- What closing a draft does: a draft that has been changed becomes the current version, and the
current version of one that has not stays the very same. -/
theorem Represents.closeDraft (h : Represents a s l) {fs : List (α → α)}
    (hfs : l.draft = some fs) : ∃ cell, s.cell.closeDraft? = some cell ∧
      Represents a ⟨cell, s.snapshots⟩ ⟨l.published ++ fs, none⟩ ∧
      (fs = [] → cell.current = s.cell.current) ∧
      ∀ q ∈ s.snapshots, cell.heap.read? q = s.cell.heap.read? q := by
  obtain ⟨d, hd, -, ht⟩ := h.draft_some fs hfs
  rw [closeDraft?, hd, Option.map_some]
  cases htouched : d.touched with
  | true =>
      refine ⟨_, rfl, h.committed hfs hd, fun hnil => ?_, fun q hq => ?_⟩
      · exact absurd hnil (ht.1 htouched)
      · exact h.wellFormed.read?_committed hd (.inr hq)
  | false =>
      have hnil : fs = [] := by
        rcases fs with - | ⟨f, fs⟩
        · rfl
        · rw [htouched] at ht
          simp at ht
      have hgiven := h.givenUp hd
      refine ⟨_, rfl, ?_, fun _ => rfl, fun q hq => ?_⟩
      · rw [hnil, List.append_nil]
        exact hgiven
      · exact Heap.read?_release_of_held (hgiven.wellFormed.holders_snapshot_pos hq)

/-- What discarding a draft does: nothing that readers could see. -/
theorem Represents.discard (h : Represents a s l) (hd : l.draft.isSome = true) :
    ∃ cell, s.cell.discard? = some cell ∧
      Represents a ⟨cell, s.snapshots⟩ ⟨l.published, none⟩ ∧
      cell.current = s.cell.current ∧
      ∀ q ∈ s.snapshots, cell.heap.read? q = s.cell.heap.read? q := by
  obtain ⟨fs, hfs⟩ := Option.isSome_iff_exists.1 hd
  obtain ⟨d, hd, -, -⟩ := h.draft_some fs hfs
  have hgiven := h.givenUp hd
  refine ⟨_, ?_, hgiven, rfl, fun q hq => ?_⟩
  · rw [discard?, closeDraft?, hd]
    rfl
  · exact Heap.read?_release_of_held (hgiven.wellFormed.holders_snapshot_pos hq)

/-! ### Steps -/

/-- What an action does: session and ledger stay together, the current version stays the very same
unless a change is published, and a snapshot that is not given back keeps its value. -/
structure Follows (a : α) (s : Session α) (l : Ledger α) (act : Action α) (s' : Session α) :
    Prop where
  represents : Represents a s' (l.note act)
  current_eq : (l.note act).published = l.published → s'.cell.current = s.cell.current
  kept : ∀ r ∈ s.snapshots, act ≠ .forget r →
    r ∈ s'.snapshots ∧ s'.cell.heap.read? r = s.cell.heap.read? r

/-- Both ways of publishing a draft close it. -/
theorem Represents.follows_closeDraft (h : Represents a s l) (hdraft : l.draft.isSome = true)
    (act : Action α) (hnote : l.note act = ⟨l.published ++ l.draft.getD [], none⟩) :
    ∃ cell, s.cell.closeDraft? = some cell ∧ Follows a s l act ⟨cell, s.snapshots⟩ := by
  obtain ⟨fs, hfs⟩ := Option.isSome_iff_exists.1 hdraft
  obtain ⟨cell, hcell, hrep, hcurrent, hkept⟩ := h.closeDraft hfs
  rw [hfs, Option.getD_some] at hnote
  refine ⟨cell, hcell, ?_, ?_, fun r hr _ => ⟨hr, hkept r hr⟩⟩
  · rw [hnote]
    exact hrep
  · intro heq
    rw [hnote] at heq
    exact hcurrent (List.append_right_eq_self.1 heq)

/-- **Every possible action keeps session and ledger together.** -/
theorem Represents.apply (h : Represents a s l) {act : Action α}
    (hact : act.Allowed l s.snapshots) : ∃ s', act.apply s = some s' ∧ Follows a s l act s' := by
  cases act with
  | load =>
      exact ⟨_, rfl, h.load, fun _ => rfl,
        fun r hr _ => ⟨List.mem_cons_of_mem _ hr, Heap.read?_hold _ _ _⟩⟩
  | forget q =>
      have hforget := h.forget hact
      refine ⟨_, if_pos hact, hforget, fun _ => rfl, fun r hr hne => ?_⟩
      have hrq : r ≠ q := fun heq => hne (congrArg Action.forget heq.symm)
      exact ⟨(List.mem_erase_of_ne hrq).2 hr, Heap.read?_release (.inl hrq)⟩
  | write =>
      have hnone := h.draft_none hact
      refine ⟨_, ?_, h.opened hnone, fun _ => rfl, fun r hr _ => ⟨hr, Heap.read?_hold _ _ _⟩⟩
      rw [Action.apply, openDraft?, hnone]
      rfl
  | read =>
      obtain ⟨fs, hfs⟩ := Option.isSome_iff_exists.1 hact
      obtain ⟨d, hd, hread, -⟩ := h.draft_some fs hfs
      refine ⟨s, ?_, h, fun _ => rfl, fun r hr _ => ⟨hr, rfl⟩⟩
      rw [Action.apply, staged?, hd, Option.bind_some, hread]
      rfl
  | mutate f =>
      obtain ⟨fs, hfs⟩ := Option.isSome_iff_exists.1 hact
      obtain ⟨cell, hupdate, hrep, hcurrent, hkept⟩ := h.update hfs f
      refine ⟨⟨cell, s.snapshots⟩, ?_, ?_, fun _ => hcurrent, fun r hr _ => ⟨hr, hkept r hr⟩⟩
      · rw [Action.apply, hupdate]
        rfl
      · rw [Ledger.note, hfs]
        exact hrep
  | publish =>
      obtain ⟨cell, hclose, hfollows⟩ := h.follows_closeDraft hact .publish rfl
      refine ⟨⟨cell, s.snapshots⟩, ?_, hfollows⟩
      rw [Action.apply, hclose]
      rfl
  | drop =>
      obtain ⟨cell, hclose, hfollows⟩ := h.follows_closeDraft hact .drop rfl
      refine ⟨⟨cell, s.snapshots⟩, ?_, hfollows⟩
      rw [Action.apply, hclose]
      rfl
  | discard =>
      obtain ⟨cell, hdiscard, hrep, hcurrent, hkept⟩ := h.discard hact
      refine ⟨⟨cell, s.snapshots⟩, ?_, hrep, fun _ => hcurrent, fun r hr _ => ⟨hr, hkept r hr⟩⟩
      rw [Action.apply, hdiscard]
      rfl

/-- An action that is not allowed is not possible. -/
theorem Represents.apply_eq_none (h : Represents a s l) {act : Action α}
    (hact : ¬ act.Allowed l s.snapshots) : act.apply s = none := by
  have hnone : l.draft.isSome ≠ true → s.cell.draft = none := by
    intro hdraft
    exact h.draft_none (by simpa using hdraft)
  cases act with
  | load => exact absurd trivial hact
  | forget q => exact if_neg hact
  | write =>
      obtain ⟨fs, hfs⟩ := Option.ne_none_iff_exists'.1 hact
      obtain ⟨d, hd, -⟩ := h.draft_some fs hfs
      rw [Action.apply, openDraft?, hd]
      rfl
  | read => rw [Action.apply, staged?, hnone hact]; rfl
  | mutate f => rw [Action.apply, update?, hnone hact]; rfl
  | publish => rw [Action.apply, closeDraft?, hnone hact]; rfl
  | drop => rw [Action.apply, closeDraft?, hnone hact]; rfl
  | discard => rw [Action.apply, discard?, closeDraft?, hnone hact]; rfl

theorem Represents.allowed_of_apply (h : Represents a s l) {act : Action α}
    (hs : act.apply s = some s') : act.Allowed l s.snapshots := by
  refine Classical.byContradiction fun hact => ?_
  rw [h.apply_eq_none hact] at hs
  cases hs

/-! ### Runs -/

theorem run_cons (s : Session α) (act : Action α) (acts : List (Action α)) :
    run s (act :: acts) = (act.apply s).bind fun s' => run s' acts := by
  rw [run, List.foldlM_cons]
  rfl

/-- What the first action of a run does, and what is left of the run. -/
theorem Represents.uncons (h : Represents a s l) {act : Action α} {acts : List (Action α)}
    (hs : run s (act :: acts) = some s') : ∃ s₁, Follows a s l act s₁ ∧ run s₁ acts = some s' := by
  rw [run_cons] at hs
  obtain ⟨s₁, hact, hrest⟩ := Option.bind_eq_some_iff.1 hs
  obtain ⟨s₂, hs₂, hfollows⟩ := h.apply (h.allowed_of_apply hact)
  obtain rfl : s₁ = s₂ := Option.some_inj.1 (hact.symm.trans hs₂)
  exact ⟨s₁, hfollows, hrest⟩

/-- **Every run keeps session and ledger together.** -/
theorem Represents.run (h : Represents a s l) {acts : List (Action α)}
    (hs : Published.run s acts = some s') : Represents a s' (acts.foldl Ledger.note l) := by
  induction acts generalizing s l with
  | nil =>
      obtain rfl : s = s' := Option.some_inj.1 hs
      exact h
  | cons act acts ih =>
      obtain ⟨s₁, hfollows, hrest⟩ := h.uncons hs
      exact ih hfollows.represents hrest

/-- Published changes stay published. -/
theorem length_published_le (l : Ledger α) (acts : List (Action α)) :
    l.published.length ≤ (acts.foldl Ledger.note l).published.length := by
  induction acts generalizing l with
  | nil => exact Nat.le_refl _
  | cons act acts ih =>
      refine Nat.le_trans ?_ (ih (l.note act))
      cases act with
      | publish => simp [Ledger.note]
      | drop => simp [Ledger.note]
      | _ => exact Nat.le_refl _

theorem published_note (l : Ledger α) (act : Action α) :
    ∃ fs, (l.note act).published = l.published ++ fs := by
  cases act with
  | publish => exact ⟨_, rfl⟩
  | drop => exact ⟨_, rfl⟩
  | _ => exact ⟨[], (List.append_nil _).symm⟩

/-- As long as no change is published, the current version stays the very same. -/
theorem Represents.current_eq (h : Represents a s l) {acts : List (Action α)}
    (hs : Published.run s acts = some s')
    (hpub : (acts.foldl Ledger.note l).published = l.published) :
    s'.cell.current = s.cell.current := by
  induction acts generalizing s l with
  | nil =>
      obtain rfl : s = s' := Option.some_inj.1 hs
      rfl
  | cons act acts ih =>
      obtain ⟨s₁, hfollows, hrest⟩ := h.uncons hs
      -- the later actions only add to what is published, so this one has published nothing
      have hnote : (l.note act).published = l.published := by
        obtain ⟨fs, hfs⟩ := published_note l act
        have hle := length_published_le (l.note act) acts
        rw [List.foldl_cons] at hpub
        rw [hpub, hfs, List.length_append] at hle
        have hnil : fs = [] := List.eq_nil_of_length_eq_zero (by omega)
        rw [hfs, hnil, List.append_nil]
      rw [List.foldl_cons, ← hnote] at hpub
      rw [ih hfollows.represents hrest hpub, hfollows.current_eq hnote]

/-- A snapshot that is not given back keeps its value. -/
theorem Represents.read?_snapshot (h : Represents a s l) {acts : List (Action α)}
    (hs : Published.run s acts = some s') {r : Ref} (hr : r ∈ s.snapshots)
    (hkept : .forget r ∉ acts) : s'.cell.heap.read? r = s.cell.heap.read? r := by
  induction acts generalizing s l with
  | nil =>
      obtain rfl : s = s' := Option.some_inj.1 hs
      rfl
  | cons act acts ih =>
      obtain ⟨s₁, hfollows, hrest⟩ := h.uncons hs
      rw [List.mem_cons, not_or] at hkept
      obtain ⟨hr₁, hread⟩ := hfollows.kept r hr (Ne.symm hkept.1)
      rw [ih hfollows.represents hrest hr₁ hkept.2, hread]

/-- **Readers see the changes of the drafts that were closed, and no others.**  After any run of
possible actions, the value that readers see is the first one with the published changes made to it.
The value of an open draft is that value with the draft's own changes made to it; so a new draft begins
with what readers see, and nothing of an earlier one is left.  Whatever is done next, the current
version stays the very same as long as no change is published, as with a draft in which nothing was
changed or which is discarded, and a snapshot keeps its value until it is given back.  A draft can be
opened if none is open, and all that is done to a draft is possible while one is open. -/
theorem run_is_transactional (a : α) (before : List (Action α)) (s : Session α)
    (hs : Published.run (.start a) before = some s) :
    s.cell.value? = some (replay (ledger before).published a) ∧
    (s.cell.staged? = (ledger before).draft.map fun fs =>
      replay fs (replay (ledger before).published a)) ∧
    (∀ act : Action α, (act.apply s).isSome = true ↔ act.Allowed (ledger before) s.snapshots) ∧
    (∀ r cell, s.cell.load = (r, cell) → r = s.cell.current ∧
      cell.heap.read? r = s.cell.value? ∧ cell.value? = s.cell.value?) ∧
    ∀ after s', Published.run s after = some s' →
      ((ledger (before ++ after)).published = (ledger before).published →
        s'.cell.current = s.cell.current) ∧
      ∀ r ∈ s.snapshots, .forget r ∉ after →
        (s'.cell.heap.read? r).isSome = true ∧
          s'.cell.heap.read? r = s.cell.heap.read? r := by
  have h : Represents a s (ledger before) := (Represents.start a).run hs
  refine ⟨h.value_eq, ?_, fun act => ⟨fun hsome => ?_, fun hact => ?_⟩, ?_, ?_⟩
  · cases hdraft : (ledger before).draft with
    | none => rw [staged?, h.draft_none hdraft]; rfl
    | some fs =>
        obtain ⟨d, hd, hread, -⟩ := h.draft_some fs hdraft
        rw [staged?, hd, Option.bind_some, hread]
        rfl
  · obtain ⟨s', hs'⟩ := Option.isSome_iff_exists.1 hsome
    exact h.allowed_of_apply hs'
  · obtain ⟨s', hs', -⟩ := h.apply hact
    rw [hs']
    rfl
  · rintro r cell ⟨⟩
    exact ⟨rfl, Heap.read?_hold _ _ _, Heap.read?_hold _ _ _⟩
  · intro after s' hs'
    refine ⟨fun hpub => h.current_eq hs' ?_, fun r hr hkept => ?_⟩
    · rwa [ledger, List.foldl_append] at hpub
    · have hread := h.read?_snapshot hs' hr hkept
      rw [hread]
      exact ⟨Heap.isSome_read? (h.wellFormed.holders_snapshot_pos hr), rfl⟩

/-- A draft that was discarded and one that is still open are not seen, and the snapshot from before
keeps its value when the second one is published. -/
theorem run_is_transactional_of_numbers : ∃ s s' : Session Nat,
    Published.run (.start 5) [.load, .write, .mutate (· + 1), .discard, .write, .mutate (· * 2)] =
        some s ∧
      s.cell.value? = some 5 ∧ s.cell.staged? = some 10 ∧
      Published.run s [.publish] = some s' ∧ s'.cell.value? = some 10 ∧
      ∀ r ∈ s.snapshots, s'.cell.heap.read? r = s.cell.heap.read? r := by
  let s : Session Nat :=
    ⟨⟨⟨#[some ⟨5, 1⟩, none, some ⟨10, 0⟩]⟩, ⟨0⟩, some ⟨⟨2⟩, true⟩⟩, [⟨0⟩]⟩
  let s' : Session Nat := ⟨⟨⟨#[some ⟨5, 0⟩, none, some ⟨10, 0⟩]⟩, ⟨2⟩, none⟩, [⟨0⟩]⟩
  have hs : Published.run (.start 5)
      [.load, .write, .mutate (· + 1), .discard, .write, .mutate (· * 2)] = some s := rfl
  have hs' : Published.run s [.publish] = some s' := rfl
  obtain ⟨hvalue, hstaged, -, -, hafter⟩ := run_is_transactional 5 _ s hs
  obtain ⟨-, hkept⟩ := hafter [.publish] s' hs'
  exact ⟨s, s', hs, hvalue, hstaged, hs', rfl, fun r hr => (hkept r hr (by simp)).2⟩

end Published

end GraphIndex
