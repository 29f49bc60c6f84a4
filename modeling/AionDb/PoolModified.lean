import AionDb.PoolSteps

/-!
# Pages modified since the last checkpoint

A dropped guard records its page as modified when it finds the frame dirty; a
snapshot copies the recorded pages; a clear forgets them. Every page changed
through a dropped guard is in the next snapshot, as long as no flush comes between
a write and the drop of its guard and a clear forgets only what a snapshot has
returned.
-/

namespace AionDb.Pool

open Function List

variable {D : Type*} {cfg : PoolConfig D} {s s' : PoolState D} {i : Nat} {t t' : Task D}

/-- What is recorded and not cleared is in the set, and every version that a dropped guard
wrote has been recorded. -/
structure Book (s : PoolState D) : Prop where
  modified : ∀ p, s.cleared p < s.tracked p → p.pageNumber ∈ s.modifiedPages p.relationId
  due_le : ∀ p, s.due p ≤ s.tracked p
  tracked_le : ∀ p, s.tracked p ≤ s.version p
  written : ∀ p, 0 < s.version p → s.written p ≠ none

/-- Every page due at the beginning of the snapshot is copied or still to be copied. -/
def Snapshot.Covers (c : Snapshot D) (s : PoolState D) (now : List PageId) : Prop :=
  ∀ q, c.due q → q.relationId = c.relationId →
    s.written q ≠ none ∧ (q ∈ now ∨ q ∈ c.pages ∨ q ∈ c.copied.map (·.1))

def Task.Versed (s : PoolState D) : Task D → Prop
  | .holding p _ wrote => wrote ≤ s.version p
  | .tracking p _ wrote (some v) => wrote ≤ v ∧ v ≤ s.version p
  | .tracking p _ wrote none => wrote ≤ s.tracked p
  | .unpinning p _ wrote => wrote ≤ s.tracked p
  | .snapNext c => c.Covers s []
  | .snapLookup p c | .snapFrame p _ c | .snapStore p c => c.Covers s [p]
  | _ => True

structure Grows (s s' : PoolState D) : Prop where
  version : ∀ p, s.version p ≤ s'.version p
  tracked : ∀ p, s.tracked p ≤ s'.tracked p
  written : ∀ p, s.written p ≠ none → s'.written p ≠ none

variable {p : PageId} {slot v : Nat} {data : D} {c : Snapshot D}

theorem Snapshot.Covers.mono {now : List PageId} (h : c.Covers s now) (hg : Grows s s') :
    c.Covers s' now := fun q hq hr =>
  ⟨hg.written q (h q hq hr).1, (h q hq hr).2⟩

theorem Task.Versed.mono (h : t.Versed s) (hg : Grows s s') : t.Versed s' := by
  cases t with
  | holding p slot wrote => exact h.trans (hg.version p)
  | tracking p slot wrote dirtyAt =>
    cases dirtyAt with
    | none => exact h.trans (hg.tracked p)
    | some v => exact ⟨h.1, h.2.trans (hg.version p)⟩
  | unpinning p slot wrote => exact h.trans (hg.tracked p)
  | snapNext c | snapLookup p c | snapFrame p slot c | snapStore p c =>
    exact Snapshot.Covers.mono h hg
  | _ => trivial

theorem Snapshot.Covers.copy (h : c.Covers s [p]) (data : D) (version : Nat) :
    Snapshot.Covers { c with copied := c.copied ++ [(p, data, version)] } s [] := by
  intro q hq hr
  obtain ⟨hw, hmem⟩ := h q hq hr
  refine ⟨hw, .inr ?_⟩
  rcases hmem with hmem | hmem | hmem
  · cases mem_singleton.mp hmem
    simp
  · exact .inl hmem
  · refine .inr ?_
    simp only [map_append, mem_append]
    exact .inl hmem

theorem Book.trackModifiedPage (hb : Book s) (hv : v ≤ s.version p) :
    Book (s.trackModifiedPage p v) := by
  have htracked : ∀ q, (s.trackModifiedPage p v).tracked q =
      if q = p then max (s.tracked p) v else s.tracked q := fun q => by
    simp [PoolState.trackModifiedPage, update_apply]
  refine { hb with
    modified := fun q hq => ?_
    due_le := (forall_update_iff s.tracked fun q => (s.due q ≤ ·)).mpr
      ⟨le_max_of_le_left (hb.due_le p), fun q _ => hb.due_le q⟩
    tracked_le := (forall_update_iff s.tracked fun q => (· ≤ s.version q)).mpr
      ⟨max_le (hb.tracked_le p) hv, fun q _ => hb.tracked_le q⟩ }
  change q.pageNumber ∈ update s.modifiedPages p.relationId _ q.relationId
  have hold : q ≠ p → q.pageNumber ∈ s.modifiedPages q.relationId := fun hne => by
    rw [htracked, if_neg hne] at hq
    exact hb.modified q hq
  by_cases hrel : q.relationId = p.relationId
  · rw [hrel, update_self]
    by_cases hqp : q = p
    · exact hqp ▸ Finset.mem_insert_self _ _
    · exact Finset.mem_insert_of_mem (hrel ▸ hold hqp)
  · rw [update_of_ne hrel]
    exact hold fun h => hrel (h ▸ rfl)

theorem Book.unpin (hb : Book s) {wrote : Nat} (hw : wrote ≤ s.tracked p) :
    Book { s.unpin i slot with due := update s.due p (max (s.due p) wrote) } where
  __ := hb
  due_le := (forall_update_iff s.due fun q => (· ≤ s.tracked q)).mpr
    ⟨max_le (hb.due_le p) hw, fun q _ => hb.due_le q⟩

theorem Book.write (hb : Book s) : Book (s.write p slot data) := by
  refine { hb with
    tracked_le := (forall_update_iff s.version fun q => (s.tracked q ≤ ·)).mpr
      ⟨(hb.tracked_le p).trans (Nat.le_succ _), fun q _ => hb.tracked_le q⟩
    written := fun q hq => ?_ }
  change update s.written p (some data) q ≠ none
  by_cases hqp : q = p
  · subst hqp
    simp
  · rw [update_of_ne hqp]
    refine hb.written q ?_
    have hq : 0 < update s.version p (s.version p + 1) q := hq
    rwa [update_of_ne hqp] at hq

theorem Grows.write : Grows s (s.write p slot data) := by
  refine ⟨(forall_update_iff s.version fun q => (s.version q ≤ ·)).mpr
    ⟨Nat.le_succ _, fun _ _ => le_rfl⟩, fun _ => le_rfl, ?_⟩
  exact (forall_update_iff s.written fun q w => s.written q ≠ none → w ≠ none).mpr
    ⟨nofun, fun _ _ h => h⟩

theorem Grows.trackModifiedPage : Grows s (s.trackModifiedPage p v) :=
  ⟨fun _ => le_rfl, (forall_update_iff s.tracked fun q => (s.tracked q ≤ ·)).mpr
    ⟨le_max_left _ _, fun _ _ => le_rfl⟩, fun _ h => h⟩

theorem Book.clear (hb : Book s) {relationId : Nat} {pageNumbers : List Nat}
    (h : ∀ n ∈ pageNumbers, s.tracked ⟨relationId, n⟩ ≤ s.shown ⟨relationId, n⟩) :
    Book (s.clearModifiedRelationPages relationId pageNumbers) := by
  refine { hb with modified := fun q hq => ?_ }
  have hq : (if q.relationId = relationId ∧ q.pageNumber ∈ pageNumbers then s.shown q
    else s.cleared q) < s.tracked q := hq
  change q.pageNumber ∈ update s.modifiedPages relationId _ q.relationId
  by_cases hin : q.relationId = relationId ∧ q.pageNumber ∈ pageNumbers
  · obtain ⟨rfl, hn⟩ := hin
    rw [if_pos ⟨rfl, hn⟩] at hq
    exact absurd (h q.pageNumber hn) (not_le_of_gt hq)
  · rw [if_neg hin] at hq
    have hmem := hb.modified q hq
    by_cases hrel : q.relationId = relationId
    · subst hrel
      rw [update_self, Finset.mem_sdiff, mem_toFinset]
      exact ⟨hmem, fun hn => hin ⟨rfl, hn⟩⟩
    · rwa [update_of_ne hrel]

theorem Book.advance (hb : Book s) (hs : Sound s) (hi : Relies cfg s i t) (hv : t.Versed s)
    (h : t.advance cfg s i = some (s', t')) : Book s' ∧ t'.Versed s' ∧ Grows s s' := by
  have hsame : Grows s s := ⟨fun _ => le_rfl, fun _ => le_rfl, fun _ h => h⟩
  cases t with (simp only [Task.advance] at h)
  | tracking p slot wrote dirtyAt =>
    cases dirtyAt with
    | none => cases h; exact ⟨hb, hv, hsame⟩
    | some v =>
      cases h
      refine ⟨hb.trackModifiedPage hv.2, ?_, .trackModifiedPage⟩
      change wrote ≤ update s.tracked p _ p
      rw [update_self]
      exact hv.1.trans (le_max_right _ _)
  | unpinning p slot wrote =>
    split at h
    · cases h
    · cases h
      exact ⟨hb.unpin hv, trivial, { hsame with }⟩
  | snapNext c =>
    split at h
    · cases h
      exact ⟨{ hb with }, trivial, { hsame with }⟩
    rename_i p pages hpages
    split at h
    · cases h
    cases h
    refine ⟨{ hb with }, fun q hq hr => ?_, { hsame with }⟩
    obtain ⟨hw, hmem⟩ := hv q hq hr
    refine ⟨hw, ?_⟩
    rw [hpages] at hmem
    rcases hmem with hmem | hmem | hmem
    · cases hmem
    · exact (mem_cons.mp hmem).imp (fun h => by simp [h]) .inl
    · exact .inr (.inr hmem)
  | snapLookup p c => split at h <;> (cases h; exact ⟨hb, hv, hsame⟩)
  | snapFrame p slot c =>
    split at h
    · cases h
    · split at h
      · cases h
        exact ⟨{ hb with }, hv.copy _ _, { hsame with }⟩
      · cases h
        exact ⟨hb, hv, hsame⟩
  | snapStore p c =>
    split at h
    · cases h
      exact ⟨{ hb with }, hv.copy _ _, { hsame with }⟩
    -- A page that is not found was never written.
    rename_i hnone
    cases h
    refine ⟨{ hb with }, fun q hq hr => ?_, { hsame with }⟩
    obtain ⟨hw, hmem⟩ := hv q hq hr
    refine ⟨hw, hmem.imp (fun hqp => ?_) id⟩
    cases mem_singleton.mp hqp
    obtain ⟨w, hw⟩ := Option.ne_none_iff_exists'.mp hw
    rw [hs.stored p w hw (hi.absent p rfl), Option.some_or] at hnone
    cases hnone
  | enterClock p slot | accessClock p slot locked =>
    cases h
    refine ⟨?_, Nat.zero_le _, ?_⟩
    · first | exact { hb with } | (cases locked <;> exact { hb with })
    · first | exact { hsame with } | (cases locked <;> exact { hsame with })
  | flushNext pages limit =>
    cases pages with
    | nil => cases h; exact ⟨hb, trivial, hsame⟩
    | cons p pages =>
      simp only at h
      split at h
      · cases h; exact ⟨hb, trivial, hsame⟩
      · split at h
        · cases h
        · cases h; exact ⟨{ hb with }, trivial, { hsame with }⟩
  | _ =>
    -- versions, records and what was written stay as they are
    repeat' split at h
    all_goals cases h
    all_goals exact ⟨{ hb with }, trivial, { hsame with }⟩

namespace PoolSystem

variable {sys sys' : PoolSystem D} {a : PoolAction D}

/-- The frame is still dirty when a guard that wrote to it is dropped, unless the change has
been recorded already; and a clear takes pages whose recorded changes a snapshot has
returned. -/
def Recorded (sys : PoolSystem D) : PoolAction D → Prop
  | .drop i =>
    match sys.tasks i with
    | .holding p slot wrote => (sys.state.frames slot).dirty ∨ wrote ≤ sys.state.tracked p
    | _ => True
  | .clearModified relationId pageNumbers =>
    ∀ n ∈ pageNumbers, sys.state.tracked ⟨relationId, n⟩ ≤ sys.state.shown ⟨relationId, n⟩
  | _ => True

def recorded (sys : PoolSystem D) : PoolAction D → Bool
  | .drop i =>
    match sys.tasks i with
    | .holding p slot wrote => (sys.state.frames slot).dirty || decide (wrote ≤ sys.state.tracked p)
    | _ => true
  | .clearModified relationId pageNumbers => pageNumbers.all fun n =>
    decide (sys.state.tracked ⟨relationId, n⟩ ≤ sys.state.shown ⟨relationId, n⟩)
  | _ => true

theorem recorded_iff {a : PoolAction D} : recorded sys a = true ↔ Recorded sys a := by
  cases a with
  | drop i => cases h : sys.tasks i <;> simp [recorded, Recorded, h]
  | clearModified relationId pageNumbers => simp [recorded, Recorded]
  | _ => simp [recorded, Recorded]

instance (sys : PoolSystem D) (a : PoolAction D) : Decidable (Recorded sys a) :=
  decidable_of_iff _ recorded_iff

structure ModifiedInv (cfg : PoolConfig D) (sys : PoolSystem D) : Prop where
  inv : Inv cfg sys
  book : Book sys.state
  versed : ∀ i, (sys.tasks i).Versed sys.state
  snapshots : ∀ relationId due pages, (relationId, due, pages) ∈ sys.snapshots → ∀ p, due p →
    p.relationId = relationId → p ∈ pages

theorem versed_setTask (hversed : ∀ j, (sys.tasks j).Versed sys.state) (hself : t.Versed s)
    (hg : Grows sys.state s) (j : Nat) : ((sys.setTask i s t).tasks j).Versed s :=
  (forall_update_iff sys.tasks fun _ t => t.Versed s).mpr ⟨hself, fun j _ => (hversed j).mono hg⟩ j

theorem grows_refl : Grows s s := ⟨fun _ => le_rfl, fun _ => le_rfl, fun _ h => h⟩

section

variable (h : ModifiedInv cfg sys)
include h

theorem ModifiedInv.begin (hinv : Inv cfg sys')
    (hbegin : sys.begin i t = some sys') (hself : t.Versed sys.state) : ModifiedInv cfg sys' := by
  obtain ⟨-, rfl⟩ := begin_eq_some hbegin
  exact ⟨hinv, h.book, versed_setTask h.versed hself grows_refl, h.snapshots⟩

theorem ModifiedInv.setTask (hinv : Inv cfg (sys.setTask i s t))
    (hbook : Book s) (hself : t.Versed s) (hg : Grows sys.state s) :
    ModifiedInv cfg (sys.setTask i s t) :=
  ⟨hinv, hbook, versed_setTask h.versed hself hg, h.snapshots⟩

theorem ModifiedInv.covers (relationId : Nat) :
    Snapshot.Covers { relationId, due := isDue sys.state, pages :=
      ((sys.state.modifiedPages relationId).sort (· ≤ ·)).map (⟨relationId, ·⟩) } sys.state [] := by
  rintro q hq (rfl : q.relationId = relationId)
  have hlt : sys.state.cleared q < sys.state.due q := of_decide_eq_true hq
  have htracked := hlt.trans_le (h.book.due_le q)
  refine ⟨h.book.written q ?_, .inr (.inl ?_)⟩
  · exact (Nat.zero_le _).trans_lt (htracked.trans_le (h.book.tracked_le q))
  · refine mem_map.mpr ⟨q.pageNumber, ?_, rfl⟩
    exact (Finset.mem_sort _).mpr (h.book.modified q htracked)

theorem step_modifiedInv (hord : Orderly sys a) (hrec : Recorded sys a)
    (hstep : sys.step cfg a = some sys') : ModifiedInv cfg sys' := by
  have hinv := step_inv h.inv hord hstep
  cases a with (simp only [step] at hstep)
  | fetchPage i p | newPage i relationId | flushPage i p => exact h.begin hinv hstep trivial
  | flushAll i pages | flushSome i limit pages =>
    split at hstep
    · exact h.begin hinv hstep trivial
    · cases hstep
  | snapshot i relationId => exact h.begin hinv hstep (h.covers relationId)
  | clearModified relationId pageNumbers =>
    cases hstep
    exact ⟨hinv, h.book.clear hrec, fun j => (h.versed j).mono { grows_refl (s := sys.state) with },
      h.snapshots⟩
  | write i data =>
    repeat' split at hstep
    all_goals cases hstep
    refine h.setTask hinv h.book.write ?_ .write
    change _ ≤ update sys.state.version _ _ _
    rw [update_self]
  | drop i =>
    split at hstep
    · rename_i p slot wrote ht
      split at hstep
      · cases hstep
      cases hstep
      refine h.setTask hinv h.book ?_ grows_refl
      have hv := h.versed i
      rw [ht] at hv
      simp only [Recorded, ht] at hrec
      cases hd : (sys.state.frames slot).dirty with
      | true => exact ⟨hv, le_rfl⟩
      | false => exact hrec.resolve_left (by simp [hd])
    · cases hstep
  | step i =>
    split at hstep
    · cases hstep
    rename_i s t hadv
    obtain ⟨hbook, hself, hg⟩ := h.book.advance h.inv.sound (h.inv.relies i) (h.versed i) hadv
    split at hstep
    · rename_i relationId copied due ht
      cases hstep
      refine ⟨hinv, hbook, versed_setTask h.versed hself hg, ?_⟩
      intro rel d pages hmem q hq hr
      rcases mem_append.mp hmem with hmem | hmem
      · exact h.snapshots rel d pages hmem q hq hr
      cases mem_singleton.mp hmem
      have hv := h.versed i
      rw [ht] at hv
      rcases (hv q hq hr).2 with hmem | hmem | hmem
      · cases hmem
      · cases hmem
      · exact hmem
    · cases hstep
      exact h.setTask hinv hbook hself hg
  | allocated | sweep =>
    repeat' split at hstep
    all_goals cases hstep
    all_goals exact h.setTask hinv { h.book with } trivial { grows_refl (s := sys.state) with }
  | fail i =>
    obtain ⟨s, hfail, rfl⟩ := Option.map_eq_some_iff.mp hstep
    cases ht : sys.tasks i <;> (rw [ht] at hfail; cases hfail) <;>
      exact h.setTask hinv { h.book with } trivial { grows_refl (s := sys.state) with }

end

theorem modifiedInv_init : ModifiedInv cfg (init cfg) :=
  ⟨inv_init, ⟨nofun, fun _ => le_rfl, fun _ => le_rfl, nofun⟩, fun _ => trivial, nofun⟩

def writeNewPage : List (PoolAction Nat) :=
  [.newPage 0 1, .allocated 0 0] ++ steps 5 0 ++ [.write 0 7, .drop 0] ++ steps 2 0

/-- A snapshot returns the page, a clear forgets it, and the next snapshot is empty. -/
def snapshotThenClear : List (PoolAction Nat) :=
  writeNewPage ++ [.snapshot 1 1] ++ steps 4 1 ++ [.clearModified 1 [0], .snapshot 1 1] ++ steps 1 1

end PoolSystem

end AionDb.Pool
