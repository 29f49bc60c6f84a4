import AionDb.StorePendingFrame

/-!
# Creating, releasing and rolling back to savepoints

A new savepoint has the present state as its target. Releasing a savepoint and
rolling back to one take savepoints away and cut the undo log, at its end and by
compaction at its front; the savepoints that stay keep their targets.
-/

namespace AionDb

open Std ExtTreeMap List Option

variable {V R H G : Type}

namespace PendingTransaction

/-! ## Savepoint calls -/

theorem ordered_empty : ({} : PendingTransaction V R H G).Ordered := by
  constructor <;> simp

variable {p p' : PendingTransaction V R H G} {id : Nat}

theorem ordered_createSavepoint (hord : p.Ordered) : p.createSavepoint.2.Ordered := by
  have hlookup : ∀ (id : Nat) (sn : SavepointSnapshot),
      p.createSavepoint.2.savepoints[id]? = some sn →
        (id = p.nextSavepointId ∧ sn = ⟨p.undoLog.length, p.pendingAdjacency.length,
          p.pendingHnsw.length⟩) ∨ p.savepoints[id]? = some sn := by
    intro id sn h
    simp only [createSavepoint, ExtTreeMap.getElem?_insert, Std.compare_eq_iff_eq] at h
    split at h
    · exact .inl ⟨by omega, (Option.some.inj h).symm⟩
    · exact .inr h
  constructor
  · intro id sn h
    show id < p.nextSavepointId + 1
    rcases hlookup id sn h with ⟨rfl, -⟩ | h
    · omega
    · exact Nat.lt_succ_of_lt (hord.id_lt id sn h)
  · intro id sn h
    rcases hlookup id sn h with ⟨-, rfl⟩ | h
    · exact Nat.le_refl _
    · exact hord.log_le id sn h
  · intro id sn h
    rcases hlookup id sn h with ⟨-, rfl⟩ | h
    · exact Nat.le_refl _
    · exact hord.adjacency_le id sn h
  · intro id sn h
    rcases hlookup id sn h with ⟨-, rfl⟩ | h
    · exact Nat.le_refl _
    · exact hord.hnsw_le id sn h
  · intro id id' sn sn' hle h h'
    rcases hlookup id' sn' h' with ⟨rfl, rfl⟩ | h'
    · rcases hlookup id sn h with ⟨-, rfl⟩ | h
      · exact ⟨Nat.le_refl _, Nat.le_refl _, Nat.le_refl _⟩
      · exact ⟨hord.log_le id sn h, hord.adjacency_le id sn h, hord.hnsw_le id sn h⟩
    · rcases hlookup id sn h with ⟨rfl, -⟩ | h
      · have := hord.id_lt id' sn' h'
        omega
      · exact hord.mono id id' sn sn' hle h h'

theorem target_createSavepoint_self (p : PendingTransaction V R H G) :
    p.createSavepoint.2.target p.nextSavepointId =
      some ⟨p.toPendingWork, p.pendingAdjacency, p.pendingHnsw⟩ := by
  simp [target, createSavepoint, Undo.Slots.undo]

theorem target_createSavepoint_of_lt (p : PendingTransaction V R H G) (h : id < p.nextSavepointId) :
    p.createSavepoint.2.target id = p.target id := by
  have hne : p.nextSavepointId ≠ id := by omega
  simp [target, createSavepoint, ExtTreeMap.getElem?_insert, hne]

theorem compactPendingUndoLog_spec (hord : p.Ordered) :
    p.compactPendingUndoLog.Ordered ∧ ∀ id, p.compactPendingUndoLog.target id = p.target id := by
  rw [compactPendingUndoLog]
  split
  · rename_i hmin
    rw [min?_eq_none_iff, map_eq_nil_iff] at hmin
    have hnone : ∀ id : Nat, p.savepoints[id]? = none := by
      intro id
      by_contra hne
      obtain ⟨sn, hsn⟩ := ne_none_iff_exists'.mp hne
      have := mem_toList_iff_getElem?_eq_some.mpr hsn
      simp [hmin] at this
    refine ⟨⟨?_, ?_, ?_, ?_, ?_⟩, ?_⟩ <;> simp [target, hnone]
  · rename_i minLen hmin
    have hle : ∀ (id : Nat) (sn : SavepointSnapshot), p.savepoints[id]? = some sn →
        minLen ≤ sn.undoLogLen := by
      intro id sn h
      refine (min?_eq_some_iff.mp hmin).2 _ (mem_map.mpr ⟨(id, sn), ?_, rfl⟩)
      exact mem_toList_iff_getElem?_eq_some.mpr h
    have hlookup : ∀ (id : Nat) (sn : SavepointSnapshot),
        (p.savepoints.map fun _ snapshot =>
          { snapshot with undoLogLen := snapshot.undoLogLen - minLen })[id]? = some sn →
        ∃ sn', p.savepoints[id]? = some sn' ∧
          sn = { sn' with undoLogLen := sn'.undoLogLen - minLen } := by
      intro id sn h
      rw [ExtTreeMap.getElem?_map] at h
      obtain ⟨sn', h', rfl⟩ := map_eq_some_iff.mp h
      exact ⟨sn', h', rfl⟩
    constructor
    · constructor
      · intro id sn h
        obtain ⟨sn', h', rfl⟩ := hlookup id sn h
        exact hord.id_lt id sn' h'
      · intro id sn h
        obtain ⟨sn', h', rfl⟩ := hlookup id sn h
        have := hord.log_le id sn' h'
        simp only [length_drop]
        omega
      · intro id sn h
        obtain ⟨sn', h', rfl⟩ := hlookup id sn h
        exact hord.adjacency_le id sn' h'
      · intro id sn h
        obtain ⟨sn', h', rfl⟩ := hlookup id sn h
        exact hord.hnsw_le id sn' h'
      · intro id id' sn sn' hid h h'
        obtain ⟨sn1, h1, rfl⟩ := hlookup id sn h
        obtain ⟨sn2, h2, rfl⟩ := hlookup id' sn' h'
        obtain ⟨hlog, hadj, hhnsw⟩ := hord.mono id id' sn1 sn2 hid h1 h2
        exact ⟨by simp only; omega, hadj, hhnsw⟩
    · intro id
      simp only [target, ExtTreeMap.getElem?_map, Option.map_map]
      cases h : p.savepoints[id]? with
      | none => rfl
      | some sn =>
        have hlen := hle id sn h
        have hdrop : (p.undoLog.drop minLen).drop (sn.undoLogLen - minLen) =
            p.undoLog.drop sn.undoLogLen := by
          rw [drop_drop]; congr 1; omega
        simp only [map_some, Function.comp, hdrop]


/-- The savepoints that stay, with the targets they had. -/
structure Restricts (keep : Nat → Bool) (p p' : PendingTransaction V R H G) : Prop where
  ordered : p'.Ordered
  nextSavepointId : p'.nextSavepointId = p.nextSavepointId
  target : ∀ id, p'.target id = if keep id then p.target id else none

theorem toPendingWork_undoTo (p : PendingTransaction V R H G) (n : Nat) :
    (p.undoTo n).toPendingWork = PendingWork.slots.undo (p.undoLog.drop n) p.toPendingWork := by
  simp only [undoTo, foldl_reverse]
  rfl

def cutTo (p : PendingTransaction V R H G) (id : Nat) (sn : SavepointSnapshot) :
    PendingTransaction V R H G :=
  let q := p.undoTo sn.undoLogLen
  { q with
    pendingAdjacency := q.pendingAdjacency.take sn.pendingAdjacencyLen
    pendingHnsw := q.pendingHnsw.take sn.pendingHnswLen
    savepoints := q.savepoints.filter fun id' _ => decide (id' ≤ id) }

theorem getElem?_filter_savepoints {m : ExtTreeMap Nat SavepointSnapshot} {keep : Nat → Bool}
    (id : Nat) : (m.filter fun id' _ => keep id')[id]? = if keep id then m[id]? else none := by
  rw [getElem?_filter']
  cases m[id]? <;> cases keep id <;> rfl

theorem cutTo_spec {sn : SavepointSnapshot} (hord : p.Ordered) (hsn : p.savepoints[id]? = some sn) :
    Restricts (· ≤ id) p (p.cutTo id sn) := by
  have hlog := hord.log_le id sn hsn
  have hsp : ∀ id', (p.cutTo id sn).savepoints[id']? =
      if decide (id' ≤ id) then p.savepoints[id']? else none :=
    fun id' => getElem?_filter_savepoints id'
  have hkept : ∀ (id' : Nat) (sn' : SavepointSnapshot),
      (p.cutTo id sn).savepoints[id']? = some sn' → id' ≤ id ∧ p.savepoints[id']? = some sn' := by
    intro id' sn' h
    rw [hsp] at h
    by_cases hle : id' ≤ id
    · exact ⟨hle, by simpa [hle] using h⟩
    · simp [hle] at h
  refine ⟨⟨?_, ?_, ?_, ?_, ?_⟩, rfl, ?_⟩
  · intro id' sn' h
    exact hord.id_lt id' sn' (hkept id' sn' h).2
  · intro id' sn' h
    obtain ⟨hle, h'⟩ := hkept id' sn' h
    have := (hord.mono id' id sn' sn hle h' hsn).1
    simp only [cutTo, undoTo, length_take]
    omega
  · intro id' sn' h
    obtain ⟨hle, h'⟩ := hkept id' sn' h
    have := (hord.mono id' id sn' sn hle h' hsn).2.1
    have := hord.adjacency_le id sn hsn
    simp only [cutTo, undoTo, length_take]
    omega
  · intro id' sn' h
    obtain ⟨hle, h'⟩ := hkept id' sn' h
    have := (hord.mono id' id sn' sn hle h' hsn).2.2
    have := hord.hnsw_le id sn hsn
    simp only [cutTo, undoTo, length_take]
    omega
  · intro id₁ id₂ sn₁ sn₂ hle h₁ h₂
    exact hord.mono id₁ id₂ sn₁ sn₂ hle (hkept id₁ sn₁ h₁).2 (hkept id₂ sn₂ h₂).2
  · intro id'
    rw [target, hsp]
    by_cases hle : id' ≤ id
    · simp only [hle, decide_true, if_true, target]
      cases h' : p.savepoints[id']? with
      | none => rfl
      | some sn' =>
        obtain ⟨h1, h2, h3⟩ := hord.mono id' id sn' sn hle h' hsn
        -- the log from the outer savepoint is what is left of it and what was undone
        have hsplit : p.undoLog.drop sn'.undoLogLen =
            (p.undoLog.take sn.undoLogLen).drop sn'.undoLogLen ++ p.undoLog.drop sn.undoLogLen := by
          rw [← drop_append_of_le_length (by simp; omega), take_append_drop]
        have hwork : PendingWork.slots.undo
            ((p.cutTo id sn).undoLog.drop sn'.undoLogLen) (p.cutTo id sn).toPendingWork =
            PendingWork.slots.undo (p.undoLog.drop sn'.undoLogLen) p.toPendingWork := by
          rw [hsplit, Undo.Slots.undo, Undo.Slots.undo, foldr_append]
          show (List.drop _ (List.take _ _)).foldr _ (p.undoTo sn.undoLogLen).toPendingWork = _
          rw [toPendingWork_undoTo]
          rfl
        have hadj : (p.cutTo id sn).pendingAdjacency.take sn'.pendingAdjacencyLen =
            p.pendingAdjacency.take sn'.pendingAdjacencyLen := by
          simp only [cutTo, undoTo, take_take]
          congr 1
          omega
        have hhnsw : (p.cutTo id sn).pendingHnsw.take sn'.pendingHnswLen =
            p.pendingHnsw.take sn'.pendingHnswLen := by
          simp only [cutTo, undoTo, take_take]
          congr 1
          omega
        simp only [map_some, hwork, hadj, hhnsw]
    · simp [hle]

theorem rollbackToSavepoint_spec (hord : p.Ordered) (h : p.rollbackToSavepoint id = .ok p') :
    Restricts (· ≤ id) p p' ∧
      p.target id = some ⟨p'.toPendingWork, p'.pendingAdjacency, p'.pendingHnsw⟩ := by
  rw [rollbackToSavepoint] at h
  cases hsn : p.savepoints[id]? with
  | none => simp [hsn] at h
  | some sn =>
    simp only [hsn, Except.ok.injEq] at h
    have hp' : (p.cutTo id sn).compactPendingUndoLog = p' := h
    have hcut := cutTo_spec hord hsn
    obtain ⟨hord', htarget⟩ := compactPendingUndoLog_spec hcut.ordered
    have hsame : p'.toPendingWork = (p.cutTo id sn).toPendingWork ∧
        p'.pendingAdjacency = (p.cutTo id sn).pendingAdjacency ∧
        p'.pendingHnsw = (p.cutTo id sn).pendingHnsw ∧
        p'.nextSavepointId = p.nextSavepointId := by
      rw [← hp', compactPendingUndoLog]
      split <;> exact ⟨rfl, rfl, rfl, rfl⟩
    refine ⟨⟨hp' ▸ hord', hsame.2.2.2, fun id' => ?_⟩, ?_⟩
    · rw [← hp', htarget, hcut.target]
    · rw [hsame.1, hsame.2.1, hsame.2.2.1, target, hsn]
      simp only [map_some, Option.some.injEq, Target.mk.injEq]
      exact ⟨(toPendingWork_undoTo p _).symm, rfl, rfl⟩

theorem rollbackToSavepoint_isOk {T : Target V R H G} (h : p.target id = some T) :
    ∃ p', p.rollbackToSavepoint id = .ok p' := by
  obtain ⟨sn, hsn, -⟩ := map_eq_some_iff.mp h
  simp [rollbackToSavepoint, hsn]

theorem rollback_same {p1 p3 : PendingTransaction V R H G} (h1 : p1.Ordered) (h3 : p3.Ordered)
    (hsome : (p1.target id).isSome) (h : p3.target id = p1.target id) :
    ∃ q1 q3, p1.rollbackToSavepoint id = .ok q1 ∧ p3.rollbackToSavepoint id = .ok q3 ∧
      q3.toPendingWork = q1.toPendingWork ∧ q3.pendingAdjacency = q1.pendingAdjacency ∧
      q3.pendingHnsw = q1.pendingHnsw := by
  obtain ⟨T, hT⟩ := isSome_iff_exists.mp hsome
  obtain ⟨q1, hq1⟩ := rollbackToSavepoint_isOk hT
  obtain ⟨q3, hq3⟩ := rollbackToSavepoint_isOk (h.trans hT)
  have e1 := (rollbackToSavepoint_spec h1 hq1).2
  have e3 := (rollbackToSavepoint_spec h3 hq3).2
  rw [h, e1, Option.some.injEq, Target.mk.injEq] at e3
  exact ⟨q1, q3, hq1, hq3, e3.1.symm, e3.2.1.symm, e3.2.2.symm⟩

theorem releaseSavepoint_spec (hord : p.Ordered) (h : p.releaseSavepoint id = .ok p') :
    Restricts (· < id) p p' := by
  rw [releaseSavepoint] at h
  split at h
  · set q : PendingTransaction V R H G :=
      { p with savepoints := p.savepoints.filter fun id' _ => decide (id' < id) }
    have hp' : q.compactPendingUndoLog = p' := Except.ok.inj h
    have hsp : ∀ id', q.savepoints[id']? =
        if decide (id' < id) then p.savepoints[id']? else none :=
      fun id' => getElem?_filter_savepoints id'
    have hkept : ∀ (id' : Nat) (sn' : SavepointSnapshot),
        q.savepoints[id']? = some sn' → p.savepoints[id']? = some sn' := by
      intro id' sn' h
      rw [hsp] at h
      split at h
      · exact h
      · simp at h
    have hq : q.Ordered :=
      ⟨fun id' sn' h => hord.id_lt id' sn' (hkept id' sn' h),
        fun id' sn' h => hord.log_le id' sn' (hkept id' sn' h),
        fun id' sn' h => hord.adjacency_le id' sn' (hkept id' sn' h),
        fun id' sn' h => hord.hnsw_le id' sn' (hkept id' sn' h),
        fun id1 id2 sn1 sn2 hle h1 h2 =>
          hord.mono id1 id2 sn1 sn2 hle (hkept id1 sn1 h1) (hkept id2 sn2 h2)⟩
    obtain ⟨hord', htarget⟩ := compactPendingUndoLog_spec hq
    refine ⟨hp' ▸ hord', ?_, fun id' => ?_⟩
    · rw [← hp', compactPendingUndoLog]
      split <;> rfl
    · rw [← hp', htarget, target, hsp]
      split <;> rfl
  · simp at h

end PendingTransaction

end AionDb
