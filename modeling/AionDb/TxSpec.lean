import AionDb.TxLifecycle

/-!
# What each call of the transaction manager does

One lemma per method, stated over two views of the manager that do not
distinguish tuples from relations: `holds`, whether a tracked entry contains
an access, and `lastWrite`, the commit timestamp cached for it. Validation
and pruning treat both caches alike, so every later argument is made once.
-/

namespace AionDb

open Std ExtTreeMap List Option

namespace TransactionManager

variable {m m' : TransactionManager} {t : TxnId} {a b : Access} {ts : Nat}

def Access.isWrite : Access → Bool
  | .tupleWrite _ => true
  | .relationWrite _ => true
  | .relationRead _ => false

def lastWrite (m : TransactionManager) : Access → Option Nat
  | .tupleWrite key => m.lastTupleWriteCommit[key]?
  | .relationWrite r => m.lastRelationWriteCommit[r]?
  | .relationRead _ => none

def holds (e : SerializableTxnState) : Access → Prop
  | .tupleWrite key => key ∈ e.writtenTuples
  | .relationWrite r => r ∈ e.writtenRelations
  | .relationRead r => r ∈ e.readRelations

instance (e : SerializableTxnState) : DecidablePred (holds e) := fun a => by
  cases a <;> unfold holds <;> infer_instance

def addAccess (e : SerializableTxnState) : Access → SerializableTxnState
  | .tupleWrite key => { e with writtenTuples := e.writtenTuples.insert key }
  | .relationWrite r => { e with writtenRelations := e.writtenRelations.insert r }
  | .relationRead r => { e with readRelations := e.readRelations.insert r }

@[simp] theorem addAccess_startTs (e : SerializableTxnState) (a : Access) :
    (addAccess e a).startTs = e.startTs := by
  cases a <;> rfl

variable {isolation : IsolationLevel} {e : SerializableTxnState} {h : ActiveTransaction}

theorem holds_addAccess : holds (addAccess e a) b ↔ b = a ∨ holds e b := by
  cases a <;> cases b <;>
    simp [addAccess, holds, ExtTreeSet.mem_insert, @eq_comm Nat, @eq_comm TupleKey]

theorem not_holds_fresh (start : Nat) : ¬ holds { startTs := start } a := by
  cases a <;> simp [holds]

/-! ## Pruning -/

@[simp] theorem pruneCommitCaches_activeTxns : m.pruneCommitCaches.activeTxns = m.activeTxns := by
  unfold pruneCommitCaches
  split
  · rfl
  · split <;> rfl

@[simp] theorem pruneCommitCaches_trackedTxns :
    m.pruneCommitCaches.trackedTxns = m.trackedTxns := by
  unfold pruneCommitCaches
  split
  · rfl
  · split <;> rfl

@[simp] theorem pruneCommitCaches_commitTs : m.pruneCommitCaches.commitTs = m.commitTs := by
  unfold pruneCommitCaches
  split
  · rfl
  · split <;> rfl

@[simp] theorem pruneCommitCaches_nextTxnId : m.pruneCommitCaches.nextTxnId = m.nextTxnId := by
  unfold pruneCommitCaches
  split
  · rfl
  · split <;> rfl

theorem oldestStart_le {oldest : Nat} (he : m.trackedTxns[t]? = some e)
    (ho : m.oldestStart = some oldest) :
    oldest ≤ e.startTs := by
  have hmem : e.startTs ∈ m.trackedTxns.toList.map fun p => p.2.startTs :=
    mem_map.mpr ⟨(t, e), mem_toList_iff_getElem?_eq_some.mpr he, rfl⟩
  exact (min?_eq_some_iff.mp ho).2 _ hmem

theorem lastWrite_of_pruneCommitCaches (h : m.pruneCommitCaches.lastWrite a = some ts) :
    m.lastWrite a = some ts := by
  unfold pruneCommitCaches at h
  split at h
  · cases a <;> simp [lastWrite] at h
  · split at h
    · exact h
    · cases a <;> simp_all [lastWrite, filter_eq_some_iff]

/-- Pruning keeps every timestamp that is not below the start of some tracked
transaction: that transaction may still be validated against it. -/
theorem pruneCommitCaches_lastWrite (he : m.trackedTxns[t]? = some e) (hle : e.startTs ≤ ts)
    (h : m.lastWrite a = some ts) : m.pruneCommitCaches.lastWrite a = some ts := by
  have hne : m.trackedTxns.isEmpty = false := by
    rw [Bool.eq_false_iff, Ne, ExtTreeMap.isEmpty_iff]
    rintro hem
    simp [hem] at he
  unfold pruneCommitCaches
  rw [if_neg (by simp [hne])]
  split
  · exact h
  · rename_i oldest ho
    have hold := (oldestStart_le he ho).trans hle
    cases a <;> simp_all [lastWrite, filter_eq_some_iff]

/-! ## Recording -/

def keeps (isolation : IsolationLevel) (a : Access) : Bool :=
  a.isWrite || isolation == .serializable

theorem record_eq {active : ActiveTxnState} (ht : t ≠ 0) (hact : m.activeTxns[t]? = some active) :
    m.record t a = (.ok (),
      if keeps active.isolation a then
        { m with
          trackedTxns := m.trackedTxns.insert t
            (addAccess (m.trackedTxns[t]?.getD { startTs := active.startTs }) a) }
      else m) := by
  cases a with
  | tupleWrite key =>
    simp [record, recordWrite, ht, trackedStateForActiveTxn, hact, keeps, Access.isWrite, addAccess]
  | relationWrite r =>
    simp [record, recordRelationWrite, ht, trackedStateForActiveTxn, hact, keeps,
      Access.isWrite, addAccess]
  | relationRead r =>
    by_cases hs : active.isolation = .serializable
    · simp [record, recordRelationRead, ht, trackedStateForActiveTxn, hact, keeps,
        Access.isWrite, addAccess, hs]
    · simp [record, recordRelationRead, ht, hact, keeps, Access.isWrite, hs]

/-! ## Begin, commit, rollback -/

theorem begin_ok (hb : m.begin isolation = (.ok h, m')) :
    h.id = m.nextTxnId ∧ m.nextTxnId ≠ 0 ∧ h.isolation = isolation ∧ h.startTs = m.commitTs ∧
      m' = { m with
        nextTxnId := m.nextTxnId + 1
        activeTxns := m.activeTxns.insert m.nextTxnId ⟨isolation, m.commitTs⟩
        trackedTxns :=
          if isolation ≠ .readCommitted then
            m.trackedTxns.insert m.nextTxnId { startTs := m.commitTs }
          else m.trackedTxns } := by
  unfold begin allocateTxnId at hb
  cases hadd : checkedAdd m.nextTxnId 1 with
  | none => simp [hadd] at hb
  | some next =>
    obtain ⟨-, rfl⟩ := checkedAdd_eq_some.mp hadd
    by_cases h0 : m.nextTxnId = 0
    · simp [hadd, if_pos h0] at hb
    · simp only [hadd, if_neg h0, Prod.mk.injEq, Except.ok.injEq] at hb
      obtain ⟨rfl, rfl⟩ := hb
      refine ⟨rfl, h0, rfl, rfl, ?_⟩
      split <;> rfl

theorem begin_error {e : DbError} (hb : m.begin isolation = (.error e, m')) :
    ∃ next, m.nextTxnId ≤ next ∧ m' = { m with nextTxnId := next } := by
  unfold begin allocateTxnId at hb
  cases hadd : checkedAdd m.nextTxnId 1 with
  | none =>
    simp only [hadd, Prod.mk.injEq] at hb
    exact ⟨m.nextTxnId, le_rfl, hb.2.symm⟩
  | some next =>
    obtain ⟨-, rfl⟩ := checkedAdd_eq_some.mp hadd
    by_cases h0 : m.nextTxnId = 0
    · simp only [hadd, if_pos h0, Prod.mk.injEq] at hb
      exact ⟨m.nextTxnId + 1, by omega, hb.2.symm⟩
    · simp [hadd, if_neg h0] at hb

section

variable (hact : m.activeTxns[h.id]? = some ⟨h.isolation, h.startTs⟩)
include hact

theorem assertActiveTransaction_of_active :
    m.assertActiveTransaction h = .ok ⟨h.isolation, h.startTs⟩ := by
  simp [assertActiveTransaction, hact]

theorem commit_cases :
    (∃ e, m.commit h = (.error e, m)) ∨
      m.commit h = (.ok ⟨h.id, m.commitTs + 1⟩,
        { m with commitTs := m.commitTs + 1, activeTxns := m.activeTxns.erase h.id }) := by
  unfold commit allocateCommitTs
  rw [assertActiveTransaction_of_active hact]
  cases hadd : checkedAdd m.commitTs 1 with
  | none => exact .inl ⟨_, rfl⟩
  | some next =>
    obtain ⟨-, rfl⟩ := checkedAdd_eq_some.mp hadd
    exact .inr rfl

theorem rollback_eq :
    m.rollback h = (.ok (), TransactionManager.pruneCommitCaches
      { m with
        activeTxns := m.activeTxns.erase h.id
        trackedTxns := m.trackedTxns.erase h.id }) := by
  unfold rollback
  rw [assertActiveTransaction_of_active hact]

end

/-! ## Validation

`conflictsWith` is the pairing validation checks: a written tuple against the
same written tuple, and, for a serializable transaction, a touched relation
against the same written relation. -/

def conflictsWith (isSerializable : Bool) : Access → Access → Prop
  | .tupleWrite key, b => b = .tupleWrite key
  | .relationWrite r, b => isSerializable = true ∧ b = .relationWrite r
  | .relationRead r, b => isSerializable = true ∧ b = .relationWrite r

theorem lastWrite_le_of_validationConflict_none {ser : Bool}
    (h : m.validationConflict t e ser = none) (ha : holds e a) (hab : conflictsWith ser a b)
    (hts : m.lastWrite b = some ts) : ts ≤ e.startTs := by
  simp only [validationConflict, orElse_eq_orElse, orElse_eq_or, or_eq_none_iff] at h
  obtain ⟨htup, -, hrel⟩ := h
  cases a with
  | tupleWrite key =>
    cases hab
    have := findSome?_eq_none_iff.mp htup key (ExtTreeSet.mem_toList.mpr ha)
    simp only [lastWrite] at hts
    simpa [hts] using this
  | relationWrite r =>
    obtain ⟨rfl, rfl⟩ := hab
    have := findSome?_eq_none_iff.mp hrel r (mem_append_left _ (ExtTreeSet.mem_toList.mpr ha))
    simp only [lastWrite] at hts
    simpa [hts] using this
  | relationRead r =>
    obtain ⟨rfl, rfl⟩ := hab
    have := findSome?_eq_none_iff.mp hrel r (mem_append_right _ (ExtTreeSet.mem_toList.mpr ha))
    simp only [lastWrite] at hts
    simpa [hts] using this

theorem validateCommit_cases (hact : m.activeTxns[h.id]? = some ⟨h.isolation, h.startTs⟩)
    (hiso : h.isolation ≠ .readCommitted) (he : m.trackedTxns[h.id]? = some e) :
    (∃ err, m.validateCommit h = (.error err, m)) ∨
      (m.validationConflict h.id e (h.isolation = .serializable) = none ∧
        m.validateCommit h = (.ok (),
          { m with trackedTxns := m.trackedTxns.insert h.id { e with validated := true } })) := by
  unfold validateCommit
  rw [assertActiveTransaction_of_active hact]
  simp only [if_neg hiso, ne_eq, not_true_eq_false, if_false, he]
  cases hc : m.validationConflict h.id e (h.isolation = .serializable) with
  | some err => exact .inl ⟨err, rfl⟩
  | none => exact .inr ⟨rfl, rfl⟩

theorem validateCommit_readCommitted (hact : m.activeTxns[h.id]? = some ⟨h.isolation, h.startTs⟩)
    (hiso : h.isolation = .readCommitted) : m.validateCommit h = (.ok (), m) := by
  unfold validateCommit
  rw [assertActiveTransaction_of_active hact]
  simp only [if_pos hiso]

/-! ## Finishing -/

def stampWrites (m : TransactionManager) (e : SerializableTxnState) (ts : Nat) :
    TransactionManager :=
  { m with
    lastRelationWriteCommit :=
      OrdMap.insertAll m.lastRelationWriteCommit ts e.writtenRelations.toList
    lastTupleWriteCommit := OrdMap.insertAll m.lastTupleWriteCommit ts e.writtenTuples.toList }

theorem lastWrite_stampWrites (ha : a.isWrite = true) :
    (m.stampWrites e ts).lastWrite a = if holds e a then some ts else m.lastWrite a := by
  cases a with
  | tupleWrite key | relationWrite r =>
    simp only [lastWrite, stampWrites, OrdMap.getElem?_insertAll, ExtTreeSet.mem_toList]
    rfl
  | relationRead r => simp [Access.isWrite] at ha

theorem finishCommit_eq (ht : t ≠ 0) (hact : t ∉ m.activeTxns) :
    m.finishCommit t ts = (.ok (), TransactionManager.pruneCommitCaches
      { m.trackedTxns[t]?.elim m (m.stampWrites · ts) with
        trackedTxns := m.trackedTxns.erase t }) := by
  unfold finishCommit
  rw [if_neg ht, if_neg hact]
  cases he : m.trackedTxns[t]? with
  | none =>
    have : m.trackedTxns.erase t = m.trackedTxns := by
      refine ext_getElem? fun k => ?_
      by_cases hk : t = k
      · subst hk; simp [he]
      · simp [getElem?_erase, hk]
    simp [this]
  | some e => rfl

theorem rollbackTxn_eq (ht : t ≠ 0) :
    m.rollbackTxn t = (.ok (), TransactionManager.pruneCommitCaches
      { m with trackedTxns := m.trackedTxns.erase t }) := by
  simp [rollbackTxn, ht]

end TransactionManager

end AionDb
