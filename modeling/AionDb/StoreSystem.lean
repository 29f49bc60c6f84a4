import AionDb.LibRun
import AionDb.StoreWrites

/-!
# Concurrent calls of the storage engine

The sessions of an engine take turns under the state lock. A call that
releases the lock is in flight between its phases, and any other call may come
in between: a run of `step` is one interleaving. A transaction belongs to one
session, so nothing else is called for it while its commit is in flight.

`reported` lists the inserts that have answered with a tuple id, `published`
the rows that reached the committed tables, and a mark is the length of
`published` at the moment a check was made.
-/

namespace AionDb

open Std

variable {V : Type}

structure PlacedRow (V : Type) where
  tableId : RelationId
  tupleId : TupleId
  row : Row V
deriving DecidableEq

def PlacedRow.key (r : PlacedRow V) : TupleKey := (r.tableId, r.tupleId)

structure InsertInFlight (V : Type) where
  op : AutocommitInsert V
  logged : Bool := false
  mark : Nat

structure CommitInFlight (V : Type) where
  oldRows : OldRows V
  logged : Bool := false
  mark : Nat

structure StoreSystem (V : Type) where
  engine : InMemoryStorage V
  inserts : ExtTreeMap Nat (InsertInFlight V) := ∅
  commits : ExtTreeMap TxnId (CommitInFlight V) := ∅
  validated : ExtTreeMap TxnId Nat := ∅
  published : List (PlacedRow V) := []
  reported : List (PlacedRow V) := []

inductive StoreAction (V : Type) where
  | begin (txn : TxnId)
  | insert (txn : TxnId) (tableId : RelationId) (row : Row V)
  | update (txn : TxnId) (tableId : RelationId) (tupleId : TupleId) (row : Row V)
  | delete (txn : TxnId) (tableId : RelationId) (tupleId : TupleId)
  | rollback (txn : TxnId)
  | validate (txn : TxnId)
  | commitPrepare (txn : TxnId)
  | commitLog (txn : TxnId)
  | commitApply (txn : TxnId)
  | insertAllocate (op : Nat) (tableId : RelationId) (row : Row V)
  | insertLog (op : Nat)
  | insertApply (op : Nat)

def PendingTransaction.placedRows (p : Pending V) : List (PlacedRow V) :=
  p.tableWrites.toList.flatMap fun (tableId, writes) =>
    writes.rows.toList.filterMap fun (tupleId, rowState) =>
      rowState.row?.map fun row => { tableId, tupleId, row }

namespace StoreSystem

variable [Ord V] [DecidableEq V] (s : StoreSystem V)

/-- The mark of a commit: when its check is skipped, the one of the validation. -/
def commitMark (txn : TxnId) : Nat :=
  if s.engine.validatedCommitWalFences[txn]? = some s.engine.wal.nextLsn then
    s.validated[txn]?.getD s.published.length
  else s.published.length

def call (txn : TxnId) (next : StoreSystem V) : Option (StoreSystem V) :=
  if txn ∈ s.commits then none else some next

def available : StoreAction V → Option (StoreSystem V)
  | .begin txn => s.call txn { s with engine := (s.engine.beginTxn txn).2 }
  | .insert txn tableId row =>
    let (result, engine) := s.engine.insertTxn txn tableId row
    s.call txn { s with
      engine
      reported := s.reported ++ result.toOption.toList.map ({ tableId, tupleId := ·, row }) }
  | .update txn tableId tupleId row =>
    s.call txn { s with engine := (s.engine.updateTxn txn tableId tupleId row).2 }
  | .delete txn tableId tupleId =>
    s.call txn { s with engine := (s.engine.deleteTxn txn tableId tupleId).2 }
  | .rollback txn => s.call txn { s with engine := s.engine.rollbackTxn txn }
  | .validate txn =>
    match s.engine.validateCommitTxn txn with
    | (.ok _, engine) => s.call txn { s with
        engine, validated := s.validated.insert txn s.published.length }
    | (.error _, engine) => s.call txn { s with engine }
  | .commitPrepare txn =>
    match s.engine.commitPrepare txn with
    | (.ok (some oldRows), engine) => s.call txn { s with
        engine, commits := s.commits.insert txn { oldRows, mark := s.commitMark txn } }
    | (_, engine) => s.call txn { s with engine }
  | .commitLog txn => do
    let commit ← s.commits[txn]?
    if commit.logged then none
    else some { s with
      engine := s.engine.commitLog txn
      commits := s.commits.insert txn { commit with logged := true } }
  | .commitApply txn => do
    let commit ← s.commits[txn]?
    let pending ← s.engine.state.activeTxns[txn]?
    if commit.logged then
      match s.engine.commitApply txn commit.oldRows with
      | (.ok _, engine) => some { s with
          engine, commits := s.commits.erase txn
          published := s.published ++ pending.placedRows }
      | (.error _, engine) => some { s with engine }
    else none
  | .insertAllocate op tableId row =>
    if op ∈ s.inserts then none
    else match s.engine.insertAllocate tableId row with
    | (.ok insert, engine) => some { s with
        engine, inserts := s.inserts.insert op { op := insert, mark := s.published.length } }
    | (.error _, engine) => some { s with engine }
  | .insertLog op => do
    let insert ← s.inserts[op]?
    if insert.logged then none
    else some { s with
      engine := s.engine.insertLog insert.op
      inserts := s.inserts.insert op { insert with logged := true } }
  | .insertApply op => do
    let insert ← s.inserts[op]?
    if insert.logged then
      match s.engine.insertApply insert.op with
      | (.ok tupleId, engine) =>
        let placed := { tableId := insert.op.tableId, tupleId, row := insert.op.row }
        some { s with
          engine, inserts := s.inserts.erase op
          published := s.published ++ [placed]
          reported := s.reported ++ [placed] }
      | (.error _, engine) => some { s with engine }
    else none

def step (a : StoreAction V) : Option (StoreSystem V) :=
  if s.engine.fatal then none else s.available a

/-! ## What a step does -/

def Data (s : StoreSystem V) : Prop :=
  ∀ (txn : TxnId) (p : Pending V), s.engine.state.activeTxns[txn]? = some p → DataOnly p

/-- The outcomes of a step. A call that fails leaves the committed state and the pending
transactions, except that a failed autocommit insert may have taken a tuple id. -/
inductive StepEffect (s : StoreSystem V) : StoreAction V → StoreSystem V → Prop where
  | unchanged {a : StoreAction V} {engine : InMemoryStorage V}
      (hstate : engine.state = s.engine.state) (hwal : engine.wal = s.engine.wal) :
      StepEffect s a { s with engine }
  | begin {txn : TxnId} {engine : InMemoryStorage V} (hnew : txn ∉ s.engine.state.activeTxns)
      (hstate : engine.state = (s.engine.setPending txn {}).state) :
      StepEffect s (.begin txn) { s with engine }
  | insert {txn : TxnId} {tableId : RelationId} {id : TupleId} {row : Row V} {p q : Pending V}
      {table : TableData (Row V)} (hfree : txn ∉ s.commits)
      (hp : s.engine.state.activeTxns[txn]? = some p)
      (htable : s.engine.state.tables[tableId]? = some table)
      (hid : id = s.engine.state.nextReservedTupleId table tableId)
      (hq : SetsWrites p tableId
        ((p.writesOf tableId).recordPresent id row table.nextHeapPosition) q) :
      StepEffect s (.insert txn tableId row) { s with
        engine := (s.engine.log (.insertRow txn tableId id row)).setPending txn q
        reported := s.reported ++ [{ tableId, tupleId := id, row }] }
  | update {txn : TxnId} {tableId : RelationId} {id : TupleId} {row oldRow : Row V}
      {p q : Pending V} {table : TableData (Row V)} (hfree : txn ∉ s.commits)
      (hp : s.engine.state.activeTxns[txn]? = some p)
      (htable : s.engine.state.tables[tableId]? = some table)
      (hold : overlaidRow table p.tableWrites[tableId]? id = some oldRow)
      (hq : SetsWrites p tableId
        (((p.writesOf tableId).recordPresent id row table.nextHeapPosition).setIndexUpdateSet id
          (s.engine.state.indexedColumnUpdatePlan tableId table.descriptor oldRow row)) q) :
      StepEffect s (.update txn tableId id row) { s with
        engine := (s.engine.log (.updateRow txn tableId id id row)).setPending txn q }
  | delete {txn : TxnId} {tableId : RelationId} {id : TupleId} {oldRow : Row V}
      {p q : Pending V} {table : TableData (Row V)} (hfree : txn ∉ s.commits)
      (hp : s.engine.state.activeTxns[txn]? = some p)
      (htable : s.engine.state.tables[tableId]? = some table)
      (hold : overlaidRow table p.tableWrites[tableId]? id = some oldRow)
      (hq : SetsWrites p tableId ((p.writesOf tableId).recordDeleted id) q) :
      StepEffect s (.delete txn tableId id) { s with
        engine := (s.engine.log (.deleteRow txn tableId id)).setPending txn q }
  | rollback {txn : TxnId} {engine : InMemoryStorage V} (hfree : txn ∉ s.commits)
      (hstate : engine.state = (s.engine.removePending txn).state) :
      StepEffect s (.rollback txn) { s with engine }
  | validate {txn : TxnId} {p : Pending V} {oldRows : OldRows V} (hfree : txn ∉ s.commits)
      (hp : s.engine.state.activeTxns[txn]? = some p)
      (hcheck : s.engine.state.preflightPendingTransaction p false = .ok oldRows) :
      StepEffect s (.validate txn) { s with
        engine := { s.engine with
          validatedCommitWalFences :=
            s.engine.validatedCommitWalFences.insert txn s.engine.wal.nextLsn }
        validated := s.validated.insert txn s.published.length }
  | readOnly {txn : TxnId} {p : Pending V} {engine : InMemoryStorage V} (hfree : txn ∉ s.commits)
      (hp : s.engine.state.activeTxns[txn]? = some p) (hread : pendingIsReadOnly p = true)
      (hstate : engine.state = (s.engine.removePending txn).state) :
      StepEffect s (.commitPrepare txn) { s with engine }
  | prepared {txn : TxnId} {p : Pending V} {oldRows : OldRows V} (hfree : txn ∉ s.commits)
      (hp : s.engine.state.activeTxns[txn]? = some p)
      (hcheck : s.engine.commitCheck s.engine.validatedCommitWalFences[txn]? p = .ok oldRows) :
      StepEffect s (.commitPrepare txn) { s with
        engine := s.engine.clearFence txn
        commits := s.commits.insert txn { oldRows, mark := s.commitMark txn } }
  | commitLog {txn : TxnId} {commit : CommitInFlight V} (hcommit : s.commits[txn]? = some commit)
      (hlogged : commit.logged = false) :
      StepEffect s (.commitLog txn) { s with
        engine := s.engine.commitLog txn
        commits := s.commits.insert txn { commit with logged := true } }
  | commitApply {txn : TxnId} {commit : CommitInFlight V} {p : Pending V} {state : StorageState V}
      (hcommit : s.commits[txn]? = some commit) (hlogged : commit.logged = true)
      (hp : s.engine.state.activeTxns[txn]? = some p)
      (happly : (s.engine.removePending txn).state.applyPendingTransaction txn p commit.oldRows =
        .ok state) :
      StepEffect s (.commitApply txn) { s with
        engine := { s.engine with state }
        commits := s.commits.erase txn
        published := s.published ++ p.placedRows }
  | taken {op : Nat} {tableId : RelationId} {row : Row V} {table : TableData (Row V)}
      (htable : s.engine.state.tables[tableId]? = some table) :
      StepEffect s (.insertAllocate op tableId row) { s with
        engine := { s.engine with
          state := s.engine.state.setTable tableId table.allocateTupleId.2 } }
  | allocate {op : Nat} {tableId : RelationId} {row : Row V} {table : TableData (Row V)}
      {state : StorageState V} {prepared : List (PreparedBaseIndexInsert V)}
      (hfree : op ∉ s.inserts) (htable : s.engine.state.tables[tableId]? = some table)
      (hwidth : validateRowWidth table.descriptor row = .ok ())
      (hstate : state = s.engine.state.setTable tableId table.allocateTupleId.2)
      (hcheck : state.prepareBaseIndexInsertsPreflightUnique tableId table.descriptor
        table.nextTupleId row = .ok prepared) :
      StepEffect s (.insertAllocate op tableId row) { s with
        engine := { s.engine with state }
        inserts := s.inserts.insert op
          { op := { tableId, tupleId := table.nextTupleId, row, prepared }
            mark := s.published.length } }
  | insertLog {op : Nat} {insert : InsertInFlight V} (hinsert : s.inserts[op]? = some insert)
      (hlogged : insert.logged = false) :
      StepEffect s (.insertLog op) { s with
        engine := s.engine.insertLog insert.op
        inserts := s.inserts.insert op { insert with logged := true } }
  | insertApply {op : Nat} {insert : InsertInFlight V} {table : TableData (Row V)}
      {placed : PlacedRow V} {state : StorageState V} (hinsert : s.inserts[op]? = some insert)
      (hlogged : insert.logged = true)
      (htable : s.engine.state.tables[insert.op.tableId]? = some table)
      (hplaced : placed =
        { tableId := insert.op.tableId, tupleId := insert.op.tupleId, row := insert.op.row })
      (hstate : state = (s.engine.state.appendPreparedBaseIndexEntries insert.op.prepared
        insert.op.tupleId).setTable insert.op.tableId
          (table.commitInsert insert.op.tupleId 0 insert.op.row)) :
      StepEffect s (.insertApply op) { s with
        engine := { s.engine with state }
        inserts := s.inserts.erase op
        published := s.published ++ [placed]
        reported := s.reported ++ [placed] }

variable {s} {s' : StoreSystem V} {a : StoreAction V} {txn : TxnId}

omit [Ord V] [DecidableEq V] in
theorem call_eq_some {next : StoreSystem V} :
    s.call txn next = some s' ↔ txn ∉ s.commits ∧ next = s' := by
  unfold call
  split <;> simp_all

theorem beginTxn_effect :
    StepEffect s (.begin txn) { s with engine := (s.engine.beginTxn txn).2 } := by
  unfold InMemoryStorage.beginTxn
  split
  · exact .unchanged rfl rfl
  · dsimp only
    split
    · exact .unchanged rfl rfl
    case isFalse hnew => exact .begin hnew rfl

theorem rollbackTxn_effect (hfree : txn ∉ s.commits) :
    StepEffect s (.rollback txn) { s with engine := s.engine.rollbackTxn txn } := by
  unfold InMemoryStorage.rollbackTxn
  dsimp only
  split
  · exact .rollback hfree rfl
  · exact .unchanged rfl rfl

theorem step_effect (hdata : s.Data) (h : s.step a = some s') : StepEffect s a s' := by
  unfold step at h
  split at h
  · cases h
  cases a with
  | begin txn =>
    obtain ⟨-, rfl⟩ := call_eq_some.mp h
    exact beginTxn_effect
  | insert txn tableId row =>
    rcases s.engine.insertTxn_spec (hdata txn) tableId row with
      ⟨error, hcall⟩ | ⟨p, table, id, q, hp, htable, hid, hcall, hq⟩
    · simp only [available, hcall] at h
      obtain ⟨-, rfl⟩ := call_eq_some.mp h
      simpa [Except.toOption] using StepEffect.unchanged (s := s) rfl rfl
    · simp only [available, hcall] at h
      obtain ⟨hfree, rfl⟩ := call_eq_some.mp h
      exact .insert hfree hp htable hid hq
  | update txn tableId id row =>
    obtain ⟨hfree, rfl⟩ := call_eq_some.mp h
    rcases s.engine.updateTxn_spec (hdata txn) tableId id row with
      ⟨error, hcall⟩ | ⟨p, table, oldRow, q, hp, htable, hold, hcall, hq⟩
    · rw [hcall]
      exact .unchanged rfl rfl
    · rw [hcall]
      exact .update hfree hp htable hold hq
  | delete txn tableId id =>
    obtain ⟨hfree, rfl⟩ := call_eq_some.mp h
    rcases s.engine.deleteTxn_spec (hdata txn) tableId id with
      ⟨result, hcall⟩ | ⟨p, table, oldRow, q, hp, htable, hold, hcall, hq⟩
    · rw [hcall]
      exact .unchanged rfl rfl
    · rw [hcall]
      exact .delete hfree hp htable hold hq
  | rollback txn =>
    obtain ⟨hfree, rfl⟩ := call_eq_some.mp h
    exact rollbackTxn_effect hfree
  | validate txn =>
    simp only [available, InMemoryStorage.validateCommitTxn] at h
    cases hp : s.engine.state.activeTxns[txn]? with (simp only [hp] at h)
    | none =>
      obtain ⟨-, rfl⟩ := call_eq_some.mp h
      exact .unchanged rfl rfl
    | some p =>
      cases hcheck : s.engine.state.preflightPendingTransaction p false with
      | error error =>
        simp only [hcheck] at h
        obtain ⟨-, rfl⟩ := call_eq_some.mp h
        exact .unchanged rfl rfl
      | ok oldRows =>
        simp only [hcheck] at h
        obtain ⟨hfree, rfl⟩ := call_eq_some.mp h
        exact .validate hfree hp hcheck
  | commitPrepare txn =>
    have hclear : ∀ e : InMemoryStorage V, (e.clearFence txn).state = e.state := fun _ => rfl
    simp only [available, InMemoryStorage.commitPrepare, hclear] at h
    cases hp : s.engine.state.activeTxns[txn]? with (simp only [hp] at h)
    | none =>
      obtain ⟨-, rfl⟩ := call_eq_some.mp h
      exact .unchanged rfl rfl
    | some p =>
      have hcheck : (s.engine.clearFence txn).commitCheck
          s.engine.validatedCommitWalFences[txn]? p =
          s.engine.commitCheck s.engine.validatedCommitWalFences[txn]? p := rfl
      rw [hcheck] at h
      cases hrows : s.engine.commitCheck s.engine.validatedCommitWalFences[txn]? p with
      | error error =>
        simp only [hrows] at h
        obtain ⟨-, rfl⟩ := call_eq_some.mp h
        exact .unchanged rfl rfl
      | ok oldRows =>
        by_cases hread : pendingIsReadOnly p = true
        · simp only [hrows, hread, if_true] at h
          obtain ⟨hfree, rfl⟩ := call_eq_some.mp h
          exact .readOnly hfree hp hread rfl
        · simp only [hrows, hread, Bool.false_eq_true, if_false] at h
          obtain ⟨hfree, rfl⟩ := call_eq_some.mp h
          exact .prepared hfree hp hrows
  | commitLog txn =>
    obtain ⟨commit, hcommit, h⟩ := Option.bind_eq_some_iff.mp h
    split at h
    · cases h
    case isFalse hlogged =>
      cases h
      exact .commitLog hcommit (by simpa using hlogged)
  | commitApply txn =>
    obtain ⟨commit, hcommit, h⟩ := Option.bind_eq_some_iff.mp h
    obtain ⟨p, hp, h⟩ := Option.bind_eq_some_iff.mp h
    split at h
    case isFalse => cases h
    rename_i hlogged
    simp only [InMemoryStorage.commitApply, hp] at h
    cases happly : (s.engine.removePending txn).state.applyPendingTransaction txn p
      commit.oldRows with
    | error error =>
      simp only [happly] at h
      cases h
      exact .unchanged rfl rfl
    | ok state =>
      simp only [happly] at h
      cases h
      exact .commitApply hcommit hlogged hp happly
  | insertAllocate op tableId row =>
    simp only [available, InMemoryStorage.insertAllocate] at h
    split at h
    · cases h
    rename_i hfree
    cases htable : s.engine.state.tables[tableId]? with (simp only [htable] at h)
    | none =>
      cases h
      exact .unchanged rfl rfl
    | some table =>
      cases hwidth : validateRowWidth table.descriptor row with (simp only [hwidth] at h)
      | error error =>
        cases h
        exact .unchanged rfl rfl
      | ok _ =>
        cases hcheck : (s.engine.state.setTable tableId
          table.allocateTupleId.2).prepareBaseIndexInsertsPreflightUnique tableId
            table.descriptor table.allocateTupleId.1 row with
        | error error =>
          simp only [hcheck] at h
          cases h
          exact .taken htable
        | ok prepared =>
          simp only [hcheck] at h
          cases h
          exact .allocate hfree htable hwidth rfl hcheck
  | insertLog op =>
    obtain ⟨insert, hinsert, h⟩ := Option.bind_eq_some_iff.mp h
    split at h
    · cases h
    case isFalse hlogged =>
      cases h
      exact .insertLog hinsert (by simpa using hlogged)
  | insertApply op =>
    obtain ⟨insert, hinsert, h⟩ := Option.bind_eq_some_iff.mp h
    split at h
    case isFalse => cases h
    rename_i hlogged
    have htables : (s.engine.state.appendPreparedBaseIndexEntries insert.op.prepared
      insert.op.tupleId).tables = s.engine.state.tables := rfl
    simp only [InMemoryStorage.insertApply, htables] at h
    cases htable : s.engine.state.tables[insert.op.tableId]? with (simp only [htable] at h)
    | none =>
      cases h
      exact .unchanged rfl rfl
    | some table =>
      cases h
      exact .insertApply hinsert hlogged htable rfl rfl

section

omit [Ord V] [DecidableEq V]

theorem activeTxns_setPending (e : InMemoryStorage V) (txn : TxnId) (p : Pending V) (txn' : TxnId) :
    (e.setPending txn p).state.activeTxns[txn']? =
      if txn' = txn then some p else e.state.activeTxns[txn']? := by
  simp [InMemoryStorage.setPending, ExtTreeMap.getElem?_insert, @eq_comm _ txn]

theorem activeTxns_removePending (e : InMemoryStorage V) (txn txn' : TxnId) :
    (e.removePending txn).state.activeTxns[txn']? =
      if txn' = txn then none else e.state.activeTxns[txn']? := by
  simp [InMemoryStorage.removePending, ExtTreeMap.getElem?_erase, @eq_comm _ txn]

theorem Data.setPending (hdata : s.Data) {p : Pending V} (hp : DataOnly p)
    (hstate : s'.engine.state.activeTxns = (s.engine.setPending txn p).state.activeTxns) :
    s'.Data := by
  intro txn' p' hp'
  rw [hstate, activeTxns_setPending] at hp'
  split at hp'
  · cases hp'
    exact hp
  · exact hdata txn' p' hp'

theorem Data.removePending (hdata : s.Data)
    (hstate : s'.engine.state.activeTxns = (s.engine.removePending txn).state.activeTxns) :
    s'.Data := by
  intro txn' p' hp'
  rw [hstate, activeTxns_removePending] at hp'
  split at hp'
  · cases hp'
  · exact hdata txn' p' hp'

end

theorem Data.step (hdata : s.Data) (h : s.step a = some s') : s'.Data := by
  cases step_effect hdata h with
  | unchanged hstate hwal => intro txn p hp; exact hdata txn p (hstate ▸ hp)
  | begin hnew hstate =>
    exact hdata.setPending ⟨rfl, rfl, rfl, rfl, rfl⟩ (congrArg StorageState.activeTxns hstate)
  | insert hfree hp htable hid hq | update hfree hp htable hold hq =>
    exact hdata.setPending hq.dataOnly rfl
  | delete hfree hp htable hold hq => exact hdata.setPending hq.dataOnly rfl
  | rollback hfree hstate => exact hdata.removePending (congrArg StorageState.activeTxns hstate)
  | validate hfree hp hcheck => exact hdata
  | readOnly hfree hp hread hstate =>
    exact hdata.removePending (congrArg StorageState.activeTxns hstate)
  | prepared hfree hp hcheck => exact hdata
  | commitLog hcommit hlogged => exact hdata
  | commitApply hcommit hlogged hp happly =>
    exact hdata.removePending
      (StorageState.applyPendingTransaction_spec (hdata _ _ hp) happly).activeTxns
  | taken htable => exact hdata
  | allocate hfree htable hwidth hstate hcheck => subst hstate; exact hdata
  | insertLog hinsert hlogged => exact hdata
  | insertApply hinsert hlogged htable hplaced hstate => subst hstate; exact hdata

end StoreSystem

end AionDb
