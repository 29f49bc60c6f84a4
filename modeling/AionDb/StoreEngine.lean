import AionDb.StoreCommit
import AionDb.StoreWal

/-!
# The storage engine

The state with its log, and the calls of the engine. A call that holds the
state lock from start to end is one function; one that releases the lock while
it waits for the log is one function for each stretch under the lock and one
for the log. Every call answers with a result and the engine after it.

`fatal` is set when publishing a logged change fails: the engine then refuses
everything until it is restarted, and its state is not read again.
-/

namespace AionDb

open Std

variable {V : Type} [Ord V]

structure InMemoryStorage (V : Type) where
  state : StorageState V := {}
  wal : Wal V := {}
  validatedCommitWalFences : ExtTreeMap TxnId Nat := ∅
  fatal : Bool := false

def noKernels : IndexKernels V Empty Empty where
  hnsw := { insertTuple := fun _ _ _ _ x => x.elim, removeTuple := fun _ _ _ _ x => x.elim }
  gin := { insertTuple := fun _ _ _ _ x => x.elim, removeTuple := fun _ _ _ _ x => x.elim }

structure PreparedWrite (V : Type) where
  inCreatedTable : Bool
  context : WriteContext
  oldRow : Option (Row V) := none
  plan : IndexUpdateSet := {}

structure AutocommitInsert (V : Type) where
  tableId : RelationId
  tupleId : TupleId
  row : Row V
  prepared : List (PreparedBaseIndexInsert V)

namespace StorageState

variable (s : StorageState V)

def baseContext (descriptor : TableStorageDescriptor) (tableId : RelationId) (tupleId : TupleId)
    (table : TableData (Row V)) : WriteContext :=
  { descriptor, tableId, tupleId
    baseNextHeapPosition := table.nextHeapPosition
    committedHnswIndexIds := [] }

def createdContext (tableId : RelationId) (tupleId : TupleId) (table : TableData (Row V)) :
    WriteContext :=
  { descriptor := table.descriptor, tableId, tupleId
    baseNextHeapPosition := 1
    committedHnswIndexIds := [] }

def prepareInsert (txn : TxnId) (tableId : RelationId) (row : Row V) : DbResult (PreparedWrite V) :=
  match s.tableView txn tableId with
  | none => throw (.internalMsg "table storage does not exist")
  | some (.created table) => do
    validateRowWidth table.descriptor row
    let tupleId := table.nextTupleId
    let pending ← s.activeTxn txn
    preflightPendingCreatedIndexRewrites pending table.descriptor tableId none (some row)
    s.preflightPendingCreatedUniqueIndexEntries pending txn tableId table.descriptor tupleId row
    pure { inCreatedTable := true, context := createdContext tableId tupleId table }
  | some (.base table descriptor _) => do
    validateRowWidth descriptor row
    let tupleId := s.nextReservedTupleId table tableId
    s.preflightBaseUniqueIndexEntries tableId descriptor tupleId row
    let pending ← s.activeTxn txn
    preflightPendingCreatedIndexRewrites pending descriptor tableId none (some row)
    s.preflightPendingCreatedUniqueIndexEntries pending txn tableId descriptor tupleId row
    pure { inCreatedTable := false, context := baseContext descriptor tableId tupleId table }

/-- A committed table is checked at the commit; here only the indexes the transaction created
itself are. -/
def prepareUpdate [DecidableEq V] (txn : TxnId) (tableId : RelationId) (tupleId : TupleId)
    (row : Row V) : DbResult (PreparedWrite V) :=
  match s.tableView txn tableId with
  | none => throw (.internalMsg "table storage does not exist")
  | some (.created table) => do
    validateRowWidth table.descriptor row
    match table.loadLatestRow tupleId with
    | none => throw (.internalMsg "tuple does not exist")
    | some oldRow =>
      let pending ← s.activeTxn txn
      preflightPendingCreatedIndexRewrites pending table.descriptor tableId (some oldRow) (some row)
      s.preflightPendingCreatedUniqueIndexEntries pending txn tableId table.descriptor tupleId row
      pure { inCreatedTable := true, context := createdContext tableId tupleId table,
             oldRow := some oldRow }
  | some (.base table descriptor overlay) => do
    validateRowWidth descriptor row
    match overlaidRow table overlay tupleId with
    | none => throw (.internalMsg "tuple does not exist")
    | some oldRow =>
      let plan := s.indexedColumnUpdatePlan tableId descriptor oldRow row
      let pending ← s.activeTxn txn
      let created := createdInPlan pending plan pending.createdIndexes
      preflightPendingCreatedIndexRewritesForIds pending descriptor tableId (some oldRow)
        (some row) (created plan.btreeIndexIds)
      s.preflightPendingCreatedUniqueIndexEntriesForIds pending txn tableId descriptor tupleId
        row (created plan.btreeUniqueIndexIds)
      pure { inCreatedTable := false, context := baseContext descriptor tableId tupleId table,
             oldRow := some oldRow, plan }

def prepareDelete (txn : TxnId) (tableId : RelationId) (tupleId : TupleId) :
    DbResult (Option (PreparedWrite V)) :=
  match s.tableView txn tableId with
  | none => throw (.internalMsg "table storage does not exist")
  | some (.created table) =>
    match table.loadLatestRow tupleId with
    | none => pure none
    | some oldRow => do
      let pending ← s.activeTxn txn
      preflightPendingCreatedIndexRewrites pending table.descriptor tableId (some oldRow) none
      pure (some { inCreatedTable := true, context := createdContext tableId tupleId table,
                   oldRow := some oldRow })
  | some (.base table descriptor overlay) =>
    match overlaidRow table overlay tupleId with
    | none => pure none
    | some oldRow => do
      let pending ← s.activeTxn txn
      preflightPendingCreatedIndexRewrites pending descriptor tableId (some oldRow) none
      pure (some { inCreatedTable := false,
                   context := baseContext descriptor tableId tupleId table,
                   oldRow := some oldRow })

end StorageState

def pendingIsReadOnly (p : Pending V) : Bool :=
  p.tableWrites.isEmpty && p.createdTables.isEmpty && p.alteredTables.isEmpty &&
    p.droppedTables.isEmpty && p.createdIndexes.isEmpty && p.createdHnswIndexes.isEmpty &&
    p.createdGinIndexes.isEmpty && p.droppedIndexes.isEmpty && p.pendingAdjacency.isEmpty &&
    p.pendingHnsw.isEmpty

namespace InMemoryStorage

variable (e : InMemoryStorage V)

def log (record : WalRecord V) : InMemoryStorage V := { e with wal := e.wal.log record }

def setPending (txn : TxnId) (pending : Pending V) : InMemoryStorage V :=
  { e with state := { e.state with activeTxns := e.state.activeTxns.insert txn pending } }

def removePending (txn : TxnId) : InMemoryStorage V :=
  { e with state := { e.state with activeTxns := e.state.activeTxns.erase txn } }

def clearFence (txn : TxnId) : InMemoryStorage V :=
  { e with validatedCommitWalFences := e.validatedCommitWalFences.erase txn }

def editPending (txn : TxnId) (m : PendingM V (Row V) Empty Empty Unit) :
    DbResult Unit × InMemoryStorage V :=
  match e.state.activeTxns[txn]? with
  | none => (.error (.internalMsg "transaction is not active in storage"), e)
  | some pending =>
    let (result, pending) := m pending
    (result, e.setPending txn pending)

/-! ## Calls of a transaction -/

def beginTxn (txn : TxnId) : DbResult Unit × InMemoryStorage V :=
  if txn = 0 then (.ok (), e)
  else
    let e := e.clearFence txn
    if txn ∈ e.state.activeTxns then
      (.error (.internalMsg "transaction is already active in storage"), e)
    else (.ok (), (e.log (.beginTxn txn)).setPending txn {})

def insertTxn (txn : TxnId) (tableId : RelationId) (row : Row V) :
    DbResult TupleId × InMemoryStorage V :=
  match e.state.prepareInsert txn tableId row with
  | .error error => (.error error, e)
  | .ok w =>
    let (result, e) := (e.log (.insertRow txn tableId w.context.tupleId row)).editPending txn
      (if w.inCreatedTable then insertCreated noKernels w.context txn row row none
      else insertBase noKernels w.context row none)
    (result.map fun _ => w.context.tupleId, e)

def updateTxn [DecidableEq V] (txn : TxnId) (tableId : RelationId) (tupleId : TupleId)
    (row : Row V) : DbResult TupleId × InMemoryStorage V :=
  match e.state.prepareUpdate txn tableId tupleId row with
  | .error error => (.error error, e)
  | .ok w =>
    let oldRow := w.oldRow.getD []
    let (result, e) := (e.log (.updateRow txn tableId tupleId tupleId row)).editPending txn
      (if w.inCreatedTable then updateCreated noKernels w.context txn oldRow row row none none
      else updateBase noKernels w.context w.plan oldRow row none none)
    (result.map fun _ => tupleId, e)

def deleteTxn (txn : TxnId) (tableId : RelationId) (tupleId : TupleId) :
    DbResult Unit × InMemoryStorage V :=
  match e.state.prepareDelete txn tableId tupleId with
  | .error error => (.error error, e)
  | .ok none => (.ok (), e)
  | .ok (some w) =>
    let oldRow := w.oldRow.getD []
    (e.log (.deleteRow txn tableId tupleId)).editPending txn
      (if w.inCreatedTable then deleteCreated noKernels w.context txn oldRow none
      else deleteBase noKernels w.context oldRow none)

/-- The position of the log is kept: a commit that finds the log unchanged does not check again. -/
def validateCommitTxn (txn : TxnId) : DbResult Unit × InMemoryStorage V :=
  match e.state.activeTxns[txn]? with
  | none => (.error (.internalMsg "cannot validate commit: transaction is not active"), e)
  | some pending =>
    match e.state.preflightPendingTransaction pending false with
    | .error error => (.error error, e)
    | .ok _ => (.ok (), { e with
        validatedCommitWalFences := e.validatedCommitWalFences.insert txn e.wal.nextLsn })

/-- The rows a commit collected under the first lock; none collected when the check was skipped. -/
def commitCheck (fence : Option Nat) (pending : Pending V) : DbResult (OldRows V) :=
  if fence = some e.wal.nextLsn then .ok ∅
  else e.state.preflightPendingTransaction pending true

/-- First phase of `commit_txn`, under the state lock. A transaction without changes is done
here, which is `none`. -/
def commitPrepare (txn : TxnId) : DbResult (Option (OldRows V)) × InMemoryStorage V :=
  let fence := e.validatedCommitWalFences[txn]?
  let e := e.clearFence txn
  match e.state.activeTxns[txn]? with
  | none => (.error (.internalMsg "cannot commit: transaction is not active"), e)
  | some pending =>
    match e.commitCheck fence pending with
    | .error error => (.error error, e)
    | .ok oldRows =>
      if pendingIsReadOnly pending then (.ok none, e.removePending txn)
      else (.ok (some oldRows), e)

def commitLog (txn : TxnId) : InMemoryStorage V := e.log (.commitTxn txn)

def commitApply (txn : TxnId) (oldRows : OldRows V) : DbResult Unit × InMemoryStorage V :=
  match e.state.activeTxns[txn]? with
  | none => (.error (.internalMsg "cannot commit: transaction is not active"), e)
  | some pending =>
    match (e.removePending txn).state.applyPendingTransaction txn pending oldRows with
    | .ok state => (.ok (), { e with state })
    | .error _ => (.error (.internalMsg "commit apply failed after WAL commit record"),
        { e with fatal := true })

def rollbackTxn (txn : TxnId) : InMemoryStorage V :=
  let e := e.clearFence txn
  if txn ∈ e.state.activeTxns then (e.log (.abortTxn txn)).removePending txn else e

/-! ## Autocommit inserts -/

/-- First phase, under the state lock. The tuple id is taken before the keys are checked, so a
failed check leaves a gap. -/
def insertAllocate (tableId : RelationId) (row : Row V) :
    DbResult (AutocommitInsert V) × InMemoryStorage V :=
  match e.state.tables[tableId]? with
  | none => (.error (.internalMsg "table storage does not exist"), e)
  | some table =>
    match validateRowWidth table.descriptor row with
    | .error error => (.error error, e)
    | .ok _ =>
      let (tupleId, table') := table.allocateTupleId
      let e := { e with state := e.state.setTable tableId table' }
      match e.state.prepareBaseIndexInsertsPreflightUnique tableId table.descriptor tupleId row with
      | .error error => (.error error, e)
      | .ok prepared => (.ok { tableId, tupleId, row, prepared }, e)

def insertLog (op : AutocommitInsert V) : InMemoryStorage V :=
  { e with wal := e.wal.logAutocommit fun txn =>
      .autocommitInsertRow txn op.tableId op.tupleId op.row }

def insertApply (op : AutocommitInsert V) : DbResult TupleId × InMemoryStorage V :=
  let state := e.state.appendPreparedBaseIndexEntries op.prepared op.tupleId
  match state.tables[op.tableId]? with
  | none => (.error (.internalMsg "autocommit insert apply failed after WAL commit record"),
      { e with fatal := true })
  | some table =>
    (.ok op.tupleId, { e with
      state := state.setTable op.tableId (table.commitInsert op.tupleId 0 op.row) })

end InMemoryStorage

end AionDb
