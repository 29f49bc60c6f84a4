import AionDb.StoreEngine
import AionDb.StoreTableSpec

/-!
# Multi-row autocommit inserts

`insert_batch_autocommit` with and without a log. With a log all keys are
checked against the committed state, then the rows are logged as one
transaction, then they are published; without one each row is checked and
published in turn.
-/

namespace AionDb

variable {V : Type} [Ord V]

def TableData.allocateTupleIds {R : Type} (t : TableData R) (count : Nat) :
    List TupleId × TableData R :=
  (List.range' t.nextTupleId count, { t with nextTupleId := t.nextTupleId + count })

/-- `log_wal_autocommit` for more than one record: the rows as a transaction of their own, flushed. -/
def Wal.logAutocommitBatch (w : Wal V) (ops : List (AutocommitInsert V)) : Wal V :=
  let txn := w.autoTxnCounter
  let batch := [.beginTxn txn] ++ ops.map (fun op => .insertRow txn op.tableId op.tupleId op.row) ++
    [.commitTxn txn]
  { records := w.records ++ batch
    synced := w.records.length + batch.length
    autoTxnCounter := txn + 1 }

namespace StorageState

def prepareRow (s : StorageState V) (tableId : RelationId) (descriptor : TableStorageDescriptor)
    (placed : TupleId × Row V) : DbResult (AutocommitInsert V) := do
  let prepared ← s.prepareBaseIndexInsertsPreflightUnique tableId descriptor placed.1 placed.2
  return { tableId, tupleId := placed.1, row := placed.2, prepared }

/-- A checked row is published: the heap first, then the indexes without a check. -/
def publishRow (s : StorageState V) (op : AutocommitInsert V) : DbResult (StorageState V) :=
  match s.tables[op.tableId]? with
  | none => .error (.internalMsg "table storage does not exist")
  | some table => .ok ((s.setTable op.tableId
      (table.commitInsert op.tupleId 0 op.row)).appendPreparedBaseIndexEntries op.prepared op.tupleId)

def applyEach {α : Type} (f : StorageState V → α → DbResult (StorageState V)) :
    List α → StorageState V → DbResult Unit × StorageState V
  | [], s => (.ok (), s)
  | a :: rest, s =>
    match f s a with
    | .ok s' => applyEach f rest s'
    | .error e => (.error e, s)

end StorageState

namespace InMemoryStorage

variable (e : InMemoryStorage V)

/-- A publication that fails puts the storage into fatal mode. -/
def publish (ids : List TupleId) (out : DbResult Unit × StorageState V) :
    DbResult (List TupleId) × InMemoryStorage V :=
  match out with
  | (.ok (), state) => (.ok ids, { e with state })
  | (.error _, state) =>
    (.error (.internalMsg "autocommit insert_batch apply failed; storage entered fatal mode"),
      { e with state, fatal := true })

def insertBatchLogged (logs : Bool) (tableId : RelationId) (rows : List (Row V)) :
    DbResult (List TupleId) × InMemoryStorage V :=
  match e.state.tables[tableId]? with
  | none => (.error (.internalMsg "table storage does not exist"), e)
  | some table =>
    match rows.forM (validateRowWidth table.descriptor) with
    | .error error => (.error error, e)
    | .ok _ =>
      let (ids, table') := table.allocateTupleIds rows.length
      let e := { e with state := e.state.setTable tableId table' }
      match (ids.zip rows).mapM (e.state.prepareRow tableId table.descriptor) with
      | .error error => (.error error, e)
      | .ok ops =>
        if logs then
          let e := { e with wal := e.wal.logAutocommitBatch ops }
          e.publish ids (StorageState.applyEach StorageState.publishRow ops e.state)
        else (.error (.internalMsg "WAL write failed"), e)

/-- Widths and ids of the rows without a log; the ids before a row of the wrong width stay taken. -/
def validateAndAllocate (descriptor : TableStorageDescriptor) :
    List (Row V) → TableData (Row V) → DbResult Unit × TableData (Row V)
  | [], table => (.ok (), table)
  | row :: rest, table =>
    match validateRowWidth descriptor row with
    | .error error => (.error error, table)
    | .ok _ => validateAndAllocate descriptor rest table.allocateTupleId.2

def insertBatchUnlogged (tableId : RelationId) (rows : List (Row V)) :
    DbResult (List TupleId) × InMemoryStorage V :=
  match e.state.tables[tableId]? with
  | none => (.error (.internalMsg "table storage does not exist"), e)
  | some table =>
    match validateAndAllocate table.descriptor rows table with
    | (.error error, table') => (.error error, { e with state := e.state.setTable tableId table' })
    | (.ok _, table') =>
      let ids := List.range' table.nextTupleId rows.length
      e.publish ids (StorageState.applyEach
        (fun s placed => do s.publishRow (← s.prepareRow tableId table.descriptor placed))
        (ids.zip rows) (e.state.setTable tableId table'))

def insertBatchAutocommit (logs : Option Bool) (tableId : RelationId) (rows : List (Row V)) :
    DbResult (List TupleId) × InMemoryStorage V :=
  match logs with
  | some logs => e.insertBatchLogged logs tableId rows
  | none => e.insertBatchUnlogged tableId rows

end InMemoryStorage

end AionDb
