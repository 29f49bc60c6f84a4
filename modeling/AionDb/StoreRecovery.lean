import AionDb.StoreCommit
import AionDb.StoreWal

/-!
# Base snapshots and recovery

A base snapshot holds the committed state as log records that build it: every
table with its live rows, then the indexes. Recovery builds the state of the
newest snapshot and then replays the records behind it. A record of a
transaction waits for the commit record of its transaction; an autocommit
record is replayed at once. Whatever is replayed belongs to transaction 0: the
next transaction manager knows none of the old ids.
-/

namespace AionDb

open Std

variable {V : Type} [Ord V]

structure BaseSnapshot (V : Type) where
  checkpointLsn : Nat
  entries : List (WalRecord V)

/-! ## Snapshots -/

def TableData.snapshotEntries (table : TableData (Row V)) : List (WalRecord V) :=
  .createTable 0 table.descriptor ::
    table.liveRows.map fun (tupleId, row) =>
      .insertRow 0 table.descriptor.tableId tupleId row

def StorageState.serializeSnapshot (s : StorageState V) (checkpointLsn : Nat) : BaseSnapshot V :=
  { checkpointLsn
    entries := (s.tables.toList.flatMap (·.2.snapshotEntries)) ++
      s.indexes.toList.map fun p => .createIndex 0 p.2.descriptor }

/-! ## Replay of one record -/

namespace StorageState

variable (s : StorageState V)

def appendBaseIndexEntries (tableId : RelationId) (descriptor : TableStorageDescriptor)
    (tupleId : TupleId) (row : Row V) : DbResult (StorageState V) := do
  let prepared ← s.prepareBaseIndexEntriesForIds tableId descriptor row (s.baseIndexIds tableId)
  pure (s.appendPreparedBaseIndexEntries prepared tupleId)

def replayInsert (txn : TxnId) (tableId : RelationId) (tupleId : TupleId) (row : Row V) :
    DbResult (StorageState V) :=
  match s.tables[tableId]? with
  | none => .ok s
  | some table =>
    (s.setTable tableId ((table.commitInsert tupleId txn row).skipTupleId tupleId))
      |>.appendBaseIndexEntries tableId table.descriptor tupleId row

def replayDelete (txn : TxnId) (tableId : RelationId) (tupleId : TupleId) :
    DbResult (StorageState V) :=
  match s.tables[tableId]? with
  | none => .ok s
  | some table =>
    match table.loadLatestRow tupleId with
    | none => .ok s
    | some oldRow => do
      let table' ← table.commitDeleted tupleId txn
      (s.setTable tableId table').removeBaseIndexEntries tableId table.descriptor tupleId oldRow

def replayUpdate (txn : TxnId) (tableId : RelationId) (tupleId : TupleId) (row : Row V) :
    DbResult (StorageState V) :=
  match s.tables[tableId]? with
  | none => .ok s
  | some table => do
    let table' ← table.commitPresent tupleId txn row
    let s' := s.setTable tableId (table'.skipTupleId tupleId)
    let s' ← match table.loadLatestRow tupleId with
      | none => pure s'
      | some oldRow => s'.removeBaseIndexEntries tableId table.descriptor tupleId oldRow
    s'.appendBaseIndexEntries tableId table.descriptor tupleId row

/-- An index of a table that is not there is left out. -/
def replayCreateIndex (descriptor : IndexStorageDescriptor) : DbResult (StorageState V) :=
  match s.tables[descriptor.tableId]? with
  | none => .ok s
  | some table => do
    let index ← IndexData.fromRows descriptor table.descriptor table.liveRows
    pure { s with indexes := s.indexes.insert descriptor.indexId index }

/-- `replay_record`. What `ALTER TABLE` did to the rows is not repeated. -/
def replayRecord (txn : TxnId) : WalRecord V → DbResult (StorageState V)
  | .createTable _ descriptor =>
    .ok { s with tables := s.tables.insert descriptor.tableId { descriptor } }
  | .dropTable _ tableId =>
    .ok { s with tables := s.tables.erase tableId
                 indexes := (s.removeIndexesForTable tableId).indexes }
  | .createIndex _ descriptor => s.replayCreateIndex descriptor
  | .dropIndex _ indexId => .ok { s with indexes := s.indexes.erase indexId }
  | .alterTable _ descriptor =>
    .ok { s with tables := s.tables.modify descriptor.tableId ({ · with descriptor }) }
  | .insertRow _ tableId tupleId row | .autocommitInsertRow _ tableId tupleId row =>
    s.replayInsert txn tableId tupleId row
  | .deleteRow _ tableId tupleId | .autocommitDeleteRow _ tableId tupleId =>
    s.replayDelete txn tableId tupleId
  | .updateRow _ tableId tupleId _ row | .autocommitUpdateRow _ tableId tupleId _ row =>
    s.replayUpdate txn tableId tupleId row
  | .beginTxn _ | .commitTxn _ | .abortTxn _ | .checkpoint _ => .ok s

def replaySnapshotEntries (entries : List (WalRecord V)) : DbResult (StorageState V) :=
  entries.foldlM (·.replayRecord 0) s

end StorageState

/-! ## The replay loop -/

def WalRecord.txnId : WalRecord V → Option TxnId
  | .beginTxn txn | .commitTxn txn | .abortTxn txn => some txn
  | .insertRow txn _ _ _ | .deleteRow txn _ _ | .updateRow txn _ _ _ _ => some txn
  | .autocommitInsertRow txn _ _ _ | .autocommitDeleteRow txn _ _ => some txn
  | .autocommitUpdateRow txn _ _ _ _ => some txn
  | .createTable txn _ | .dropTable txn _ | .createIndex txn _ | .dropIndex txn _ => some txn
  | .alterTable txn _ => some txn
  | .checkpoint _ => none

structure Replay (V : Type) where
  state : StorageState V := {}
  openTxns : ExtTreeMap TxnId (List (Nat × WalRecord V)) := ∅

def replayTransaction (s : StorageState V) (records : List (Nat × WalRecord V)) :
    DbResult (StorageState V) :=
  (records.insertionSort (·.1 ≤ ·.1)).foldlM (fun s entry => s.replayRecord 0 entry.2) s

def Replay.entry (r : Replay V) (entry : Nat × WalRecord V) : DbResult (Replay V) :=
  match entry.2 with
  | .autocommitInsertRow _ _ _ _ | .autocommitDeleteRow _ _ _ | .autocommitUpdateRow _ _ _ _ _ => do
    let state ← r.state.replayRecord 0 entry.2
    pure { r with state }
  | .beginTxn txn => .ok { r with openTxns := r.openTxns.insert txn [] }
  | .commitTxn txn =>
    match r.openTxns[txn]? with
    | none => .ok r
    | some records => do
      let state ← replayTransaction r.state records
      pure { state, openTxns := r.openTxns.erase txn }
  | .abortTxn txn => .ok { r with openTxns := r.openTxns.erase txn }
  | record =>
    match record.txnId with
    | none => .ok r
    | some txn => .ok { r with
        openTxns := r.openTxns.insert txn (r.openTxns[txn]?.getD [] ++ [entry]) }

/-- The entries from `start` on; the first of them has to be the one at `start`. -/
def readFrom (start : Nat) (entries : List (Nat × WalRecord V)) :
    DbResult (List (Nat × WalRecord V)) :=
  let entries := entries.filter (start ≤ ·.1)
  match entries.head? with
  | none => .ok []
  | some (lsn, _) =>
    if start < lsn then
      .error (.internalMsg s!"WAL replay gap detected after snapshot: expected first replay LSN {start}, found {lsn}")
    else .ok entries

/-- `open_with_recovery`: what is rebuilt from a snapshot and the entries of the log. -/
def recover (snapshot : Option (BaseSnapshot V)) (entries : List (Nat × WalRecord V)) :
    DbResult (Replay V) := do
  let state ← StorageState.replaySnapshotEntries {} (snapshot.elim [] (·.entries))
  let entries ← readFrom (snapshot.elim 1 (·.checkpointLsn)) entries
  (entries.filter fun e => !snapshot.any (e.1 ≤ ·.checkpointLsn)).foldlM Replay.entry { state }

end AionDb
