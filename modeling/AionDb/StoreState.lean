import AionDb.StorePendingOps

/-!
# The state of the storage engine

The committed tables and indexes with the pending transactions over them.
Everything that runs under the state lock without changing it is here: which
table a transaction sees, which tuple id it reserves, and the checks a write
has to pass before it is logged.

Tables without vector, text and adjacency indexes: the contents of those two
kinds of index are `Empty`, so none exists. A row is stored as it is.
-/

namespace AionDb

open Std

abbrev Pending (V : Type) := PendingTransaction V (Row V) Empty Empty

structure StorageState (V : Type) where
  tables : ExtTreeMap RelationId (TableData (Row V)) := ∅
  indexes : ExtTreeMap IndexId (IndexData V) := ∅
  activeTxns : ExtTreeMap TxnId (Pending V) := ∅

inductive TableView (V : Type) where
  | created (table : TableData (Row V))
  | base (table : TableData (Row V)) (descriptor : TableStorageDescriptor)
      (overlay : Option (TableWriteSet V))

structure PreparedBaseIndexInsert (V : Type) where
  indexId : IndexId
  key : IndexKey V
  coveringRow : Row V

variable {V : Type} [Ord V]

def validateRowWidth (descriptor : TableStorageDescriptor) (row : Row V) : DbResult Unit :=
  if row.length = descriptor.columns.length then .ok ()
  else .error (.internalMsg
    s!"row width {row.length} does not match table width {descriptor.columns.length}")

/-- What a transaction has pending for a tuple, or else the committed row. -/
def overlaidRow (table : TableData (Row V)) (overlay : Option (TableWriteSet V)) (id : TupleId) :
    Option (Row V) :=
  match overlay.bind (·.rows[id]?) with
  | some (.present row) => some row
  | some .deleted => none
  | none => table.loadLatestRow id

def selectIndexes (indexes : ExtTreeMap IndexId (IndexData V)) (tableId : RelationId)
    (indexIds : List IndexId) : List (IndexId × IndexData V) :=
  indexIds.filterMap fun indexId =>
    (indexes[indexId]?.filter (btreeTableId · = tableId)).map (indexId, ·)

namespace StorageState

variable (s : StorageState V)

def activeTxn (txn : TxnId) : DbResult (Pending V) :=
  match s.activeTxns[txn]? with
  | some pending => .ok pending
  | none => .error (.internalMsg "transaction is not active in storage")

def tableView (txn : TxnId) (tableId : RelationId) : Option (TableView V) :=
  let pending := s.activeTxns[txn]?
  if pending.any (·.droppedTables.contains tableId) then none
  else match pending.bind (·.createdTables[tableId]?) with
  | some table => some (.created table)
  | none =>
    s.tables[tableId]?.map fun table =>
      .base table ((pending.bind (·.alteredTables[tableId]?)).getD table.descriptor)
        (pending.bind (·.tableWrites[tableId]?))

def reservedTupleIds (tableId : RelationId) : List TupleId :=
  (s.activeTxns.toList.filterMap (·.2.tableWrites[tableId]?)).flatMap (·.rows.keys)

def nextReservedTupleId (table : TableData (Row V)) (tableId : RelationId) : TupleId :=
  (s.reservedTupleIds tableId).foldl (fun next id => max next (satAdd id 1)) table.nextTupleId

def currentRowForWrite (txn : TxnId) (tableId : RelationId) (id : TupleId) :
    DbResult (Option (Row V)) :=
  match s.tableView txn tableId with
  | none => .error (.internalMsg "table storage does not exist")
  | some (.created table) => .ok (table.loadLatestRow id)
  | some (.base table _ overlay) => .ok (overlaidRow table overlay id)

def baseIndexIds (tableId : RelationId) : List IndexId :=
  idsForTable btreeTableId s.indexes tableId

/-! ## Uniqueness -/

def rowHasKey (index : IndexData V) (ordinals : List Nat) (key : IndexKey V) (row : Row V) :
    DbResult Bool := do
  let rowKey ← buildIndexKeyWithOrdinals index.descriptor row ordinals
  pure (IndexKey.cmp index.descriptor.keyColumns rowKey key == .eq)

def candidateHasKey (index : IndexData V) (ordinals : List Nat) (key : IndexKey V)
    (self : TupleId) (rowOf : TupleId → Option (Row V)) (candidate : TupleId) : DbResult Bool :=
  if candidate = self then pure false
  else match rowOf candidate with
  | none => pure false
  | some row => rowHasKey index ordinals key row

def latestUniqueConflictInTableView (txn : TxnId) (index : IndexData V)
    (descriptor : TableStorageDescriptor) (self : TupleId) (key : IndexKey V) : DbResult Bool :=
  match s.tableView txn index.descriptor.tableId with
  | none => pure false
  | some view => do
    let ordinals ← resolveIndexKeyOrdinals descriptor index.descriptor
    match view with
    | .created table =>
      table.heap.keys.anyM (candidateHasKey index ordinals key self table.loadLatestRow)
    | .base table _ overlay => do
      -- the committed entries of the key, then the pending rows
      let found ← (index.candidateTupleIdsForKey key).anyM
        (candidateHasKey index ordinals key self (overlaidRow table overlay))
      if found then pure true
      else
        let pendingRow id := match overlay.bind (·.rows[id]?) with
          | some (.present row) => some row
          | _ => none
        ((overlay.map (·.rows.keys)).getD []).anyM
          (candidateHasKey index ordinals key self pendingRow)

def checkUniqueKey (txn : TxnId) (index : IndexData V) (descriptor : TableStorageDescriptor)
    (self : TupleId) (key : IndexKey V) : DbResult Unit := do
  if key.hasNull && !index.descriptor.nullsNotDistinct then pure ()
  else
    let conflict ← s.latestUniqueConflictInTableView txn index descriptor self key
    if conflict then throw (uniqueViolationError index.descriptor.indexId) else pure ()

/-- A key behind the last one of the index needs no look at the table. -/
def checkBaseUniqueKey (index : IndexData V) (descriptor : TableStorageDescriptor)
    (self : TupleId) (key : IndexKey V) : DbResult Unit :=
  if index.keyIsStrictlyAfterLast key then pure ()
  else s.checkUniqueKey 0 index descriptor self key

def preflightBaseUniqueIndexEntriesForIds (tableId : RelationId)
    (descriptor : TableStorageDescriptor) (self : TupleId) (row : Row V)
    (indexIds : List IndexId) : DbResult Unit :=
  if tableId ∉ s.tables then pure ()
  else (selectIndexes s.indexes tableId indexIds).forM fun (_, index) =>
    if index.descriptor.unique = false then pure ()
    else do
      let key ← buildIndexKeyForDescriptor index.descriptor descriptor row
      s.checkBaseUniqueKey index descriptor self key

def preflightBaseUniqueIndexEntries (tableId : RelationId) (descriptor : TableStorageDescriptor)
    (self : TupleId) (row : Row V) : DbResult Unit :=
  s.preflightBaseUniqueIndexEntriesForIds tableId descriptor self row (s.baseIndexIds tableId)

/-- The entries of a new row in all indexes of its table, once its keys have passed the check. -/
def prepareBaseIndexInsertsPreflightUnique (tableId : RelationId)
    (descriptor : TableStorageDescriptor) (tupleId : TupleId) (row : Row V) :
    DbResult (List (PreparedBaseIndexInsert V)) :=
  if tableId ∉ s.tables then pure []
  else (selectIndexes s.indexes tableId (s.baseIndexIds tableId)).mapM fun (indexId, index) => do
    let key ← buildIndexKeyForDescriptor index.descriptor descriptor row
    if index.descriptor.unique then s.checkBaseUniqueKey index descriptor tupleId key
    let coveringRow ← index.buildCoveringRow descriptor row
    pure { indexId, key, coveringRow }

def prepareBaseIndexEntriesForIds (tableId : RelationId) (descriptor : TableStorageDescriptor)
    (row : Row V) (indexIds : List IndexId) : DbResult (List (PreparedBaseIndexInsert V)) :=
  (selectIndexes s.indexes tableId indexIds).mapM fun (indexId, index) => do
    let key ← buildIndexKeyForDescriptor index.descriptor descriptor row
    let coveringRow ← index.buildCoveringRow descriptor row
    pure { indexId, key, coveringRow }

def preflightBaseIndexKeys (tableId : RelationId) (descriptor : TableStorageDescriptor)
    (row : Row V) (indexIds : List IndexId) : DbResult Unit :=
  (selectIndexes s.indexes tableId indexIds).forM fun (_, index) => do
    let _ ← buildIndexKeyForDescriptor index.descriptor descriptor row

/-! ## The checks of the indexes a transaction created -/

def preflightPendingCreatedIndexRewritesForIds (pending : Pending V)
    (descriptor : TableStorageDescriptor) (tableId : RelationId) (oldRow newRow : Option (Row V))
    (indexIds : List IndexId) : DbResult Unit :=
  (selectIndexes pending.createdIndexes tableId indexIds).forM fun (_, index) =>
    (oldRow.toList ++ newRow.toList).forM fun row => do
      let _ ← buildIndexKeyForDescriptor index.descriptor descriptor row

def preflightPendingCreatedIndexRewrites (pending : Pending V)
    (descriptor : TableStorageDescriptor) (tableId : RelationId)
    (oldRow newRow : Option (Row V)) : DbResult Unit :=
  preflightPendingCreatedIndexRewritesForIds pending descriptor tableId oldRow newRow
    (idsForTable btreeTableId pending.createdIndexes tableId)

def preflightPendingCreatedUniqueIndexEntriesForIds (pending : Pending V) (txn : TxnId)
    (tableId : RelationId) (descriptor : TableStorageDescriptor) (tupleId : TupleId)
    (newRow : Row V) (indexIds : List IndexId) : DbResult Unit :=
  (selectIndexes pending.createdIndexes tableId indexIds).forM fun (_, index) =>
    if index.descriptor.unique = false then pure ()
    else do
      let key ← buildIndexKeyForDescriptor index.descriptor descriptor newRow
      s.checkUniqueKey txn index descriptor tupleId key

def preflightPendingCreatedUniqueIndexEntries (pending : Pending V) (txn : TxnId)
    (tableId : RelationId) (descriptor : TableStorageDescriptor) (tupleId : TupleId)
    (newRow : Row V) : DbResult Unit :=
  s.preflightPendingCreatedUniqueIndexEntriesForIds pending txn tableId descriptor tupleId newRow
    (idsForTable btreeTableId pending.createdIndexes tableId)

/-! ## Which indexes an update touches -/

def indexUpdateSet (tableId : RelationId) (p : IndexData V → Bool) : IndexUpdateSet :=
  let chosen := (selectIndexes s.indexes tableId (s.baseIndexIds tableId)).filter (p ·.2)
  { btreeIndexIds := .ofList (chosen.map (·.1))
    btreeUniqueIndexIds :=
      .ofList ((chosen.filter (·.2.descriptor.unique)).map (·.1)) }

def indexedColumnUpdatePlan [DecidableEq V] (tableId : RelationId)
    (descriptor : TableStorageDescriptor) (oldRow newRow : Row V) : IndexUpdateSet :=
  let changed := changedColumnIds descriptor oldRow newRow
  s.indexUpdateSet tableId fun index =>
    indexDescriptorValueChanged changed index.descriptor ||
      index.coveringColumnIds.any (· ∈ changed)

def baseInsertIndexUpdatePlan (tableId : RelationId) : IndexUpdateSet :=
  s.indexUpdateSet tableId fun _ => true

/-! ## Changes of the committed indexes -/

def appendPreparedBaseIndexEntries (prepared : List (PreparedBaseIndexInsert V))
    (tupleId : TupleId) : StorageState V :=
  { s with
    indexes := prepared.foldl (fun indexes entry => indexes.modify entry.indexId
      (·.insertPrebuiltEntryUnchecked entry.key tupleId entry.coveringRow)) s.indexes }

def removePreparedBaseIndexEntries (tableId : RelationId) (tupleId : TupleId)
    (prepared : List (PreparedBaseIndexInsert V)) : StorageState V :=
  { s with
    indexes := prepared.foldl (fun indexes entry => indexes.modify entry.indexId fun index =>
      if btreeTableId index = tableId then index.removePrebuiltKey tupleId entry.key
      else index) s.indexes }

def removeBaseIndexEntries (tableId : RelationId) (descriptor : TableStorageDescriptor)
    (tupleId : TupleId) (row : Row V) : DbResult (StorageState V) := do
  let keyed ← (selectIndexes s.indexes tableId (s.baseIndexIds tableId)).mapM
    fun (indexId, index) => do
      let key ← buildIndexKeyForDescriptor index.descriptor descriptor row
      pure (indexId, key)
  pure { s with
    indexes := keyed.foldl (fun indexes (indexId, key) =>
      indexes.modify indexId (·.removePrebuiltKey tupleId key)) s.indexes }

def removeIndexesForTable (tableId : RelationId) : StorageState V :=
  { s with indexes := s.indexes.filter fun _ index => decide (btreeTableId index ≠ tableId) }

end StorageState

end AionDb
