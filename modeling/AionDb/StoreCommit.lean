import AionDb.StoreState

/-!
# Committing a pending transaction

`commit_txn` checks the pending writes against the committed state
(`preflightPendingTransaction`), logs the commit, and then publishes the writes
(`applyPendingTransaction`). The check collects the committed rows the writes
replace, by table and tuple. A failed check changes nothing; a failed
publication stops the engine, so what is left of its state is not returned.
-/

namespace AionDb

open Std

variable {V : Type} [Ord V]

abbrev OldRows (V : Type) := ExtTreeMap TupleKey (Row V) tupleKeyCmp

/-! ## Uniqueness among the pending writes -/

def sameUniqueKey (index : IndexStorageDescriptor) : Option (IndexKey V) → Option (IndexKey V) → Bool
  | none, none => true
  | some a, some b => IndexKey.cmp index.keyColumns a b == .eq
  | _, _ => false

abbrev SeenKeys (V : Type) := List (IndexKey V × TupleId)

def SeenKeys.lookup (index : IndexStorageDescriptor) (seen : SeenKeys V) (key : IndexKey V) :
    Option TupleId :=
  (seen.find? fun p => IndexKey.cmp index.keyColumns p.1 key == .eq).map (·.2)

def registerUniqueRowKey (index : IndexStorageDescriptor) (descriptor : TableStorageDescriptor)
    (seen : SeenKeys V) (tupleId : TupleId) (row : Row V) : DbResult (SeenKeys V) := do
  match ← uniqueKeyForDescriptorRow index descriptor row with
  | none => pure seen
  | some key =>
    match seen.lookup index key with
    | none => pure ((key, tupleId) :: seen)
    | some existing =>
      if existing = tupleId then pure seen else throw (uniqueViolationError index.indexId)

def pendingWritesMayChangeUniqueIndex (table : TableData (Row V))
    (descriptor : TableStorageDescriptor) (writes : TableWriteSet V)
    (index : IndexStorageDescriptor) : DbResult Bool :=
  writes.rows.toList.anyM fun (tupleId, rowState) =>
    match rowState with
    | .deleted => pure false
    | .present newRow =>
      match table.loadLatestRow tupleId with
      | none => pure true
      | some oldRow => do
        let oldKey ← uniqueKeyForDescriptorRow index descriptor oldRow
        let newKey ← uniqueKeyForDescriptorRow index descriptor newRow
        pure (!sameUniqueKey index oldKey newKey)

/-- The keys of the pending rows when all of them are new tuples; `none` when one is not. -/
def insertedKeys (table : TableData (Row V)) (descriptor : TableStorageDescriptor)
    (index : IndexStorageDescriptor) :
    List (TupleId × PendingRowState V) → SeenKeys V → DbResult (Option (SeenKeys V))
  | [], seen => pure (some seen)
  | (_, .deleted) :: _, _ => pure none
  | (tupleId, .present row) :: rest, seen =>
    if table.containsTuple tupleId then pure none
    else do
      let seen ← registerUniqueRowKey index descriptor seen tupleId row
      insertedKeys table descriptor index rest seen

/-- The rows of a table with the pending writes over them: first the tuples of the table, then
the new ones. -/
def overlaidRows (table : TableData (Row V)) (writes : TableWriteSet V) : List (TupleId × Row V) :=
  (table.heap.keys ++ writes.rows.keys.filter (!table.containsTuple ·)).filterMap fun tupleId =>
    (overlaidRow table (some writes) tupleId).map (tupleId, ·)

namespace StorageState

variable (s : StorageState V)

/-- Answers whether all writes are insertions; if so their keys have been looked up. -/
def validateInsertOnlyUniqueIndexIncremental (tableId : RelationId) (table : TableData (Row V))
    (descriptor : TableStorageDescriptor) (writes : TableWriteSet V) (index : IndexData V) :
    DbResult Bool := do
  match ← insertedKeys table descriptor index.descriptor writes.rows.toList [] with
  | none => pure false
  | some seenNew =>
    writes.rows.toList.forM fun (tupleId, rowState) =>
      match rowState with
      | .deleted => pure ()
      | .present row => do
        match ← uniqueKeyForDescriptorRow index.descriptor descriptor row with
        | none => pure ()
        | some key =>
          if seenNew.lookup index.descriptor key = some tupleId then
            s.preflightBaseUniqueIndexEntries tableId descriptor tupleId row
          else pure ()
    pure true

def validatePendingUniqueIndex (tableId : RelationId) (table : TableData (Row V))
    (descriptor : TableStorageDescriptor) (writes : TableWriteSet V) (index : IndexData V) :
    DbResult Unit := do
  let mayChange ← pendingWritesMayChangeUniqueIndex table descriptor writes index.descriptor
  if !mayChange then pure ()
  else
    let insertOnly ← s.validateInsertOnlyUniqueIndexIncremental tableId table descriptor writes
      index
    if insertOnly then pure ()
    else
      let _ ← (overlaidRows table writes).foldlM
        (fun seen (tupleId, row) =>
          registerUniqueRowKey index.descriptor descriptor seen tupleId row) []

def validatePendingUniqueIndexes (pending : Pending V) : DbResult Unit :=
  pending.tableWrites.toList.forM fun (tableId, writes) =>
    if pending.droppedTables.contains tableId then pure ()
    else match s.tables[tableId]? with
    | none => pure ()
    | some table =>
      let descriptor := pending.alteredTables[tableId]?.getD table.descriptor
      let unique := (selectIndexes s.indexes tableId (s.baseIndexIds tableId)).filter
        (·.2.descriptor.unique)
      unique.forM fun (_, index) =>
        s.validatePendingUniqueIndex tableId table descriptor writes index

/-! ## The check before a commit -/

/-- One pending row. A row that replaces a committed one is only looked at when its update
planned a change of some index. -/
def preflightPendingRow (tableId : RelationId) (descriptor : TableStorageDescriptor)
    (writes : TableWriteSet V) (collectOldRows : Bool) (oldRows : OldRows V)
    (entry : TupleId × PendingRowState V) : DbResult (OldRows V) :=
  let (tupleId, rowState) := entry
  let committed := s.tables[tableId]?.bind (·.loadLatestRow tupleId)
  let collect oldRow :=
    if collectOldRows then oldRows.insert (tableId, tupleId) oldRow else oldRows
  match rowState, committed with
  | .present newRow, none => do
    s.preflightBaseIndexKeys tableId descriptor newRow (s.baseIndexIds tableId)
    s.preflightBaseUniqueIndexEntries tableId descriptor tupleId newRow
    pure oldRows
  | .present newRow, some oldRow =>
    match writes.indexUpdateSets[tupleId]? with
    | none => pure oldRows
    | some plan =>
      if plan.btreeUniqueIndexIds.isEmpty && plan.hnswIndexIds.isEmpty &&
          plan.ginIndexIds.isEmpty then pure (collect oldRow)
      else do
        s.preflightBaseIndexKeys tableId descriptor oldRow plan.btreeIndexIds.toList
        let _ ← s.prepareBaseIndexEntriesForIds tableId descriptor newRow plan.btreeIndexIds.toList
        s.preflightBaseUniqueIndexEntriesForIds tableId descriptor tupleId newRow
          plan.btreeUniqueIndexIds.toList
        pure (collect oldRow)
  | .deleted, none => pure oldRows
  | .deleted, some oldRow => do
    s.preflightBaseIndexKeys tableId descriptor oldRow (s.baseIndexIds tableId)
    pure (collect oldRow)

def preflightPendingTransaction (pending : Pending V) (collectOldRows : Bool) :
    DbResult (OldRows V) := do
  let oldRows ← pending.tableWrites.toList.foldlM (fun oldRows (tableId, writes) =>
    if pending.droppedTables.contains tableId then pure oldRows
    else match pending.alteredTables[tableId]?.or (s.tables[tableId]?.map (·.descriptor)) with
    | none => pure oldRows
    | some descriptor =>
      writes.rows.toList.foldlM (s.preflightPendingRow tableId descriptor writes
        collectOldRows) oldRows) ∅
  s.validatePendingUniqueIndexes pending
  pure oldRows

/-! ## Publication -/

def setTable (tableId : RelationId) (table : TableData (Row V)) : StorageState V :=
  { s with tables := s.tables.insert tableId table }

/-- The old entries of a row that changes are taken out of the planned indexes. -/
def removePlannedEntries (tableId : RelationId) (descriptor : TableStorageDescriptor)
    (tupleId : TupleId) (plan : IndexUpdateSet) : Option (Row V) → DbResult (StorageState V)
  | none => pure s
  | some oldRow => do
    let entries ← s.prepareBaseIndexEntriesForIds tableId descriptor oldRow
      plan.btreeIndexIds.toList
    pure (s.removePreparedBaseIndexEntries tableId tupleId entries)

/-- The indexes a published row is entered into: all of them for a new tuple, the planned ones
for a tuple that was live. -/
def publicationPlan (tableId : RelationId) (table : TableData (Row V)) (writes : TableWriteSet V)
    (tupleId : TupleId) : IndexUpdateSet :=
  if table.hasLiveTuple tupleId then writes.indexUpdateSets[tupleId]?.getD {}
  else s.baseInsertIndexUpdatePlan tableId

/-- The row whose entries are taken out: the one found by the check, or else the committed one. -/
def replacedRow (tableId : RelationId) (table : TableData (Row V)) (writes : TableWriteSet V)
    (oldRows : OldRows V) (tupleId : TupleId) : Option (Row V) :=
  if table.hasLiveTuple tupleId && (writes.indexUpdateSets[tupleId]?).isSome then
    (oldRows[(tableId, tupleId)]?).or (table.loadLatestRow tupleId)
  else none

def applyPresentRow (txn : TxnId) (tableId : RelationId) (table : TableData (Row V))
    (writes : TableWriteSet V) (oldRows : OldRows V) (tupleId : TupleId) (row : Row V) :
    DbResult (StorageState V) := do
  let plan := s.publicationPlan tableId table writes tupleId
  let oldRow := replacedRow tableId table writes oldRows tupleId
  let newTable ← table.commitPresent tupleId txn row
  let s := s.setTable tableId newTable
  let s ← s.removePlannedEntries tableId table.descriptor tupleId plan oldRow
  let entries ← s.prepareBaseIndexEntriesForIds tableId table.descriptor row
    plan.btreeIndexIds.toList
  pure (s.appendPreparedBaseIndexEntries entries tupleId)

def applyDeletedRow (txn : TxnId) (tableId : RelationId) (table : TableData (Row V))
    (oldRows : OldRows V) (tupleId : TupleId) : DbResult (StorageState V) :=
  match table.loadLatestRow tupleId with
  | none => pure s
  | some committed => do
    let oldRow := oldRows[(tableId, tupleId)]?.getD committed
    let newTable ← table.commitDeleted tupleId txn
    (s.setTable tableId newTable).removeBaseIndexEntries tableId table.descriptor tupleId oldRow

def applyRow (txn : TxnId) (tableId : RelationId) (writes : TableWriteSet V)
    (oldRows : OldRows V) (s : StorageState V) (entry : TupleId × PendingRowState V) :
    DbResult (StorageState V) :=
  match s.tables[tableId]? with
  | none => throw (.internalMsg "table storage does not exist")
  | some table =>
    match entry.2 with
    | .present row => s.applyPresentRow txn tableId table writes oldRows entry.1 row
    | .deleted => s.applyDeletedRow txn tableId table oldRows entry.1

/-- The pending rows in the order they are published: by heap position, then by tuple id; a
deletion has no position and comes last. -/
def orderedRows (writes : TableWriteSet V) : List (TupleId × PendingRowState V) :=
  let position id := writes.heapPositions[id]?.getD u64Max
  writes.rows.toList.insertionSort fun a b =>
    position a.1 < position b.1 ∨ position a.1 = position b.1 ∧ a.1 ≤ b.1

def applyTableWrites (txn : TxnId) (oldRows : OldRows V) (s : StorageState V)
    (tableId : RelationId) (writes : TableWriteSet V) : DbResult (StorageState V) :=
  if tableId ∉ s.tables then pure s
  else (orderedRows writes).foldlM (applyRow txn tableId writes oldRows) s

def rewriteCommittedTableForAlteredDescriptor (tableId : RelationId)
    (target : TableStorageDescriptor) (droppedIndexes : ExtTreeSet IndexId) :
    DbResult (StorageState V) :=
  match s.tables[tableId]? with
  | none => throw (.internalMsg "table storage does not exist")
  | some table => do
    let rows ← table.liveRows.mapM fun (tupleId, row) => do
      let row ← rewriteRowForAlteredDescriptor table.descriptor target row
      pure (tupleId, row)
    if table.descriptor = target then pure s
    else
      let kept := (selectIndexes s.indexes tableId (s.baseIndexIds tableId)).filter
        (!droppedIndexes.contains ·.1)
      let rebuilt ← kept.mapM fun (indexId, index) => do
        let index ← IndexData.fromRows index.descriptor target rows
        pure (indexId, index)
      let s := (s.setTable tableId (.rebuilt target rows)).removeIndexesForTable tableId
      pure { s with
        indexes := rebuilt.foldl (fun indexes (indexId, index) => indexes.insert indexId index)
          s.indexes }

def publishCreatedTables (pending : Pending V) : StorageState V :=
  { s with
    tables := pending.createdTables.toList.foldl (fun tables (tableId, table) =>
      if pending.droppedTables.contains tableId then tables
      else tables.insert tableId table) s.tables }

def publishIndexes (pending : Pending V) : StorageState V :=
  let indexes := pending.droppedIndexes.toList.foldl (fun m indexId => m.erase indexId) s.indexes
  { s with
    indexes := pending.createdIndexes.toList.foldl (fun indexes (indexId, index) =>
      if pending.droppedTables.contains (btreeTableId index) || btreeTableId index ∉ s.tables then
        indexes
      else indexes.insert indexId index) indexes }

def removeDroppedTables (pending : Pending V) : StorageState V :=
  pending.droppedTables.toList.foldl (fun s tableId =>
    { s with tables := s.tables.erase tableId }.removeIndexesForTable tableId) s

def applyPendingTransaction (txn : TxnId) (pending : Pending V) (oldRows : OldRows V) :
    DbResult (StorageState V) := do
  let s := s.publishCreatedTables pending
  let s ← pending.alteredTables.toList.foldlM (fun s (tableId, descriptor) =>
    if pending.droppedTables.contains tableId then pure s
    else s.rewriteCommittedTableForAlteredDescriptor tableId descriptor pending.droppedIndexes) s
  let s ← pending.tableWrites.toList.foldlM (fun s (tableId, writes) =>
    if pending.droppedTables.contains tableId then pure s
    else applyTableWrites txn oldRows s tableId writes) s
  pure ((s.publishIndexes pending).removeDroppedTables pending)

end StorageState

end AionDb
