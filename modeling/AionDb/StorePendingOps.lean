import AionDb.StorePending

/-!
# Changes of a pending transaction

For each write of a transaction, the part that changes the pending transaction
itself. What it reads from the rest of the storage (the descriptor in force,
the old row, the committed vector indexes, the endpoints of an edge) is passed
in; a write that fails before this part changes nothing. A failure inside it
keeps what was done before, as the actions of `Effect` do.

Every write first captures the slots it may change.
-/

namespace AionDb

open Std Effect

variable {V R H G : Type} [Ord V]

abbrev PendingM (V R H G α : Type) := Eff (PendingTransaction V R H G) DbError α

/-- The endpoints of the edge a row stands for, when its table is an edge table. -/
abbrev EdgeEndpoints (V : Type) := Option (Option V × Option V)

/-! ## Rewriting the entries of one index -/

/-- The entry of the old row is taken out before the key of the new row is built. -/
def IndexData.rewriteTuple (table : TableStorageDescriptor) (tupleId : TupleId)
    (oldRow newRow : Option (Row V)) : Eff (IndexData V) DbError Unit := do
  match oldRow with
  | none => pure ()
  | some row =>
    let index ← get
    let oldKey ← liftM (buildIndexKeyForDescriptor index.descriptor table row)
    modify (·.removePrebuiltKey tupleId oldKey)
  match newRow with
  | none => pure ()
  | some row =>
    let index ← get
    let key ← liftM (buildIndexKeyForDescriptor index.descriptor table row)
    let coveringRow ← liftM (index.buildCoveringRow table row)
    modify (·.insertPrebuiltEntryUnchecked key tupleId coveringRow)

def OpaqueIndex.onContents {X : Type} (m : IndexStorageDescriptor → Eff X DbError Unit) :
    Eff (OpaqueIndex X) DbError Unit := fun index =>
  let (result, contents) := m index.descriptor index.contents
  (result, { index with contents })

def OpaqueIndex.rewriteTuple {X : Type} (kernel : IndexKernel V X)
    (table : TableStorageDescriptor) (tupleId : TupleId) (oldRow newRow : Option (Row V)) :
    Eff (OpaqueIndex X) DbError Unit := do
  match oldRow with
  | none => pure ()
  | some row => onContents fun descriptor => kernel.removeTuple descriptor table tupleId row
  match newRow with
  | none => pure ()
  | some row => onContents fun descriptor => kernel.insertTuple descriptor table tupleId row

/-! ## Rewriting the indexes a transaction created -/

structure CreatedIndexes (V R H G I : Type) where
  indexes : PendingTransaction V R H G → ExtTreeMap IndexId I
  withIndexes : PendingTransaction V R H G → ExtTreeMap IndexId I → PendingTransaction V R H G
  tableOf : I → RelationId
  missing : String

def createdBtree : CreatedIndexes V R H G (IndexData V) where
  indexes p := p.createdIndexes
  withIndexes p m := { p with createdIndexes := m }
  tableOf := btreeTableId
  missing := "created index disappeared during rewrite"

def createdHnsw : CreatedIndexes V R H G (HnswIndex H) where
  indexes p := p.createdHnswIndexes
  withIndexes p m := { p with createdHnswIndexes := m }
  tableOf := hnswTableId
  missing := "created HNSW index disappeared during rewrite"

def createdGin : CreatedIndexes V R H G (GinIndex G) where
  indexes p := p.createdGinIndexes
  withIndexes p m := { p with createdGinIndexes := m }
  tableOf := ginTableId
  missing := "created GIN index disappeared during rewrite"

namespace CreatedIndexes

variable {I : Type} (field : CreatedIndexes V R H G I)

def edit (m : Eff I DbError Unit) (indexId : IndexId) : PendingM V R H G Unit := fun p =>
  match (field.indexes p)[indexId]? with
  | none => (.error (.internalMsg field.missing), p)
  | some index =>
    let (result, index) := m index
    (result, field.withIndexes p ((field.indexes p).insert indexId index))

/-- The `rewrite_pending_created_*` functions: every created index of the table. -/
def rewrite (tableId : RelationId) (m : Eff I DbError Unit) : PendingM V R H G Unit := do
  let p ← get
  (idsForTable field.tableOf (field.indexes p) tableId).forM (field.edit m)

/-- The `rewrite_pending_created_*_for_ids` functions skip what is not an index of the table. -/
def rewriteForIds (tableId : RelationId) (indexIds : List IndexId) (m : Eff I DbError Unit) :
    PendingM V R H G Unit :=
  indexIds.forM fun indexId => do
    let p ← get
    match (field.indexes p)[indexId]? with
    | none => pure ()
    | some index => if field.tableOf index = tableId then field.edit m indexId else pure ()

end CreatedIndexes

structure IndexKernels (V H G : Type) where
  hnsw : IndexKernel V H
  gin : IndexKernel V G

def rewriteCreatedIndexes (kernels : IndexKernels V H G) (descriptor : TableStorageDescriptor)
    (tableId : RelationId) (tupleId : TupleId) (oldRow newRow : Option (Row V)) :
    PendingM V R H G Unit := do
  createdBtree.rewrite tableId (IndexData.rewriteTuple descriptor tupleId oldRow newRow)
  createdHnsw.rewrite tableId
    (OpaqueIndex.rewriteTuple kernels.hnsw descriptor tupleId oldRow newRow)
  createdGin.rewrite tableId (OpaqueIndex.rewriteTuple kernels.gin descriptor tupleId oldRow newRow)

/-! ## Buffers and single slots -/

namespace PendingTransaction

def updateWrites (tableId : RelationId) (f : TableWriteSet V → TableWriteSet V)
    (p : PendingTransaction V R H G) : PendingTransaction V R H G :=
  { p with tableWrites := p.tableWrites.insert tableId (f (p.tableWrites[tableId]?.getD {})) }

def bufferAdjacencyChange (tableId : RelationId) (endpoints : EdgeEndpoints V)
    (edgeTupleId : TupleId) (operation : AdjacencyOp) (p : PendingTransaction V R H G) :
    PendingTransaction V R H G :=
  match endpoints with
  | none => p
  | some (sourceId, targetId) =>
    { p with
      pendingAdjacency := p.pendingAdjacency ++
        [{ tableId, sourceId, targetId, edgeTupleId, operation }] }

def pushPendingHnswChanges (hnswIds : List IndexId) (tableId : RelationId) (tupleId : TupleId)
    (row : Row V) (operation : HnswOp) (p : PendingTransaction V R H G) :
    PendingTransaction V R H G :=
  { p with
    pendingHnsw := p.pendingHnsw ++
      hnswIds.map fun indexId => { indexId, tableId, tupleId, row, operation } }

def removeCreatedIndexesForTable (tableId : RelationId) (p : PendingTransaction V R H G) :
    PendingTransaction V R H G :=
  { p with
    createdIndexes := p.createdIndexes.filter fun _ i => decide (btreeTableId i ≠ tableId)
    createdHnswIndexes := p.createdHnswIndexes.filter fun _ i => decide (hnswTableId i ≠ tableId)
    createdGinIndexes := p.createdGinIndexes.filter fun _ i => decide (ginTableId i ≠ tableId) }

end PendingTransaction

def editCreatedTable (tableId : RelationId) (m : Eff (TableData R) DbError Unit) :
    PendingM V R H G Unit := fun p =>
  match p.createdTables[tableId]? with
  | none => (.error (.internalMsg "table storage does not exist"), p)
  | some table =>
    let (result, table) := m table
    (result, { p with createdTables := p.createdTables.insert tableId table })

/-! ## Writes of rows -/

structure WriteContext where
  descriptor : TableStorageDescriptor
  tableId : RelationId
  tupleId : TupleId
  baseNextHeapPosition : Nat
  committedHnswIndexIds : List IndexId

section
variable (kernels : IndexKernels V H G) (c : WriteContext)

def insertBase (row : Row V) (edge : EdgeEndpoints V) : PendingM V R H G Unit := do
  modify (·.recordPendingBaseTableMutationUndo c.tableId)
  modify (·.updateWrites c.tableId (·.recordPresent c.tupleId row c.baseNextHeapPosition))
  rewriteCreatedIndexes kernels c.descriptor c.tableId c.tupleId none (some row)
  modify (·.pushPendingHnswChanges c.committedHnswIndexIds c.tableId c.tupleId row .insert)
  modify (·.bufferAdjacencyChange c.tableId edge c.tupleId .insert)

def createdInPlan {I : Type} (p : PendingTransaction V R H G) (plan : IndexUpdateSet)
    (indexes : ExtTreeMap IndexId I) (ids : ExtTreeSet IndexId) : List IndexId :=
  if p.createdIndexes.isEmpty && p.createdHnswIndexes.isEmpty && p.createdGinIndexes.isEmpty
      || plan.isEmpty then []
  else ids.toList.filter (· ∈ indexes)

/-- `update` of a committed table, with the created indexes it rewrites. -/
def updateBaseFor (btreeIds hnswIds ginIds : List IndexId) (plan : IndexUpdateSet)
    (oldRow row : Row V) (oldEdge edge : EdgeEndpoints V) : PendingM V R H G Unit := do
  modify (·.recordPendingBaseTableMutationUndo c.tableId)
  modify (·.updateWrites c.tableId fun writes =>
    (writes.recordPresent c.tupleId row c.baseNextHeapPosition).setIndexUpdateSet c.tupleId plan)
  createdBtree.rewriteForIds c.tableId btreeIds
    (IndexData.rewriteTuple c.descriptor c.tupleId (some oldRow) (some row))
  createdHnsw.rewriteForIds c.tableId hnswIds
    (OpaqueIndex.rewriteTuple kernels.hnsw c.descriptor c.tupleId (some oldRow) (some row))
  createdGin.rewriteForIds c.tableId ginIds
    (OpaqueIndex.rewriteTuple kernels.gin c.descriptor c.tupleId (some oldRow) (some row))
  (if plan.hnswIndexIds.isEmpty then pure ()
  else do
    modify (·.pushPendingHnswChanges c.committedHnswIndexIds c.tableId c.tupleId oldRow .remove)
    modify (·.pushPendingHnswChanges c.committedHnswIndexIds c.tableId c.tupleId row .insert))
  modify (·.bufferAdjacencyChange c.tableId oldEdge c.tupleId .remove)
  modify (·.bufferAdjacencyChange c.tableId edge c.tupleId .insert)

/-- `update` of a committed table. The plan lists committed indexes only, so an index that the
transaction created is rewritten when a committed one has its id. -/
def updateBase (plan : IndexUpdateSet) (oldRow row : Row V) (oldEdge edge : EdgeEndpoints V) :
    PendingM V R H G Unit := fun p =>
  updateBaseFor kernels c (createdInPlan p plan p.createdIndexes plan.btreeIndexIds)
    (createdInPlan p plan p.createdHnswIndexes plan.hnswIndexIds)
    (createdInPlan p plan p.createdGinIndexes plan.ginIndexIds) plan oldRow row oldEdge edge p

def deleteBase (oldRow : Row V) (edge : EdgeEndpoints V) : PendingM V R H G Unit := do
  modify (·.recordPendingBaseTableMutationUndo c.tableId)
  modify (·.updateWrites c.tableId (·.recordDeleted c.tupleId))
  rewriteCreatedIndexes kernels c.descriptor c.tableId c.tupleId (some oldRow) none
  modify (·.pushPendingHnswChanges c.committedHnswIndexIds c.tableId c.tupleId oldRow .remove)
  modify (·.bufferAdjacencyChange c.tableId edge c.tupleId .remove)

/-- `insert` into a table the transaction created; `stored` is the row as the heap keeps it. -/
def insertCreated (txn : TxnId) (row : Row V) (stored : R) (edge : EdgeEndpoints V) :
    PendingM V R H G Unit := do
  modify (·.recordPendingCreatedTableMutationUndo c.tableId)
  editCreatedTable c.tableId
    (modify fun table => table.allocateTupleId.2.commitInsert c.tupleId txn stored)
  rewriteCreatedIndexes kernels c.descriptor c.tableId c.tupleId none (some row)
  modify (·.bufferAdjacencyChange c.tableId edge c.tupleId .insert)

def changedRowOrdinals [DecidableEq V] (oldRow newRow : Row V) : List Nat :=
  (List.range (max oldRow.length newRow.length)).filter fun i => oldRow[i]? ≠ newRow[i]?

def changedColumnIds [DecidableEq V] (descriptor : TableStorageDescriptor)
    (oldRow newRow : Row V) : List ColumnId :=
  (changedRowOrdinals oldRow newRow).filterMap fun i => descriptor.columns[i]?.map (·.columnId)

def indexDescriptorValueChanged (changed : List ColumnId) (index : IndexStorageDescriptor) : Bool :=
  index.keyColumns.any fun column => column.columnId ∈ changed

def pendingIndexedColumnsChanged [DecidableEq V] (p : PendingTransaction V R H G)
    (tableId : RelationId) (descriptor : TableStorageDescriptor) (oldRow newRow : Row V) : Bool :=
  let changed := changedColumnIds descriptor oldRow newRow
  (p.createdIndexes.toList.any fun (_, i) =>
    btreeTableId i = tableId && indexDescriptorValueChanged changed i.descriptor) ||
  (p.createdHnswIndexes.toList.any fun (_, i) =>
    hnswTableId i = tableId && indexDescriptorValueChanged changed i.descriptor) ||
  (p.createdGinIndexes.toList.any fun (_, i) =>
    ginTableId i = tableId && indexDescriptorValueChanged changed i.descriptor)

def updateCreated [DecidableEq V] (txn : TxnId) (oldRow row : Row V) (stored : R)
    (oldEdge edge : EdgeEndpoints V) : PendingM V R H G Unit := do
  modify (·.recordPendingCreatedTableMutationUndo c.tableId)
  editCreatedTable c.tableId fun table => table.commitUpdate c.tupleId txn stored
  let p ← get
  (if pendingIndexedColumnsChanged p c.tableId c.descriptor oldRow row then
    rewriteCreatedIndexes kernels c.descriptor c.tableId c.tupleId (some oldRow) (some row)
  else pure ())
  modify (·.bufferAdjacencyChange c.tableId oldEdge c.tupleId .remove)
  modify (·.bufferAdjacencyChange c.tableId edge c.tupleId .insert)

def deleteCreated (txn : TxnId) (oldRow : Row V) (edge : EdgeEndpoints V) :
    PendingM V R H G Unit := do
  modify (·.recordPendingCreatedTableMutationUndo c.tableId)
  editCreatedTable c.tableId fun table => table.commitDelete c.tupleId txn
  rewriteCreatedIndexes kernels c.descriptor c.tableId c.tupleId (some oldRow) none
  modify (·.bufferAdjacencyChange c.tableId edge c.tupleId .remove)

end

/-! ## Changes of definitions -/

def createTable (descriptor : TableStorageDescriptor) : PendingM V R H G Unit := do
  modify (·.recordPendingTableDefinitionUndo descriptor.tableId)
  modify fun p => { p with
    droppedTables := p.droppedTables.erase descriptor.tableId
    alteredTables := p.alteredTables.erase descriptor.tableId
    tableWrites := p.tableWrites.erase descriptor.tableId }
  modify (·.removeCreatedIndexesForTable descriptor.tableId)
  modify fun p => { p with
    createdTables := p.createdTables.insert descriptor.tableId { descriptor } }

/-- `drop_table_storage`. A committed table is marked as dropped only when no created one was
removed. -/
def dropTable (tableId : RelationId) (baseExists : Bool) : PendingM V R H G Unit := do
  modify (·.recordPendingTableDefinitionUndo tableId)
  modify fun p => { p with
    tableWrites := p.tableWrites.erase tableId
    alteredTables := p.alteredTables.erase tableId }
  modify (·.removeCreatedIndexesForTable tableId)
  modify fun p => { p with
    createdTables := p.createdTables.erase tableId
    droppedTables :=
      if p.createdTables[tableId]?.isNone && baseExists then p.droppedTables.insert tableId
      else p.droppedTables }

/-- `create_index_storage`, once the contents of the new index are built. -/
def createIndex {I : Type} (field : CreatedIndexes V R H G I) (indexId : IndexId) (index : I) :
    PendingM V R H G Unit := do
  modify (·.recordPendingIndexDefinitionUndo indexId)
  modify fun p => { p with droppedIndexes := p.droppedIndexes.erase indexId }
  modify fun p => field.withIndexes p ((field.indexes p).insert indexId index)

def dropIndex (indexId : IndexId) : PendingM V R H G Unit := do
  modify (·.recordPendingIndexDefinitionUndo indexId)
  modify fun p => { p with
    createdIndexes := p.createdIndexes.erase indexId
    createdHnswIndexes := p.createdHnswIndexes.erase indexId
    createdGinIndexes := p.createdGinIndexes.erase indexId
    droppedIndexes :=
      if indexId ∈ p.createdIndexes ∨ indexId ∈ p.createdHnswIndexes ∨
        indexId ∈ p.createdGinIndexes then p.droppedIndexes
      else p.droppedIndexes.insert indexId }

/-- The ordinals collected into a map: of two columns with one id the last counts. -/
def lastColumnOrdinal (descriptor : TableStorageDescriptor) (columnId : ColumnId) : Option Nat :=
  (descriptor.columns.zipIdx.reverse.find? (·.1.columnId = columnId)).map (·.2)

/-- A row in the shape of another descriptor; a new column starts as NULL. -/
def rewriteRowForAlteredDescriptor (current target : TableStorageDescriptor) (row : Row V) :
    DbResult (Row V) :=
  target.columns.mapM fun column =>
    match lastColumnOrdinal current column.columnId with
    | none => .ok none
    | some ordinal =>
      match row[ordinal]? with
      | some value => .ok value
      | none => .error (.internalMsg "row is missing source value during ALTER TABLE rewrite")

/-- `alter_table_storage` of a table the transaction created: only the descriptor changes. -/
def alterCreated (target : TableStorageDescriptor) : PendingM V R H G Unit := do
  modify (·.recordCreatedTableUndo target.tableId)
  editCreatedTable target.tableId (modify fun table => { table with descriptor := target })

def rewritePendingRows (current target : TableStorageDescriptor)
    (rows : List (TupleId × PendingRowState V)) : Eff (TableWriteSet V) DbError Unit :=
  rows.forM fun (tupleId, rowState) =>
    match rowState with
    | .deleted => pure ()
    | .present row => do
      let row ← liftM (rewriteRowForAlteredDescriptor current target row)
      modify fun w => { w with rows := w.rows.insert tupleId (.present row) }

def editWrites (tableId : RelationId) (m : TableWriteSet V → Eff (TableWriteSet V) DbError Unit) :
    PendingM V R H G Unit := fun p =>
  match p.tableWrites[tableId]? with
  | none => (.ok (), p)
  | some writes =>
    let (result, writes) := m writes writes
    (result, { p with tableWrites := p.tableWrites.insert tableId writes })

def alterBase (current target : TableStorageDescriptor) : PendingM V R H G Unit := do
  modify (·.recordAlteredTableUndo target.tableId)
  modify fun p =>
    if target.tableId ∈ p.tableWrites then p.recordTableWritesUndo target.tableId else p
  editWrites target.tableId fun writes => do
    rewritePendingRows current target writes.rows.toList
    modify fun w => { w with indexUpdateSets := ∅ }
  modify fun p => { p with
    alteredTables := p.alteredTables.insert target.tableId target }

end AionDb
