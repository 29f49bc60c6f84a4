import AionDb.LibEffect
import AionDb.LibUndo
import AionDb.StoreIndex

/-!
# The pending transaction

What a transaction has changed is kept apart from the committed state until it
commits. The eight maps and sets of `PendingWork` are what a savepoint brings
back from the undo log; the two lists of buffered index changes only grow and
are cut back to their length.

`R` is how a row is stored in a table the transaction created, and the contents
of a vector or text index are the parameters `H` and `G`: what their code does
with them is an `IndexKernel`, about which nothing is assumed.
-/

namespace AionDb

open Std

structure IndexUpdateSet where
  btreeIndexIds : ExtTreeSet IndexId := ∅
  btreeUniqueIndexIds : ExtTreeSet IndexId := ∅
  hnswIndexIds : ExtTreeSet IndexId := ∅
  ginIndexIds : ExtTreeSet IndexId := ∅

def IndexUpdateSet.isEmpty (s : IndexUpdateSet) : Bool :=
  s.btreeIndexIds.isEmpty && s.hnswIndexIds.isEmpty && s.ginIndexIds.isEmpty

inductive PendingRowState (V : Type) where
  | present (row : Row V)
  | deleted

structure TableWriteSet (V : Type) where
  rows : ExtTreeMap TupleId (PendingRowState V) := ∅
  heapPositions : ExtTreeMap TupleId Nat := ∅
  nextHeapPosition : Nat := 0
  indexUpdateSets : ExtTreeMap TupleId IndexUpdateSet := ∅

namespace TableWriteSet

variable {V : Type}

def recordPresent (w : TableWriteSet V) (id : TupleId) (row : Row V)
    (baseNextHeapPosition : Nat) : TableWriteSet V :=
  let heapPosition := max (max w.nextHeapPosition baseNextHeapPosition) 1
  { rows := w.rows.insert id (.present row)
    heapPositions := w.heapPositions.insert id heapPosition
    nextHeapPosition := satAdd heapPosition 1
    indexUpdateSets := w.indexUpdateSets.erase id }

def setIndexUpdateSet (w : TableWriteSet V) (id : TupleId) (set : IndexUpdateSet) :
    TableWriteSet V :=
  { w with
    indexUpdateSets :=
      if set.isEmpty then w.indexUpdateSets.erase id else w.indexUpdateSets.insert id set }

def recordDeleted (w : TableWriteSet V) (id : TupleId) : TableWriteSet V :=
  { w with
    rows := w.rows.insert id .deleted
    heapPositions := w.heapPositions.erase id
    indexUpdateSets := w.indexUpdateSets.erase id }

end TableWriteSet

/-- A vector or text index whose contents this model does not look into. -/
structure OpaqueIndex (X : Type) where
  descriptor : IndexStorageDescriptor
  contents : X

abbrev HnswIndex (H : Type) := OpaqueIndex H

abbrev GinIndex (G : Type) := OpaqueIndex G

structure IndexKernel (V X : Type) where
  insertTuple : IndexStorageDescriptor → TableStorageDescriptor → TupleId → Row V →
    Effect.Eff X DbError Unit
  removeTuple : IndexStorageDescriptor → TableStorageDescriptor → TupleId → Row V →
    Effect.Eff X DbError Unit

structure PendingWork (V R H G : Type) where
  tableWrites : ExtTreeMap RelationId (TableWriteSet V) := ∅
  createdTables : ExtTreeMap RelationId (TableData R) := ∅
  alteredTables : ExtTreeMap RelationId TableStorageDescriptor := ∅
  droppedTables : ExtTreeSet RelationId := ∅
  createdIndexes : ExtTreeMap IndexId (IndexData V) := ∅
  createdHnswIndexes : ExtTreeMap IndexId (HnswIndex H) := ∅
  createdGinIndexes : ExtTreeMap IndexId (GinIndex G) := ∅
  droppedIndexes : ExtTreeSet IndexId := ∅

inductive UndoAction (V R H G : Type) where
  | tableWritesEntry (tableId : RelationId) (previous : Option (TableWriteSet V))
  | createdTableEntry (tableId : RelationId) (previous : Option (TableData R))
  | alteredTableEntry (tableId : RelationId) (previous : Option TableStorageDescriptor)
  | droppedTableMembership (tableId : RelationId) (wasPresent : Bool)
  | createdIndexEntry (indexId : IndexId) (previous : Option (IndexData V))
  | createdHnswIndexEntry (indexId : IndexId) (previous : Option (HnswIndex H))
  | createdGinIndexEntry (indexId : IndexId) (previous : Option (GinIndex G))
  | droppedIndexMembership (indexId : IndexId) (wasPresent : Bool)

inductive AdjacencyOp where
  | insert
  | remove

structure PendingAdjacencyChange (V : Type) where
  tableId : RelationId
  sourceId : Option V
  targetId : Option V
  edgeTupleId : TupleId
  operation : AdjacencyOp

inductive HnswOp where
  | insert
  | remove

structure PendingHnswChange (V : Type) where
  indexId : IndexId
  tableId : RelationId
  tupleId : TupleId
  row : Row V
  operation : HnswOp

structure SavepointSnapshot where
  undoLogLen : Nat
  pendingAdjacencyLen : Nat
  pendingHnswLen : Nat

structure PendingTransaction (V R H G : Type) extends PendingWork V R H G where
  savepoints : ExtTreeMap Nat SavepointSnapshot := ∅
  undoLog : List (UndoAction V R H G) := []
  nextSavepointId : Nat := 0
  pendingAdjacency : List (PendingAdjacencyChange V) := []
  pendingHnsw : List (PendingHnswChange V) := []

variable {V R H G : Type}

/-! ## Slots and their undo actions -/

/-- What one undo action is about: an entry of a map, or the membership in a set. -/
inductive Slot where
  | tableWrites (tableId : RelationId)
  | createdTable (tableId : RelationId)
  | alteredTable (tableId : RelationId)
  | droppedTable (tableId : RelationId)
  | createdIndex (indexId : IndexId)
  | createdHnswIndex (indexId : IndexId)
  | createdGinIndex (indexId : IndexId)
  | droppedIndex (indexId : IndexId)
deriving DecidableEq

def UndoAction.slot : UndoAction V R H G → Slot
  | .tableWritesEntry t _ => .tableWrites t
  | .createdTableEntry t _ => .createdTable t
  | .alteredTableEntry t _ => .alteredTable t
  | .droppedTableMembership t _ => .droppedTable t
  | .createdIndexEntry i _ => .createdIndex i
  | .createdHnswIndexEntry i _ => .createdHnswIndex i
  | .createdGinIndexEntry i _ => .createdGinIndex i
  | .droppedIndexMembership i _ => .droppedIndex i

namespace PendingWork

def capture (w : PendingWork V R H G) : Slot → UndoAction V R H G
  | .tableWrites t => .tableWritesEntry t w.tableWrites[t]?
  | .createdTable t => .createdTableEntry t w.createdTables[t]?
  | .alteredTable t => .alteredTableEntry t w.alteredTables[t]?
  | .droppedTable t => .droppedTableMembership t (w.droppedTables.contains t)
  | .createdIndex i => .createdIndexEntry i w.createdIndexes[i]?
  | .createdHnswIndex i => .createdHnswIndexEntry i w.createdHnswIndexes[i]?
  | .createdGinIndex i => .createdGinIndexEntry i w.createdGinIndexes[i]?
  | .droppedIndex i => .droppedIndexMembership i (w.droppedIndexes.contains i)

def applyUndoAction (w : PendingWork V R H G) : UndoAction V R H G → PendingWork V R H G
  | .tableWritesEntry t previous =>
    { w with tableWrites := OrdMap.setEntry w.tableWrites t previous }
  | .createdTableEntry t previous =>
    { w with createdTables := OrdMap.setEntry w.createdTables t previous }
  | .alteredTableEntry t previous =>
    { w with alteredTables := OrdMap.setEntry w.alteredTables t previous }
  | .droppedTableMembership t wasPresent =>
    { w with droppedTables := OrdMap.setMember w.droppedTables t wasPresent }
  | .createdIndexEntry i previous =>
    { w with createdIndexes := OrdMap.setEntry w.createdIndexes i previous }
  | .createdHnswIndexEntry i previous =>
    { w with createdHnswIndexes := OrdMap.setEntry w.createdHnswIndexes i previous }
  | .createdGinIndexEntry i previous =>
    { w with createdGinIndexes := OrdMap.setEntry w.createdGinIndexes i previous }
  | .droppedIndexMembership i wasPresent =>
    { w with droppedIndexes := OrdMap.setMember w.droppedIndexes i wasPresent }

theorem ext_capture {w w' : PendingWork V R H G} (h : ∀ k, w.capture k = w'.capture k) :
    w = w' := by
  obtain ⟨tableWrites, createdTables, alteredTables, droppedTables, createdIndexes,
    createdHnswIndexes, createdGinIndexes, droppedIndexes⟩ := w
  have h1 := fun t => h (.tableWrites t)
  have h2 := fun t => h (.createdTable t)
  have h3 := fun t => h (.alteredTable t)
  have h4 := fun t => h (.droppedTable t)
  have h5 := fun i => h (.createdIndex i)
  have h6 := fun i => h (.createdHnswIndex i)
  have h7 := fun i => h (.createdGinIndex i)
  have h8 := fun i => h (.droppedIndex i)
  simp only [capture, UndoAction.tableWritesEntry.injEq, UndoAction.createdTableEntry.injEq,
    UndoAction.alteredTableEntry.injEq, UndoAction.droppedTableMembership.injEq,
    UndoAction.createdIndexEntry.injEq, UndoAction.createdHnswIndexEntry.injEq,
    UndoAction.createdGinIndexEntry.injEq, UndoAction.droppedIndexMembership.injEq,
    true_and] at h1 h2 h3 h4 h5 h6 h7 h8
  obtain rfl := ExtTreeMap.ext_getElem? h1
  obtain rfl := ExtTreeMap.ext_getElem? h2
  obtain rfl := ExtTreeMap.ext_getElem? h3
  obtain rfl := ExtTreeSet.ext_contains h4
  obtain rfl := ExtTreeMap.ext_getElem? h5
  obtain rfl := ExtTreeMap.ext_getElem? h6
  obtain rfl := ExtTreeMap.ext_getElem? h7
  obtain rfl := ExtTreeSet.ext_contains h8
  rfl

def slots : Undo.Slots (PendingWork V R H G) Slot (UndoAction V R H G) where
  slotOf := UndoAction.slot
  capture := capture
  apply := applyUndoAction
  slot_capture w k := by cases k <;> rfl
  capture_apply_self w a := by
    cases a <;> simp [capture, applyUndoAction, UndoAction.slot]
  capture_apply_of_ne w a k h := by
    cases a <;> cases k <;> simp_all [capture, applyUndoAction, UndoAction.slot]
  ext _ _ := ext_capture

end PendingWork

def idsForTable {I : Type} (tableOf : I → RelationId) (indexes : ExtTreeMap IndexId I)
    (tableId : RelationId) : List IndexId :=
  indexes.toList.filterMap fun (id, index) => if tableOf index = tableId then some id else none

def btreeTableId (i : IndexData V) : RelationId := i.descriptor.tableId

def hnswTableId (i : HnswIndex H) : RelationId := i.descriptor.tableId

def ginTableId (i : GinIndex G) : RelationId := i.descriptor.tableId

namespace PendingTransaction

/-! ## Recording undo actions -/

def latestSavepointUndoLogLen (p : PendingTransaction V R H G) : Option Nat :=
  (p.savepoints.toList.map (·.2.undoLogLen)).max?

/-- A slot is captured once after the latest savepoint, and never without one. -/
def recordUndo (p : PendingTransaction V R H G) (slot : Slot) : PendingTransaction V R H G :=
  match p.latestSavepointUndoLogLen with
  | none => p
  | some mark => { p with undoLog := PendingWork.slots.record mark p.toPendingWork p.undoLog slot }

def recordTableWritesUndo (p : PendingTransaction V R H G) (tableId : RelationId) :
    PendingTransaction V R H G :=
  p.recordUndo (.tableWrites tableId)

def recordCreatedTableUndo (p : PendingTransaction V R H G) (tableId : RelationId) :
    PendingTransaction V R H G :=
  p.recordUndo (.createdTable tableId)

def recordAlteredTableUndo (p : PendingTransaction V R H G) (tableId : RelationId) :
    PendingTransaction V R H G :=
  p.recordUndo (.alteredTable tableId)

def recordDroppedTableUndo (p : PendingTransaction V R H G) (tableId : RelationId) :
    PendingTransaction V R H G :=
  p.recordUndo (.droppedTable tableId)

def recordCreatedIndexUndo (p : PendingTransaction V R H G) (indexId : IndexId) :
    PendingTransaction V R H G :=
  p.recordUndo (.createdIndex indexId)

def recordCreatedHnswIndexUndo (p : PendingTransaction V R H G) (indexId : IndexId) :
    PendingTransaction V R H G :=
  p.recordUndo (.createdHnswIndex indexId)

def recordCreatedGinIndexUndo (p : PendingTransaction V R H G) (indexId : IndexId) :
    PendingTransaction V R H G :=
  p.recordUndo (.createdGinIndex indexId)

def recordDroppedIndexUndo (p : PendingTransaction V R H G) (indexId : IndexId) :
    PendingTransaction V R H G :=
  p.recordUndo (.droppedIndex indexId)

def recordCreatedIndexesForTableUndo (p : PendingTransaction V R H G) (tableId : RelationId) :
    PendingTransaction V R H G :=
  let p := (idsForTable btreeTableId p.createdIndexes tableId).foldl recordCreatedIndexUndo p
  let p := (idsForTable hnswTableId p.createdHnswIndexes tableId).foldl recordCreatedHnswIndexUndo p
  (idsForTable ginTableId p.createdGinIndexes tableId).foldl recordCreatedGinIndexUndo p

def recordPendingBaseTableMutationUndo (p : PendingTransaction V R H G) (tableId : RelationId) :
    PendingTransaction V R H G :=
  (p.recordTableWritesUndo tableId).recordCreatedIndexesForTableUndo tableId

def recordPendingCreatedTableMutationUndo (p : PendingTransaction V R H G)
    (tableId : RelationId) : PendingTransaction V R H G :=
  (p.recordCreatedTableUndo tableId).recordCreatedIndexesForTableUndo tableId

def recordPendingTableDefinitionUndo (p : PendingTransaction V R H G) (tableId : RelationId) :
    PendingTransaction V R H G :=
  let p := p.recordTableWritesUndo tableId
  let p := p.recordCreatedTableUndo tableId
  let p := p.recordAlteredTableUndo tableId
  let p := p.recordDroppedTableUndo tableId
  p.recordCreatedIndexesForTableUndo tableId

def recordPendingIndexDefinitionUndo (p : PendingTransaction V R H G) (indexId : IndexId) :
    PendingTransaction V R H G :=
  let p := p.recordCreatedIndexUndo indexId
  let p := p.recordCreatedHnswIndexUndo indexId
  let p := p.recordCreatedGinIndexUndo indexId
  p.recordDroppedIndexUndo indexId

/-! ## Savepoints -/

/-- Entries that no savepoint needs any more are dropped from the front of the log. -/
def compactPendingUndoLog (p : PendingTransaction V R H G) : PendingTransaction V R H G :=
  match (p.savepoints.toList.map (·.2.undoLogLen)).min? with
  | none => { p with undoLog := [] }
  | some minLen =>
    { p with
      undoLog := p.undoLog.drop minLen
      savepoints := p.savepoints.map fun _ snapshot =>
        { snapshot with undoLogLen := snapshot.undoLogLen - minLen } }

def createSavepoint (p : PendingTransaction V R H G) : Nat × PendingTransaction V R H G :=
  (p.nextSavepointId,
    { p with
      nextSavepointId := p.nextSavepointId + 1
      savepoints := p.savepoints.insert p.nextSavepointId
        { undoLogLen := p.undoLog.length
          pendingAdjacencyLen := p.pendingAdjacency.length
          pendingHnswLen := p.pendingHnsw.length } })

def undoTo (p : PendingTransaction V R H G) (undoLogLen : Nat) : PendingTransaction V R H G :=
  { p with
    toPendingWork := (p.undoLog.drop undoLogLen).reverse.foldl
      PendingWork.applyUndoAction p.toPendingWork
    undoLog := p.undoLog.take undoLogLen }

def rollbackToSavepoint (p : PendingTransaction V R H G) (savepointId : Nat) :
    DbResult (PendingTransaction V R H G) :=
  match p.savepoints[savepointId]? with
  | none => .error (.internalMsg "savepoint does not exist in storage")
  | some snapshot =>
    let p := p.undoTo snapshot.undoLogLen
    .ok (compactPendingUndoLog { p with
      pendingAdjacency := p.pendingAdjacency.take snapshot.pendingAdjacencyLen
      pendingHnsw := p.pendingHnsw.take snapshot.pendingHnswLen
      savepoints := p.savepoints.filter fun id _ => decide (id ≤ savepointId) })

def releaseSavepoint (p : PendingTransaction V R H G) (savepointId : Nat) :
    DbResult (PendingTransaction V R H G) :=
  if savepointId ∈ p.savepoints then
    .ok (compactPendingUndoLog { p with
      savepoints := p.savepoints.filter fun id _ => decide (id < savepointId) })
  else .error (.internalMsg "savepoint does not exist in storage")

end PendingTransaction

end AionDb
