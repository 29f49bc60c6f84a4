import AionDb.StoreApply
import AionDb.StoreEngine
import AionDb.StorePendingFrame

/-!
# Writes of a transaction that changes no definition

Such a transaction has no indexes of its own to keep up, so a write of a row
changes its pending transaction at one place: the write set of the table.
Each call of the engine either fails and changes nothing, or logs the write
and replaces that write set.
-/

namespace AionDb

open Std Effect StorageState

variable {V : Type} [Ord V] {w : TableWriteSet V} {I : Type} {tableId : RelationId} {q : Pending V}

omit [Ord V] in
theorem eq_empty_of_isEmpty_value [IsEmpty I] (m : ExtTreeMap IndexId (OpaqueIndex I)) : m = ∅ := by
  refine ExtTreeMap.ext_getElem? fun k => ?_
  cases h : m[k]? with
  | none => simp
  | some index => exact isEmptyElim index.contents

omit [Ord V] in
@[simp] theorem idsForTable_empty (tableOf : I → RelationId) (tableId : RelationId) :
    idsForTable tableOf ∅ tableId = [] := by
  simp [idsForTable]

structure SetsWrites (p : Pending V) (tableId : RelationId) (w : TableWriteSet V)
    (q : Pending V) : Prop where
  tableWrites : q.tableWrites = p.tableWrites.insert tableId w
  dataOnly : DataOnly q

def PendingTransaction.writesOf (p : Pending V) (tableId : RelationId) : TableWriteSet V :=
  p.tableWrites[tableId]?.getD {}

variable {p : Pending V}

omit [Ord V] in
theorem SetsWrites.pendingRow (h : SetsWrites p tableId w q) (t : RelationId)
    (id : TupleId) :
    q.pendingRow t id = if t = tableId then w.rows[id]? else p.pendingRow t id := by
  simp only [PendingTransaction.pendingRow, h.tableWrites, ExtTreeMap.getElem?_insert,
    Std.compare_eq_iff_eq, @eq_comm _ tableId]
  split <;> rfl

omit [Ord V] in
theorem PendingTransaction.rows_writesOf (p : Pending V) (tableId : RelationId) (id : TupleId) :
    (p.writesOf tableId).rows[id]? = p.pendingRow tableId id := by
  unfold writesOf pendingRow
  cases p.tableWrites[tableId]? <;> simp

omit [Ord V] in
theorem CreatedIndexes.rewrite_of_no_ids (field : CreatedIndexes V (Row V) Empty Empty I)
    (h : idsForTable field.tableOf (field.indexes p) tableId = []) (m : Eff I DbError Unit) :
    field.rewrite tableId m p = (.ok (), p) := by
  rw [CreatedIndexes.rewrite, get_bind_apply, h]
  rfl

theorem rewriteCreatedIndexes_dataOnly (hp : DataOnly p)
    (kernels : IndexKernels V Empty Empty) (descriptor : TableStorageDescriptor)
    (tableId : RelationId) (id : TupleId) (oldRow newRow : Option (Row V)) :
    rewriteCreatedIndexes kernels descriptor tableId id oldRow newRow p = (.ok (), p) := by
  rw [rewriteCreatedIndexes, bind_apply_of_ok (createdBtree.rewrite_of_no_ids ?_ _),
    bind_apply_of_ok (createdHnsw.rewrite_of_no_ids ?_ _), createdGin.rewrite_of_no_ids ?_]
  · show idsForTable ginTableId p.createdGinIndexes tableId = []
    simp [eq_empty_of_isEmpty_value p.createdGinIndexes]
  · show idsForTable hnswTableId p.createdHnswIndexes tableId = []
    simp [eq_empty_of_isEmpty_value p.createdHnswIndexes]
  · show idsForTable btreeTableId p.createdIndexes tableId = []
    simp [hp.createdIndexes]

/-- The first two steps of a write: the slots are captured and the write set is changed. -/
def startWrite (tableId : RelationId) (f : TableWriteSet V → TableWriteSet V) (p : Pending V) :
    Pending V :=
  (p.recordPendingBaseTableMutationUndo tableId).updateWrites tableId f

omit [Ord V] in
theorem startWrite_setsWrites (hp : DataOnly p) (tableId : RelationId)
    (f : TableWriteSet V → TableWriteSet V) :
    SetsWrites p tableId (f (p.writesOf tableId)) (startWrite tableId f p) := by
  have hwork : (p.recordPendingBaseTableMutationUndo tableId).toPendingWork = p.toPendingWork := by
    simp [PendingTransaction.recordPendingBaseTableMutationUndo_eq]
  have hstart : (startWrite tableId f p).toPendingWork =
      { p.toPendingWork with
        tableWrites := p.tableWrites.insert tableId (f (p.writesOf tableId)) } := by
    simp only [startWrite, PendingTransaction.updateWrites, hwork]
    rfl
  refine ⟨by rw [hstart], ?_, ?_, ?_, ?_, ?_⟩
  all_goals rw [hstart]
  exacts [hp.createdTables, hp.alteredTables, hp.droppedTables, hp.createdIndexes,
    hp.droppedIndexes]

omit [Ord V] in
theorem SetsWrites.push (h : SetsWrites p tableId w q) (hnswIds : List IndexId)
    (t : RelationId) (id : TupleId) (row : Row V) (op : HnswOp) :
    SetsWrites p tableId w (q.pushPendingHnswChanges hnswIds t id row op) :=
  ⟨h.tableWrites, ⟨h.dataOnly.createdTables, h.dataOnly.alteredTables, h.dataOnly.droppedTables,
    h.dataOnly.createdIndexes, h.dataOnly.droppedIndexes⟩⟩

section
variable {p : Pending V} (hp : DataOnly p) (kernels : IndexKernels V Empty Empty) (c : WriteContext)
include hp

theorem insertBase_dataOnly (row : Row V) :
    ∃ q, insertBase kernels c row none p = (.ok (), q) ∧
      SetsWrites p c.tableId
        ((p.writesOf c.tableId).recordPresent c.tupleId row c.baseNextHeapPosition) q := by
  have hstart := startWrite_setsWrites hp c.tableId
    (·.recordPresent c.tupleId row c.baseNextHeapPosition)
  have hrewrite := rewriteCreatedIndexes_dataOnly hstart.dataOnly kernels c.descriptor c.tableId
    c.tupleId none (some row)
  refine ⟨_, ?_, hstart.push c.committedHnswIndexIds c.tableId c.tupleId row .insert⟩
  rw [insertBase, modify_bind_apply, modify_bind_apply]
  exact bind_apply_of_ok hrewrite

theorem deleteBase_dataOnly (oldRow : Row V) :
    ∃ q, deleteBase kernels c oldRow none p = (.ok (), q) ∧
      SetsWrites p c.tableId ((p.writesOf c.tableId).recordDeleted c.tupleId) q := by
  have hstart := startWrite_setsWrites hp c.tableId (·.recordDeleted c.tupleId)
  have hrewrite := rewriteCreatedIndexes_dataOnly hstart.dataOnly kernels c.descriptor c.tableId
    c.tupleId (some oldRow) none
  refine ⟨_, ?_, hstart.push c.committedHnswIndexIds c.tableId c.tupleId oldRow .remove⟩
  rw [deleteBase, modify_bind_apply, modify_bind_apply]
  exact bind_apply_of_ok hrewrite

omit [Ord V] in
theorem createdInPlan_dataOnly {I : Type} (plan : IndexUpdateSet) (indexes : ExtTreeMap IndexId I)
    (ids : ExtTreeSet IndexId) : createdInPlan p plan indexes ids = [] := by
  simp [createdInPlan, hp.createdIndexes, eq_empty_of_isEmpty_value p.createdHnswIndexes,
    eq_empty_of_isEmpty_value p.createdGinIndexes]

theorem updateBase_dataOnly (plan : IndexUpdateSet) (oldRow row : Row V) :
    ∃ q, updateBase kernels c plan oldRow row none none p = (.ok (), q) ∧
      SetsWrites p c.tableId
        (((p.writesOf c.tableId).recordPresent c.tupleId row
          c.baseNextHeapPosition).setIndexUpdateSet c.tupleId plan) q := by
  have hstart := startWrite_setsWrites hp c.tableId fun w =>
    (w.recordPresent c.tupleId row c.baseNextHeapPosition).setIndexUpdateSet c.tupleId plan
  simp only [updateBase, createdInPlan_dataOnly hp]
  by_cases hhnsw : plan.hnswIndexIds.isEmpty = true
  · refine ⟨_, ?_, hstart⟩
    rw [updateBaseFor, modify_bind_apply, modify_bind_apply, if_pos hhnsw]
    rfl
  · refine ⟨_, ?_, (hstart.push c.committedHnswIndexIds c.tableId c.tupleId oldRow .remove).push
      c.committedHnswIndexIds c.tableId c.tupleId row .insert⟩
    rw [updateBaseFor, modify_bind_apply, modify_bind_apply, if_neg hhnsw]
    rfl

end

/-! ## The calls -/

omit [Ord V] in
theorem StorageState.tableView_dataOnly {s : StorageState V} {txn : TxnId}
    (hdata : ∀ p, s.activeTxns[txn]? = some p → DataOnly p) (tableId : RelationId) :
    s.tableView txn tableId = s.tables[tableId]?.map fun table =>
      .base table table.descriptor (s.activeTxns[txn]?.bind (·.tableWrites[tableId]?)) := by
  unfold tableView
  cases hp : s.activeTxns[txn]? with
  | none => simp
  | some p =>
    have := hdata p hp
    simp [this.droppedTables, this.createdTables, this.alteredTables]

omit [Ord V] in
theorem StorageState.activeTxn_eq_ok {s : StorageState V} {txn : TxnId} :
    s.activeTxn txn = .ok p ↔ s.activeTxns[txn]? = some p := by
  unfold activeTxn
  split <;> simp_all

namespace InMemoryStorage

variable {e : InMemoryStorage V} {txn : TxnId}

omit [Ord V] in
theorem editPending_log {m : PendingM V (Row V) Empty Empty Unit} {p q : Pending V}
    (hactive : e.state.activeTxns[txn]? = some p) (hq : m p = (.ok (), q)) (r : WalRecord V) :
    (e.log r).editPending txn m = (.ok (), (e.log r).setPending txn q) := by
  have hlog : (e.log r).state = e.state := rfl
  simp only [editPending, hlog, hactive, hq]

variable (hdata : ∀ p, e.state.activeTxns[txn]? = some p → DataOnly p) (tableId : RelationId)
include hdata

theorem insertTxn_spec (row : Row V) :
    (∃ error, e.insertTxn txn tableId row = (.error error, e)) ∨
    ∃ p table id q, e.state.activeTxns[txn]? = some p ∧ e.state.tables[tableId]? = some table ∧
      id = e.state.nextReservedTupleId table tableId ∧
      e.insertTxn txn tableId row =
        (.ok id, (e.log (.insertRow txn tableId id row)).setPending txn q) ∧
      SetsWrites p tableId
        ((p.writesOf tableId).recordPresent id row table.nextHeapPosition) q := by
  unfold insertTxn
  cases hprep : e.state.prepareInsert txn tableId row with
  | error error => exact .inl ⟨error, rfl⟩
  | ok w =>
    simp only [StorageState.prepareInsert, tableView_dataOnly hdata] at hprep
    cases htable : e.state.tables[tableId]? with
    | none => simp [htable] at hprep
    | some table =>
      simp only [htable, Option.map_some] at hprep
      obtain ⟨-, -, hprep⟩ := bind_eq_ok.mp hprep
      obtain ⟨-, -, hprep⟩ := bind_eq_ok.mp hprep
      obtain ⟨p, hp, hprep⟩ := bind_eq_ok.mp hprep
      obtain ⟨-, -, hprep⟩ := bind_eq_ok.mp hprep
      obtain ⟨-, -, hprep⟩ := bind_eq_ok.mp hprep
      cases hprep
      have hactive := activeTxn_eq_ok.mp hp
      obtain ⟨q, hq, hsets⟩ := insertBase_dataOnly (hdata p hactive) noKernels
        (StorageState.baseContext table.descriptor tableId
          (e.state.nextReservedTupleId table tableId) table) row
      refine .inr ⟨p, table, _, q, hactive, rfl, rfl, ?_, hsets⟩
      simp only [Bool.false_eq_true, if_false, editPending_log hactive hq]
      rfl

theorem updateTxn_spec [DecidableEq V] (id : TupleId) (row : Row V) :
    (∃ error, e.updateTxn txn tableId id row = (.error error, e)) ∨
    ∃ p table oldRow q, e.state.activeTxns[txn]? = some p ∧ e.state.tables[tableId]? = some table ∧
      overlaidRow table p.tableWrites[tableId]? id = some oldRow ∧
      e.updateTxn txn tableId id row =
        (.ok id, (e.log (.updateRow txn tableId id id row)).setPending txn q) ∧
      SetsWrites p tableId
        (((p.writesOf tableId).recordPresent id row table.nextHeapPosition).setIndexUpdateSet id
          (e.state.indexedColumnUpdatePlan tableId table.descriptor oldRow row)) q := by
  unfold updateTxn
  cases hprep : e.state.prepareUpdate txn tableId id row with
  | error error => exact .inl ⟨error, rfl⟩
  | ok w =>
    simp only [StorageState.prepareUpdate, tableView_dataOnly hdata] at hprep
    cases htable : e.state.tables[tableId]? with
    | none => simp [htable] at hprep
    | some table =>
      simp only [htable, Option.map_some] at hprep
      obtain ⟨-, -, hprep⟩ := bind_eq_ok.mp hprep
      cases hold : overlaidRow table (e.state.activeTxns[txn]?.bind (·.tableWrites[tableId]?))
        id with
      | none => simp [hold] at hprep
      | some oldRow =>
        simp only [hold] at hprep
        obtain ⟨p, hp, hprep⟩ := bind_eq_ok.mp hprep
        obtain ⟨-, -, hprep⟩ := bind_eq_ok.mp hprep
        obtain ⟨-, -, hprep⟩ := bind_eq_ok.mp hprep
        cases hprep
        have hactive := activeTxn_eq_ok.mp hp
        obtain ⟨q, hq, hsets⟩ := updateBase_dataOnly (hdata p hactive) noKernels
          (StorageState.baseContext table.descriptor tableId id table)
          (e.state.indexedColumnUpdatePlan tableId table.descriptor oldRow row) oldRow row
        rw [hactive] at hold
        refine .inr ⟨p, table, oldRow, q, hactive, rfl, hold, ?_, hsets⟩
        simp only [Bool.false_eq_true, if_false, Option.getD_some, editPending_log hactive hq]
        rfl

theorem deleteTxn_spec (id : TupleId) :
    (∃ result, e.deleteTxn txn tableId id = (result, e)) ∨
    ∃ p table oldRow q, e.state.activeTxns[txn]? = some p ∧ e.state.tables[tableId]? = some table ∧
      overlaidRow table p.tableWrites[tableId]? id = some oldRow ∧
      e.deleteTxn txn tableId id = (.ok (), (e.log (.deleteRow txn tableId id)).setPending txn q) ∧
      SetsWrites p tableId ((p.writesOf tableId).recordDeleted id) q := by
  unfold deleteTxn
  cases hprep : e.state.prepareDelete txn tableId id with
  | error error => exact .inl ⟨.error error, rfl⟩
  | ok w =>
    cases w with
    | none => exact .inl ⟨.ok (), rfl⟩
    | some w =>
      simp only [StorageState.prepareDelete, tableView_dataOnly hdata] at hprep
      cases htable : e.state.tables[tableId]? with
      | none => simp [htable] at hprep
      | some table =>
        simp only [htable, Option.map_some] at hprep
        cases hold : overlaidRow table
          (e.state.activeTxns[txn]?.bind (·.tableWrites[tableId]?)) id with
        | none => simp [hold] at hprep; cases hprep
        | some oldRow =>
          simp only [hold] at hprep
          obtain ⟨p, hp, hprep⟩ := bind_eq_ok.mp hprep
          obtain ⟨-, -, hprep⟩ := bind_eq_ok.mp hprep
          cases hprep
          have hactive := activeTxn_eq_ok.mp hp
          obtain ⟨q, hq, hsets⟩ := deleteBase_dataOnly (hdata p hactive) noKernels
            (StorageState.baseContext table.descriptor tableId id table) oldRow
          rw [hactive] at hold
          refine .inr ⟨p, table, oldRow, q, hactive, rfl, hold, ?_, hsets⟩
          simp only [Bool.false_eq_true, if_false, Option.getD_some, editPending_log hactive hq]

end InMemoryStorage

end AionDb
