import AionDb.StoreCommit
import AionDb.StoreHeapSpec

/-!
# What a commit does to the heaps

Publishing the pending rows of a transaction goes through one tuple after
another and maintains the indexes on the way. Seen from a table, every tuple
with a pending row takes one `TupleStep` and every other tuple stays: which
order the rows are published in and what happens to the indexes does not show.
-/

namespace AionDb

open Std Effect ExtTreeMap List TableData

variable {V : Type}

inductive TupleStep (txn : TxnId) :
    PendingRowState V → Option (HeapTuple (Row V)) → Option (HeapTuple (Row V)) → Prop where
  | present {row : Row V} {old : Option (HeapTuple (Row V))} {new : HeapTuple (Row V)}
      (h : Publishes txn row old new) : TupleStep txn (.present row) old (some new)
  | deleted {old : Option (HeapTuple (Row V))} {new : HeapTuple (Row V)}
      (h : Retires txn old new) : TupleStep txn .deleted old (some new)
  | absent {old : Option (HeapTuple (Row V))} (h : old.bind (·.latest) = none) :
      TupleStep txn .deleted old old

/-- A table before and after the pending rows `writes` of a transaction are published. -/
structure Applied (txn : TxnId) (writes : TupleId → Option (PendingRowState V))
    (t t' : TableData (Row V)) : Prop where
  touched : ∀ id st, writes id = some st → TupleStep txn st t.heap[id]? t'.heap[id]?
  kept : ∀ id, writes id = none → t'.heap[id]? = t.heap[id]?
  descriptor : t'.descriptor = t.descriptor
  next_le : t.nextTupleId ≤ t'.nextTupleId
  skipped : ∀ id row, writes id = some (.present row) → t.loadLatestRow id = none →
    id < t'.nextTupleId

def PendingRowState.row? : PendingRowState V → Option (Row V)
  | .present row => some row
  | .deleted => none

variable {txn : TxnId}

theorem TupleStep.latest_row {st : PendingRowState V}
    {old new : Option (HeapTuple (Row V))} (h : TupleStep txn st old new) :
    (new.bind (·.latest)).map (·.row) = st.row? := by
  cases h with
  | present h => exact h.latest_row
  | deleted h => simp [h.latest, PendingRowState.row?]
  | absent h => simp [h, PendingRowState.row?]

namespace Applied

variable {txn : TxnId} {writes : TupleId → Option (PendingRowState V)}
  {t t' t'' : TableData (Row V)}

theorem loadLatestRow (h : Applied txn writes t t') (id : TupleId) :
    t'.loadLatestRow id = (writes id).elim (t.loadLatestRow id) (·.row?) := by
  cases hid : writes id with
  | none => simp [loadLatestRow_eq, h.kept id hid]
  | some st => exact (h.touched id st hid).latest_row

theorem refl (txn : TxnId) (t : TableData (Row V)) : Applied txn (fun _ => none) t t :=
  ⟨by simp, fun _ _ => rfl, rfl, le_rfl, by simp⟩

theorem then_kept (h : Applied txn writes t t') (h' : Applied txn (fun _ => none) t' t'') :
    Applied txn writes t t'' where
  touched id st hst := h'.kept id rfl ▸ h.touched id st hst
  kept id hid := (h'.kept id rfl).trans (h.kept id hid)
  descriptor := h'.descriptor.trans h.descriptor
  next_le := Nat.le_trans h.next_le h'.next_le
  skipped id row hrow hlatest := Nat.lt_of_lt_of_le (h.skipped id row hrow hlatest) h'.next_le

theorem cons {id : TupleId} {st : PendingRowState V} {new : Option (HeapTuple (Row V))}
    (hnext : t.nextTupleId ≤ t'.nextTupleId) (hdesc : t'.descriptor = t.descriptor)
    (hskip : ∀ row, st = .present row → t.loadLatestRow id = none → id < t'.nextTupleId)
    (hstep : TupleStep txn st t.heap[id]? new)
    (hheap : ∀ id', t'.heap[id']? = if id' = id then new else t.heap[id']?)
    (hnone : writes id = none) (h : Applied txn writes t' t'') :
    Applied txn (fun id' => if id' = id then some st else writes id') t t'' where
  touched id' st' hst' := by
    split at hst'
    case isTrue heq =>
      cases hst'
      subst heq
      rw [h.kept id' hnone, hheap, if_pos rfl]
      exact hstep
    case isFalse hne =>
      have := h.touched id' st' hst'
      rwa [hheap, if_neg hne] at this
  kept id' hid' := by
    split at hid'
    · cases hid'
    case isFalse hne => rw [h.kept id' hid', hheap, if_neg hne]
  descriptor := h.descriptor.trans hdesc
  next_le := Nat.le_trans hnext h.next_le
  skipped id' row hrow hlatest := by
    split at hrow
    case isTrue heq =>
      cases hrow
      subst heq
      exact Nat.lt_of_lt_of_le (hskip row rfl hlatest) h.next_le
    case isFalse hne =>
      refine h.skipped id' row hrow ?_
      rwa [loadLatestRow_eq, hheap, if_neg hne, ← loadLatestRow_eq]

end Applied

namespace StorageState

variable {s s' : StorageState V}

/-! ## The indexes are maintained apart from the heaps -/

@[simp] theorem tables_setTable (s : StorageState V) (tableId : RelationId)
    (table : TableData (Row V)) (tableId' : RelationId) :
    (s.setTable tableId table).tables[tableId']? =
      if tableId' = tableId then some table else s.tables[tableId']? := by
  simp [setTable, ExtTreeMap.getElem?_insert, @eq_comm _ tableId]

/-- The same tables and transactions; only the indexes may differ. -/
structure SameHeaps (s s' : StorageState V) : Prop where
  tables : s'.tables = s.tables
  activeTxns : s'.activeTxns = s.activeTxns

variable [Ord V] {tupleId : TupleId} {table : TableData (Row V)}
  {descriptor : TableStorageDescriptor} {oldRows : OldRows V} {tableId : RelationId}

theorem removePlannedEntries_sameHeaps {plan : IndexUpdateSet} {oldRow : Option (Row V)}
    (h : s.removePlannedEntries tableId descriptor tupleId plan oldRow = .ok s') :
    SameHeaps s s' := by
  cases oldRow with
  | none =>
    cases h
    exact ⟨rfl, rfl⟩
  | some row =>
    obtain ⟨entries, -, h⟩ := bind_eq_ok.mp h
    cases h
    exact ⟨rfl, rfl⟩

theorem removeBaseIndexEntries_sameHeaps {row : Row V}
    (h : s.removeBaseIndexEntries tableId descriptor tupleId row = .ok s') : SameHeaps s s' := by
  obtain ⟨keyed, -, h⟩ := bind_eq_ok.mp h
  cases h
  exact ⟨rfl, rfl⟩

/-! ## One row, one table, one transaction -/

/-- `s'` is `s` with one table replaced, up to the indexes. -/
structure SetsTable (s : StorageState V) (tableId : RelationId) (table : TableData (Row V))
    (s' : StorageState V) : Prop where
  tables : ∀ tableId' : RelationId,
    s'.tables[tableId']? = if tableId' = tableId then some table else s.tables[tableId']?
  activeTxns : s'.activeTxns = s.activeTxns

omit [Ord V] in
theorem SetsTable.refl (htable : s.tables[tableId]? = some table) :
    SetsTable s tableId table s where
  tables t := by
    split
    case isTrue heq => rw [heq, htable]
    case isFalse => rfl
  activeTxns := rfl

variable {writes : TableWriteSet V}

theorem applyRow_spec {entry : TupleId × PendingRowState V}
    (htable : s.tables[tableId]? = some table)
    (h : applyRow txn tableId writes oldRows s entry = .ok s') :
    ∃ table' new, SetsTable s tableId table' s' ∧
      TupleStep txn entry.2 table.heap[entry.1]? new ∧
      (∀ id : TupleId, table'.heap[id]? = if id = entry.1 then new else table.heap[id]?) ∧
      table'.descriptor = table.descriptor ∧ table.nextTupleId ≤ table'.nextTupleId ∧
      (∀ row, entry.2 = .present row → table.loadLatestRow entry.1 = none →
        entry.1 < table'.nextTupleId) := by
  obtain ⟨id, st⟩ := entry
  simp only [applyRow, htable] at h
  cases st with
  | present row =>
    obtain ⟨table', hcommit, h⟩ := bind_eq_ok.mp h
    obtain ⟨s1, hremove, h⟩ := bind_eq_ok.mp h
    obtain ⟨entries, -, h⟩ := bind_eq_ok.mp h
    cases h
    obtain ⟨new, hpub, hsets, hnext⟩ := commitPresent_spec hcommit
    have hsame := removePlannedEntries_sameHeaps hremove
    refine ⟨table', some new, ⟨fun t => ?_, hsame.activeTxns⟩, .present hpub, hsets.getElem?,
      hsets.descriptor, ?_, ?_⟩
    · show s1.tables[t]? = _
      rw [hsame.tables, tables_setTable]
    · rw [hnext]
      split
      · exact le_rfl
      · exact Nat.le_max_left ..
    · intro _ _ hlatest
      have hdead : table.hasLiveTuple id = false := by simp [TableData.hasLiveTuple, hlatest]
      rw [hnext, if_neg (by simp [hdead])]
      exact Nat.lt_of_lt_of_le (Nat.lt_succ_self id) (Nat.le_max_right ..)
  | deleted =>
    simp only [applyDeletedRow] at h
    cases hrow : table.loadLatestRow id with
    | none =>
      simp only [hrow] at h
      cases h
      refine ⟨table, table.heap[id]?, .refl htable, .absent ?_, fun id' => ?_, rfl, le_rfl, by simp⟩
      · simpa [loadLatestRow_eq] using hrow
      · split
        case isTrue heq => rw [heq]
        case isFalse => rfl
    | some committed =>
      simp only [hrow] at h
      obtain ⟨table', hcommit, h⟩ := bind_eq_ok.mp h
      obtain ⟨new, hret, hsets, hnext⟩ := commitDeleted_spec hcommit
      have hsame := removeBaseIndexEntries_sameHeaps h
      refine ⟨table', some new, ⟨fun t => ?_, hsame.activeTxns⟩, .deleted hret, hsets.getElem?,
        hsets.descriptor, hnext.ge, by simp⟩
      rw [hsame.tables, tables_setTable]

theorem applyRows_spec {rows : List (TupleId × PendingRowState V)}
    (hnodup : (rows.map (·.1)).Nodup) (htable : s.tables[tableId]? = some table)
    (h : rows.foldlM (applyRow txn tableId writes oldRows) s = .ok s') :
    ∃ table', SetsTable s tableId table' s' ∧ Applied txn (rows.lookup ·) table table' := by
  induction rows generalizing s table with
  | nil =>
    cases foldlM_nil_eq_ok.mp h
    exact ⟨table, .refl htable, .refl txn table⟩
  | cons entry rows ih =>
    obtain ⟨id, st⟩ := entry
    obtain ⟨hnot, hnodup⟩ := nodup_cons.mp hnodup
    obtain ⟨s1, hrow, hrest⟩ := foldlM_cons_eq_ok.mp h
    obtain ⟨table1, new, hsets, hstep, hheap, hdesc, hnext, hskip⟩ := applyRow_spec htable hrow
    obtain ⟨table', hsets', happ⟩ :=
      ih hnodup ((hsets.tables tableId).trans (if_pos rfl)) hrest
    refine ⟨table', ⟨fun t => ?_, hsets'.activeTxns.trans hsets.activeTxns⟩, ?_⟩
    · rw [hsets'.tables, hsets.tables]
      split <;> rfl
    have hcons := Applied.cons hnext hdesc hskip hstep hheap (OrdMap.lookup_eq_none hnot) happ
    have heq : (fun id' => if id' = id then some st else rows.lookup id') =
        fun id' => ((id, st) :: rows).lookup id' := by
      funext id'
      rw [lookup_cons]
      by_cases hid : id' = id <;> simp [hid, beq_eq_false_iff_ne.mpr]
    rwa [heq] at hcons

theorem applyTableWrites_spec
    (htable : s.tables[tableId]? = some table)
    (h : applyTableWrites txn oldRows s tableId writes = .ok s') :
    ∃ table', SetsTable s tableId table' s' ∧ Applied txn (writes.rows[·]?) table table' := by
  have hmem : tableId ∈ s.tables := mem_iff_isSome_getElem?.mpr (by simp [htable])
  have hperm : (orderedRows writes).Perm writes.rows.toList := perm_insertionSort ..
  have hnodup : ((orderedRows writes).map (·.1)).Nodup :=
    (hperm.map _).nodup_iff.mpr (OrdMap.nodup_keys_toList writes.rows)
  simp only [applyTableWrites, hmem, not_true_eq_false, if_false] at h
  obtain ⟨table', hsets, happ⟩ := applyRows_spec hnodup htable h
  have hlookup : (fun id => (orderedRows writes).lookup id) = fun id : TupleId => writes.rows[id]? :=
    funext fun id => OrdMap.lookup_toList writes.rows hperm id
  exact ⟨table', hsets, hlookup ▸ happ⟩

end StorageState

def PendingTransaction.pendingRow (p : Pending V) (tableId : RelationId) (id : TupleId) :
    Option (PendingRowState V) :=
  p.tableWrites[tableId]?.bind (·.rows[id]?)

/-- A transaction that has changed no definition. -/
structure DataOnly (p : Pending V) : Prop where
  createdTables : p.createdTables = ∅
  alteredTables : p.alteredTables = ∅
  droppedTables : p.droppedTables = ∅
  createdIndexes : p.createdIndexes = ∅
  droppedIndexes : p.droppedIndexes = ∅

structure CommitsRows (txn : TxnId) (rows : RelationId → TupleId → Option (PendingRowState V))
    (s s' : StorageState V) : Prop where
  tables : ∀ tableId : RelationId,
    Option.Rel (Applied txn (rows tableId)) s.tables[tableId]? s'.tables[tableId]?
  activeTxns : s'.activeTxns = s.activeTxns

namespace StorageState

variable [Ord V] {s s' : StorageState V}

theorem applyPendingTransaction_eq {p : Pending V} (hp : DataOnly p) (txn : TxnId)
    (oldRows : OldRows V) (s : StorageState V) :
    s.applyPendingTransaction txn p oldRows =
      p.tableWrites.toList.foldlM (fun s w => applyTableWrites txn oldRows s w.1 w.2) s := by
  have hcreated : s.publishCreatedTables p = s := by
    simp [publishCreatedTables, hp.createdTables]
  have hindexes : ∀ m : StorageState V, (m.publishIndexes p).removeDroppedTables p = m := by
    intro m
    simp [publishIndexes, removeDroppedTables, hp.droppedIndexes, hp.createdIndexes,
      hp.droppedTables]
  simp [applyPendingTransaction, hcreated, hindexes, hp.alteredTables, hp.droppedTables]

theorem applyAllWrites_spec {oldRows : OldRows V}
    {l : List (RelationId × TableWriteSet V)} (hnodup : (l.map (·.1)).Nodup)
    (h : l.foldlM (fun s w => applyTableWrites txn oldRows s w.1 w.2) s = .ok s') :
    CommitsRows txn (fun tableId id => (l.lookup tableId).bind (·.rows[id]?)) s s' := by
  induction l generalizing s with
  | nil =>
    cases foldlM_nil_eq_ok.mp h
    refine ⟨fun tableId => ?_, rfl⟩
    cases s'.tables[tableId]? with
    | none => exact .none
    | some table => exact .some (Applied.refl txn table)
  | cons w l ih =>
    obtain ⟨tableId, writes⟩ := w
    obtain ⟨hnot, hnodup⟩ := nodup_cons.mp hnodup
    obtain ⟨s1, hw, hrest⟩ := foldlM_cons_eq_ok.mp h
    have hcommits := ih hnodup hrest
    have hnone : l.lookup tableId = none := OrdMap.lookup_eq_none hnot
    have hother : ∀ t, t ≠ tableId → ((tableId, writes) :: l).lookup t = l.lookup t := by
      intro t ht
      rw [lookup_cons, beq_eq_false_iff_ne.mpr ht]
    have hself : ((tableId, writes) :: l).lookup tableId = some writes := by simp
    cases htable : s.tables[tableId]? with
    | none =>
      have hmem : tableId ∉ s.tables := by
        simp [mem_iff_isSome_getElem?, htable]
      simp only [applyTableWrites, hmem, not_false_eq_true, if_true] at hw
      cases hw
      refine ⟨fun t => ?_, hcommits.activeTxns⟩
      by_cases ht : t = tableId
      · subst ht
        have := hcommits.tables t
        rw [htable] at this ⊢
        generalize s'.tables[t]? = final at this
        cases this
        exact .none
      · simpa only [hother t ht] using hcommits.tables t
    | some table =>
      obtain ⟨table', hsets, happ⟩ := applyTableWrites_spec htable hw
      refine ⟨fun t => ?_, hcommits.activeTxns.trans hsets.activeTxns⟩
      have := hcommits.tables t
      rw [hsets.tables] at this
      by_cases ht : t = tableId
      · subst ht
        rw [if_pos rfl, hnone] at this
        rw [htable, hself]
        generalize s'.tables[t]? = final at this
        cases this with
        | some hrest => exact .some (happ.then_kept hrest)
      · rw [if_neg ht] at this
        simpa only [hother t ht] using this

theorem applyPendingTransaction_spec {p : Pending V} (hp : DataOnly p)
    {oldRows : OldRows V} (h : s.applyPendingTransaction txn p oldRows = .ok s') :
    CommitsRows txn p.pendingRow s s' := by
  rw [applyPendingTransaction_eq hp] at h
  have hcommits := applyAllWrites_spec (OrdMap.nodup_keys_toList p.tableWrites) h
  have hlookup : (fun tableId id => (p.tableWrites.toList.lookup tableId).bind (·.rows[id]?)) =
      p.pendingRow := by
    funext tableId id
    rw [OrdMap.lookup_toList p.tableWrites (.refl _)]
    rfl
  rwa [hlookup] at hcommits

end StorageState

end AionDb
