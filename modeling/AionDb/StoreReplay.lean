import AionDb.StoreApply
import AionDb.StoreIndexSpec
import AionDb.StorePendingFrame
import AionDb.StoreRecovery

/-!
# What replay rebuilds

Seen from outside, a state is the descriptor of each table (`tableDef`) and the
live row of each tuple (`rowAt`). Replaying the record of a row that fits its
table goes well and sets that row; building a snapshot of a sound state without
duplicates goes well and gives back all its tables and rows.
-/

namespace AionDb

open Std Effect ExtTreeMap List Option TableData

variable {V : Type}

namespace TableData

variable {R : Type} {t : TableData R}

theorem mem_liveRows {id : TupleId} {row : R} :
    (id, row) ∈ t.liveRows ↔ t.loadLatestRow id = some row := by
  simp only [liveRows, mem_filterMap, map_eq_some_iff, Prod.mk.injEq]
  constructor
  · rintro ⟨_, _, _, hrow, rfl, rfl⟩
    exact hrow
  · intro hrow
    exact ⟨id, mem_keys.mpr (mem_heap_of_loadLatestRow hrow), row, hrow, rfl, rfl⟩

theorem loadLatestRow_commitInsert (t : TableData R) (id : TupleId) (txn : TxnId) (row : R)
    (id' : TupleId) : ((t.commitInsert id txn row).skipTupleId id).loadLatestRow id' =
      if id' = id then some row else t.loadLatestRow id' := by
  obtain ⟨v, hv, hrow, -, hsets⟩ := t.commitInsert_spec id txn row
  rw [loadLatestRow_eq, heap_skipTupleId, ← loadLatestRow_eq, hsets.loadLatestRow]
  simp [hrow]

theorem loadLatestRow_rebuilt (descriptor : TableStorageDescriptor) (rows : List (TupleId × R))
    (hrows : ∀ id a b, (id, a) ∈ rows → (id, b) ∈ rows → a = b) {id : TupleId} {row : R} :
    (rebuilt descriptor rows).loadLatestRow id = some row ↔ (id, row) ∈ rows := by
  suffices h : ∀ t : TableData R, (rows.foldl (fun t p =>
      (t.commitInsert p.1 0 p.2).skipTupleId p.1) t).loadLatestRow id = some row ↔
      (id, row) ∈ rows ∨ (∀ a, (id, a) ∉ rows) ∧ t.loadLatestRow id = some row by
    simpa [rebuilt, loadLatestRow_eq] using h { descriptor }
  induction rows with
  | nil => simp
  | cons r rows ih =>
    intro t
    obtain ⟨id0, row0⟩ := r
    have hrest := ih (fun i a b ha hb => hrows i a b (mem_cons_of_mem _ ha) (mem_cons_of_mem _ hb))
    rw [foldl_cons, hrest, loadLatestRow_commitInsert]
    have hfirst : ∀ a, (id0, a) ∈ rows → a = row0 := fun a ha =>
      hrows id0 a row0 (mem_cons_of_mem _ ha) (mem_cons_self ..)
    by_cases hid : id = id0
    · subst hid
      simp only [if_true, Option.some.injEq, mem_cons, Prod.mk.injEq, true_and]
      grind
    · simp [hid]

theorem descriptor_rebuilt (descriptor : TableStorageDescriptor) (rows : List (TupleId × R)) :
    (rebuilt descriptor rows).descriptor = descriptor := by
  suffices h : ∀ t : TableData R, t.descriptor = descriptor → (rows.foldl (fun t p =>
      (t.commitInsert p.1 0 p.2).skipTupleId p.1) t).descriptor = descriptor from h _ rfl
  induction rows with
  | nil => exact fun _ h => h
  | cons r rows ih => exact fun t ht => ih _ (by simpa [commitInsert, allocateHeapPosition] using ht)

def restored (t : TableData R) : TableData R := rebuilt t.descriptor t.liveRows

@[simp] theorem descriptor_restored (t : TableData R) : t.restored.descriptor = t.descriptor :=
  descriptor_rebuilt ..

@[simp] theorem loadLatestRow_restored (t : TableData R) (id : TupleId) :
    t.restored.loadLatestRow id = t.loadLatestRow id := by
  refine Option.ext fun row => (loadLatestRow_rebuilt t.descriptor t.liveRows ?_).trans mem_liveRows
  intro i a b ha hb
  rw [mem_liveRows] at ha hb
  exact Option.some.inj (ha.symm.trans hb)

end TableData

namespace StorageState

def tableDef (s : StorageState V) (tableId : RelationId) : Option TableStorageDescriptor :=
  s.tables[tableId]?.map (·.descriptor)

def rowAt (s : StorageState V) (tableId : RelationId) (tupleId : TupleId) : Option (Row V) :=
  s.tables[tableId]?.bind (·.loadLatestRow tupleId)

/-- Every table is under its own id, its rows are as wide as it is, and the indexes are made of
columns their tables have. -/
structure Sound (s : StorageState V) : Prop where
  tableId : ∀ (tableId : RelationId) (d : TableStorageDescriptor), s.tableDef tableId = some d →
    d.tableId = tableId
  width : ∀ (tableId : RelationId) (d : TableStorageDescriptor), s.tableDef tableId = some d →
    ∀ (tupleId : TupleId) (row : Row V), s.rowAt tableId tupleId = some row →
      row.length = d.columns.length
  fits : ∀ (indexId : IndexId) (index : IndexData V), s.indexes[indexId]? = some index →
    ∀ d, s.tableDef index.descriptor.tableId = some d → index.descriptor.Fits d ∧
      index.coveringColumnIds = defaultCoveringColumnIds index.descriptor d

/-- No two live rows have the same key in a unique index of their table. -/
def UniqueKeys [Ord V] (s : StorageState V) : Prop :=
  ∀ p ∈ s.indexes.toList, p.2.descriptor.unique = true →
    ∀ t ∈ s.tables[p.2.descriptor.tableId]?, ∀ a ∈ t.liveRows, ∀ b ∈ t.liveRows, a.1 ≠ b.1 →
      ¬ UniqueConflict p.2.descriptor t.descriptor a.2 b.2

instance [Ord V] (s : StorageState V) : Decidable s.UniqueKeys := by
  unfold UniqueKeys
  infer_instance

structure SameRows (s s' : StorageState V) : Prop where
  tableDef : ∀ tableId, s'.tableDef tableId = s.tableDef tableId
  rowAt : ∀ tableId tupleId, s'.rowAt tableId tupleId = s.rowAt tableId tupleId

structure SetsRow (s : StorageState V) (tableId : RelationId) (tupleId : TupleId) (row : Row V)
    (s' : StorageState V) : Prop where
  tableDef : ∀ tableId', s'.tableDef tableId' = s.tableDef tableId'
  rowAt : ∀ tableId' tupleId', s'.rowAt tableId' tupleId' =
    if tableId' = tableId ∧ tupleId' = tupleId then some row else s.rowAt tableId' tupleId'

def SameIndexDefs (s s' : StorageState V) : Prop :=
  ∀ (indexId : IndexId) (index' : IndexData V), s'.indexes[indexId]? = some index' →
    ∃ index, s.indexes[indexId]? = some index ∧ index'.descriptor = index.descriptor ∧
      index'.coveringColumnIds = index.coveringColumnIds

variable {s s' : StorageState V} {tupleId : TupleId} {index : IndexData V} {row : Row V}
  {indexId : IndexId} {t' : TableData (Row V)} {tableId : RelationId} {d : TableStorageDescriptor}

theorem Sound.setsRow (hs : s.Sound) (hset : SetsRow s tableId tupleId row s')
    (hdef : s.tableDef tableId = some d) (hrow : row.length = d.columns.length)
    (hindexes : SameIndexDefs s s') : s'.Sound where
  tableId t d' hd' := hs.tableId t d' (hset.tableDef t ▸ hd')
  width t d' hd' id r hr := by
    rw [hset.tableDef] at hd'
    rw [hset.rowAt] at hr
    split at hr
    case isTrue heq =>
      cases hr
      rw [heq.1, hdef] at hd'
      cases hd'
      exact hrow
    case isFalse => exact hs.width t d' hd' id r hr
  fits indexId index' hindex' d' hd' := by
    obtain ⟨index, hindex, hdesc, hcovering⟩ := hindexes indexId index' hindex'
    rw [hset.tableDef, hdesc] at hd'
    rw [hdesc, hcovering]
    exact hs.fits indexId index hindex d' hd'

theorem tableDef_eq_some :
    s.tableDef tableId = some d ↔ ∃ t, s.tables[tableId]? = some t ∧ t.descriptor = d :=
  map_eq_some_iff

theorem tableDef_of_table {t : TableData (Row V)} (ht : s.tables[tableId]? = some t) :
    s.tableDef tableId = some t.descriptor :=
  tableDef_eq_some.mpr ⟨t, ht, rfl⟩

theorem sound_of_toList (htables : ∀ p ∈ s.tables.toList, p.2.descriptor.tableId = p.1 ∧
      ∀ r ∈ p.2.liveRows, r.2.length = p.2.descriptor.columns.length)
    (hindexes : ∀ p ∈ s.indexes.toList, ∀ d ∈ s.tableDef p.2.descriptor.tableId,
      p.2.descriptor.Fits d ∧ p.2.coveringColumnIds = defaultCoveringColumnIds p.2.descriptor d) :
    s.Sound where
  tableId id d hd := by
    obtain ⟨t, ht, rfl⟩ := tableDef_eq_some.mp hd
    exact (htables (id, t) (mem_toList_iff_getElem?_eq_some.mpr ht)).1
  width id d hd tupleId row hrow := by
    obtain ⟨t, ht, rfl⟩ := tableDef_eq_some.mp hd
    simp only [rowAt, ht, bind_some] at hrow
    exact (htables (id, t) (mem_toList_iff_getElem?_eq_some.mpr ht)).2 _ (mem_liveRows.mpr hrow)
  fits id index hindex d hd :=
    hindexes (id, index) (mem_toList_iff_getElem?_eq_some.mpr hindex) d hd

theorem setsRow_setTable {t : TableData (Row V)} (ht : s.tables[tableId]? = some t)
    (hdesc : t'.descriptor = t.descriptor)
    (hrow : ∀ id, t'.loadLatestRow id = if id = tupleId then some row else t.loadLatestRow id)
    (htables : s'.tables = (s.setTable tableId t').tables) : SetsRow s tableId tupleId row s' where
  tableDef tableId' := by
    simp only [tableDef, htables, tables_setTable]
    split
    case isTrue heq => simp [heq, ht, hdesc]
    case isFalse => rfl
  rowAt tableId' id := by
    simp only [rowAt, htables, tables_setTable]
    split
    case isTrue heq => simp [heq, ht, hrow]
    case isFalse hne => simp [hne]

theorem sameRows_setTable {t : TableData (Row V)} (ht : s.tables[tableId]? = some t)
    (hdesc : t'.descriptor = t.descriptor) (hrows : t'.loadLatestRow = t.loadLatestRow) :
    SameRows s (s.setTable tableId t') where
  tableDef tableId' := by
    rw [tableDef, tables_setTable]
    split
    case isTrue heq => simp [tableDef, heq, ht, hdesc]
    case isFalse => rfl
  rowAt tableId' id := by
    rw [rowAt, tables_setTable]
    split
    case isTrue heq => simp [rowAt, heq, ht, hrows]
    case isFalse => rfl

theorem Sound.sameRows (hs : s.Sound) (h : SameRows s s') (hindexes : s'.indexes = s.indexes) :
    s'.Sound where
  tableId t d hd := hs.tableId t d (h.tableDef t ▸ hd)
  width t d hd id row hrow := hs.width t d (h.tableDef t ▸ hd) id row (h.rowAt t id ▸ hrow)
  fits indexId index hindex d hd := hs.fits indexId index (hindexes ▸ hindex) d (h.tableDef _ ▸ hd)

/-! ## Index entries -/

theorem map_getElem?_foldl_modify {α β : Type} {f : α → IndexData V → IndexData V}
    {k : α → IndexId} {g : IndexData V → β} (hf : ∀ a i, g (f a i) = g i) (l : List α)
    (m : ExtTreeMap IndexId (IndexData V)) (indexId : IndexId) :
    (l.foldl (fun m a => m.modify (k a) (f a)) m)[indexId]?.map g = m[indexId]?.map g := by
  induction l generalizing m with
  | nil => rfl
  | cons a l ih =>
    rw [foldl_cons, ih, ExtTreeMap.getElem?_modify]
    split
    · next heq =>
      rw [Std.compare_eq_iff_eq] at heq
      subst heq
      simp [Option.map_map, Function.comp_def, hf]
    · rfl

variable [Ord V]

theorem appendPrepared_sameIndexDefs (s : StorageState V)
    (prepared : List (PreparedBaseIndexInsert V)) (tupleId : TupleId) :
    SameIndexDefs s (s.appendPreparedBaseIndexEntries prepared tupleId) := by
  intro indexId index' hindex'
  have h := map_getElem?_foldl_modify (k := PreparedBaseIndexInsert.indexId)
    (f := fun e i => i.insertPrebuiltEntryUnchecked e.key tupleId e.coveringRow)
    (g := fun i => (i.descriptor, i.coveringColumnIds)) (fun _ _ => rfl) prepared s.indexes indexId
  obtain ⟨index, hindex, hdef⟩ := map_eq_some_iff.mp (h.symm.trans (congrArg _ hindex'))
  obtain ⟨hdesc, hcovering⟩ := Prod.mk.inj hdef
  exact ⟨index, hindex, hdesc.symm, hcovering.symm⟩

omit [Ord V] in
theorem mem_selectIndexes {indexes : ExtTreeMap IndexId (IndexData V)} {indexIds : List IndexId}
    (h : (indexId, index) ∈ selectIndexes indexes tableId indexIds) :
    indexes[indexId]? = some index ∧ index.descriptor.tableId = tableId := by
  simp only [selectIndexes, mem_filterMap, map_eq_some_iff, filter_eq_some_iff, Prod.mk.injEq] at h
  obtain ⟨id, -, i, ⟨hi, htable⟩, rfl, rfl⟩ := h
  exact ⟨hi, of_decide_eq_true htable⟩

section

variable (hs : s.Sound) (hdef : s.tableDef tableId = some d) (hrow : row.length = d.columns.length)
include hs hdef hrow

omit [Ord V] in
theorem exists_prepareBaseIndexEntries (indexIds : List IndexId) :
    ∃ prepared, s.prepareBaseIndexEntriesForIds tableId d row indexIds = .ok prepared := by
  refine exists_mapM_eq_ok fun (indexId, index) hmem => ?_
  obtain ⟨hindex, htable⟩ := mem_selectIndexes hmem
  obtain ⟨hfits, hcovering⟩ := hs.fits indexId index hindex d (htable ▸ hdef)
  obtain ⟨key, hkey⟩ := exists_buildIndexKey hfits hrow
  obtain ⟨coveringRow, hcoveringRow⟩ := exists_buildCoveringRow hfits hrow hcovering
  exact ⟨_, bind_eq_ok.mpr ⟨key, hkey, bind_eq_ok.mpr ⟨coveringRow, hcoveringRow, rfl⟩⟩⟩

theorem replayInsert_spec (txn : TxnId) (tupleId : TupleId) :
    ∃ s', s.replayInsert txn tableId tupleId row = .ok s' ∧ SetsRow s tableId tupleId row s' ∧
      s'.Sound := by
  obtain ⟨t, ht, rfl⟩ := tableDef_eq_some.mp hdef
  let t' := (t.commitInsert tupleId txn row).skipTupleId tupleId
  have hdesc : t'.descriptor = t.descriptor := descriptor_skipTupleId ..
  have hset : SetsRow s tableId tupleId row (s.setTable tableId t') :=
    setsRow_setTable ht hdesc (t.loadLatestRow_commitInsert tupleId txn row) rfl
  have hsound : (s.setTable tableId t').Sound :=
    hs.setsRow hset hdef hrow fun _ i hi => ⟨i, hi, rfl, rfl⟩
  have hdef' : (s.setTable tableId t').tableDef tableId = some t.descriptor := by
    rw [hset.tableDef, hdef]
  obtain ⟨prepared, hprepared⟩ := exists_prepareBaseIndexEntries hsound hdef' hrow
    ((s.setTable tableId t').baseIndexIds tableId)
  refine ⟨(s.setTable tableId t').appendPreparedBaseIndexEntries prepared tupleId, ?_, ?_, ?_⟩
  · simp only [replayInsert, ht]
    exact bind_eq_ok.mpr ⟨prepared, hprepared, rfl⟩
  · exact ⟨hset.tableDef, hset.rowAt⟩
  · exact hs.setsRow ⟨hset.tableDef, hset.rowAt⟩ hdef hrow
      (appendPrepared_sameIndexDefs (s.setTable tableId t') prepared tupleId)

end

/-! ## Snapshots -/

theorem replayInsert_of_indexes_empty (hempty : s.indexes = ∅) {t : TableData (Row V)}
    (ht : s.tables[tableId]? = some t) (txn : TxnId) (tupleId : TupleId) (row : Row V) :
    s.replayInsert txn tableId tupleId row =
      .ok (s.setTable tableId ((t.commitInsert tupleId txn row).skipTupleId tupleId)) := by
  have hids : ∀ t', (s.setTable tableId t').baseIndexIds tableId = [] := by
    intro t'
    show idsForTable btreeTableId s.indexes tableId = []
    rw [hempty]
    simp [idsForTable]
  simp only [replayInsert, ht, appendBaseIndexEntries, hids]
  rfl

omit [Ord V] in
theorem setTable_setTable (s : StorageState V) (tableId : RelationId) (a b : TableData (Row V)) :
    (s.setTable tableId a).setTable tableId b = s.setTable tableId b := by
  have htables : ((s.tables.insert tableId a).insert tableId b) = s.tables.insert tableId b := by
    ext id
    simp only [ExtTreeMap.getElem?_insert]
    split <;> rfl
  simp [setTable, htables]

theorem replay_rows (hempty : s.indexes = ∅) (tableId : RelationId) (rows : List (TupleId × Row V))
    (t : TableData (Row V)) :
    (s.setTable tableId t).replaySnapshotEntries (rows.map fun r => .insertRow 0 tableId r.1 r.2) =
      .ok (s.setTable tableId (rows.foldl
        (fun t (id, row) => (t.commitInsert id 0 row).skipTupleId id) t)) := by
  induction rows generalizing t with
  | nil => rfl
  | cons r rows ih =>
    refine foldlM_cons_eq_ok.mpr ⟨_, ?_, ih ((t.commitInsert r.1 0 r.2).skipTupleId r.1)⟩
    have ht : (s.setTable tableId t).tables[tableId]? = some t := by simp
    exact (replayInsert_of_indexes_empty (s := s.setTable tableId t) hempty ht 0 r.1 r.2).trans
      (by rw [setTable_setTable])

theorem replay_snapshotEntries (hempty : s.indexes = ∅) (t : TableData (Row V)) :
    s.replaySnapshotEntries t.snapshotEntries = .ok (s.setTable t.descriptor.tableId t.restored) :=
  foldlM_cons_eq_ok.mpr ⟨s.setTable t.descriptor.tableId { descriptor := t.descriptor }, rfl,
    replay_rows hempty t.descriptor.tableId t.liveRows { descriptor := t.descriptor }⟩

theorem replay_tables (l : List (RelationId × TableData (Row V)))
    (hids : ∀ p ∈ l, p.2.descriptor.tableId = p.1) (hempty : s.indexes = ∅) :
    s.replaySnapshotEntries (l.flatMap (·.2.snapshotEntries)) =
      .ok (l.foldl (fun s p => s.setTable p.1 p.2.restored) s) := by
  induction l generalizing s with
  | nil => rfl
  | cons p l ih =>
    have hfirst := replay_snapshotEntries hempty p.2
    rw [hids p (mem_cons_self ..)] at hfirst
    have hrest := ih (s := s.setTable p.1 p.2.restored)
      (fun q hq => hids q (mem_cons_of_mem _ hq)) hempty
    simp only [replaySnapshotEntries] at hfirst hrest ⊢
    rw [flatMap_cons, foldlM_append, hfirst]
    exact hrest

omit [Ord V] in
theorem foldl_setTable (l : List (RelationId × TableData (Row V))) (s : StorageState V) :
    l.foldl (fun s p => s.setTable p.1 p.2.restored) s =
      { s with tables := l.foldl (fun m p => m.insert p.1 p.2.restored) s.tables } := by
  induction l generalizing s with
  | nil => rfl
  | cons p l ih => exact ih (s.setTable p.1 p.2.restored)

theorem replay_tables_spec (hs : s.Sound) :
    ∃ s', replaySnapshotEntries {} (s.tables.toList.flatMap (·.2.snapshotEntries)) = .ok s' ∧
      s'.indexes = ∅ ∧ SameRows s s' := by
  have hids : ∀ p ∈ s.tables.toList, p.2.descriptor.tableId = p.1 := by
    rintro ⟨id, t⟩ hp
    refine hs.tableId id t.descriptor (tableDef_eq_some.mpr ⟨t, ?_, rfl⟩)
    exact mem_toList_iff_getElem?_eq_some.mp hp
  let s' : StorageState V :=
    { tables := s.tables.toList.foldl (fun m p => m.insert p.1 p.2.restored) ∅ }
  have htables : ∀ id : RelationId, s'.tables[id]? = s.tables[id]?.map (·.restored) := by
    intro id
    refine (OrdMap.getElem?_foldl_insert TableData.restored (OrdMap.nodup_keys_toList s.tables)
      ∅ id).trans ?_
    simp [OrdMap.lookup_toList s.tables (.refl _)]
  refine ⟨s', ?_, rfl, ?_, ?_⟩
  · rw [replay_tables s.tables.toList hids rfl, foldl_setTable]
  · intro id
    simp only [tableDef, htables, Option.map_map]
    cases s.tables[id]? <;> simp
  · intro id tupleId
    simp only [rowAt, htables]
    cases s.tables[id]? <;> simp

omit [Ord V] in
theorem SameRows.exists_table (h : SameRows s s') (ht' : s'.tables[tableId]? = some t') :
    ∃ t, s.tables[tableId]? = some t ∧ t.descriptor = t'.descriptor ∧
      ∀ r ∈ t'.liveRows, r ∈ t.liveRows := by
  have hdef : s.tableDef tableId = some t'.descriptor :=
    (h.tableDef tableId).symm.trans (tableDef_of_table ht')
  obtain ⟨t, ht, hdesc⟩ := tableDef_eq_some.mp hdef
  refine ⟨t, ht, hdesc, fun (id, row) hr => ?_⟩
  have hrow := h.rowAt tableId id
  simp only [StorageState.rowAt, ht, ht', bind_some] at hrow
  rw [mem_liveRows] at hr ⊢
  rw [← hrow, hr]

theorem replayCreateIndex_spec [TransOrd V] {b : StorageState V} (hs : s.Sound)
    (hunique : s.UniqueKeys) (hindex : s.indexes[indexId]? = some index) (hsame : SameRows s b)
    (hb : b.Sound) :
    ∃ b', b.replayCreateIndex index.descriptor = .ok b' ∧ SameRows s b' ∧ b'.Sound := by
  cases ht : b.tables[index.descriptor.tableId]? with
  | none =>
    refine ⟨b, ?_, hsame, hb⟩
    simp only [replayCreateIndex, ht]
  | some t =>
    obtain ⟨t0, ht0, hdesc, hrows⟩ := hsame.exists_table ht
    have hdef : s.tableDef index.descriptor.tableId = some t.descriptor :=
      tableDef_eq_some.mpr ⟨t0, ht0, hdesc⟩
    have hfits := (hs.fits indexId index hindex t.descriptor hdef).1
    have hwidth : ∀ r ∈ t.liveRows, r.2.length = t.descriptor.columns.length := by
      intro r hr
      refine hs.width _ _ hdef r.1 r.2 ?_
      simp only [rowAt, ht0, bind_some]
      exact mem_liveRows.mp (hrows r hr)
    have hnodup : index.descriptor.unique = true → ∀ x ∈ t.liveRows, ∀ y ∈ t.liveRows,
        x.1 ≠ y.1 → ¬ UniqueConflict index.descriptor t.descriptor x.2 y.2 := by
      intro hu x hx y hy hne
      have hmem : (indexId, index) ∈ s.indexes.toList :=
        mem_toList_iff_getElem?_eq_some.mpr hindex
      exact hdesc ▸ hunique _ hmem hu t0 ht0 x (hrows x hx) y (hrows y hy) hne
    obtain ⟨data, hdata, hdescriptor, hcovering⟩ :=
      IndexData.exists_fromRows hfits hwidth hnodup
    refine ⟨{ b with indexes := b.indexes.insert index.descriptor.indexId data }, ?_,
      ⟨hsame.tableDef, hsame.rowAt⟩, hb.tableId, hb.width, ?_⟩
    · simp only [replayCreateIndex, ht]
      exact bind_eq_ok.mpr ⟨data, hdata, rfl⟩
    intro id i hi d hd
    rw [ExtTreeMap.getElem?_insert] at hi
    split at hi
    · cases hi
      have hd' : b.tableDef index.descriptor.tableId = some d := hdescriptor ▸ hd
      rw [hsame.tableDef, hdef] at hd'
      cases hd'
      exact ⟨hdescriptor ▸ hfits, hdescriptor ▸ hcovering⟩
    · exact hb.fits id i hi d hd

theorem replay_serializeSnapshot [TransOrd V] (hs : s.Sound) (hunique : s.UniqueKeys) (lsn : Nat) :
    ∃ s', replaySnapshotEntries {} (s.serializeSnapshot lsn).entries = .ok s' ∧ SameRows s s' ∧
      s'.Sound := by
  obtain ⟨b, hb, hempty, hsame⟩ := replay_tables_spec hs
  have hbSound : b.Sound := by
    refine ⟨fun id d hd => hs.tableId id d (hsame.tableDef id ▸ hd), fun id d hd tid row hrow => ?_,
      fun id i hi => ?_⟩
    · exact hs.width id d (hsame.tableDef id ▸ hd) tid row (hsame.rowAt id tid ▸ hrow)
    · simp [hempty] at hi
  suffices h : ∀ (l : List (IndexId × IndexData V)) (b : StorageState V),
      (∀ p ∈ l, s.indexes[p.1]? = some p.2) → SameRows s b → b.Sound →
      ∃ b', b.replaySnapshotEntries (l.map fun p => .createIndex 0 p.2.descriptor) = .ok b' ∧
        SameRows s b' ∧ b'.Sound by
    obtain ⟨s', hs', hresult⟩ := h s.indexes.toList b
      (fun p hp => mem_toList_iff_getElem?_eq_some.mp hp) hsame hbSound
    refine ⟨s', ?_, hresult⟩
    simp only [replaySnapshotEntries, serializeSnapshot, foldlM_append] at hb hs' ⊢
    exact bind_eq_ok.mpr ⟨b, hb, hs'⟩
  intro l
  induction l with
  | nil => exact fun b _ hsame hb => ⟨b, rfl, hsame, hb⟩
  | cons p l ih =>
    intro b hl hsame hb
    obtain ⟨m, hm, hsame, hmSound⟩ :=
      replayCreateIndex_spec hs hunique (hl p (mem_cons_self ..)) hsame hb
    obtain ⟨b', hb', hresult⟩ :=
      ih m (fun q hq => hl q (mem_cons_of_mem _ hq)) hsame hmSound
    exact ⟨b', foldlM_cons_eq_ok.mpr ⟨m, hm, hb'⟩, hresult⟩

end StorageState

/-! ## The log behind a snapshot -/

def coveredLsn (snapshot : Option (BaseSnapshot V)) : Nat := snapshot.elim 0 (·.checkpointLsn)

/-- Where replay starts to read: at the checkpoint record of the snapshot, or at the first
record. -/
def replayStartLsn (snapshot : Option (BaseSnapshot V)) : Nat :=
  snapshot.elim 1 (·.checkpointLsn)

theorem readFrom_numbered {start removed : Nat} (hstart : 0 < start) (hremoved : removed < start)
    (records : List (WalRecord V)) :
    readFrom start ((numbered 1 records).filter (removed < ·.1)) =
      .ok (numbered start (records.drop (start - 1))) := by
  have hfilter : ((numbered 1 records).filter (removed < ·.1)).filter (start ≤ ·.1) =
      numbered start (records.drop (start - 1)) := by
    have hboth : (fun e : Nat × WalRecord V => decide (start ≤ e.1) && decide (removed < e.1)) =
        fun e => decide (start ≤ e.1) := by
      funext e
      by_cases h : start ≤ e.1
      · simp [h, show removed < e.1 by omega]
      · simp [h]
    rw [List.filter_filter, hboth, filter_numbered, show max 1 start = start by omega]
  unfold readFrom
  rw [hfilter]
  cases records.drop (start - 1) with
  | nil => rfl
  | cons a l => simp

theorem recover_eq [Ord V] {snapshot : Option (BaseSnapshot V)} {removed : Nat}
    (hstart : 0 < replayStartLsn snapshot) (hremoved : removed < replayStartLsn snapshot)
    (records : List (WalRecord V)) :
    recover snapshot ((numbered 1 records).filter (removed < ·.1)) = (do
      let state ← StorageState.replaySnapshotEntries {} (snapshot.elim [] (·.entries))
      (numbered (coveredLsn snapshot + 1) (records.drop (coveredLsn snapshot))).foldlM
        Replay.entry { state }) := by
  unfold recover
  refine congrArg _ (funext fun state => ?_)
  have hread := readFrom_numbered hstart hremoved records
  simp only [replayStartLsn] at hread hstart
  rw [hread]
  have hbehind : (numbered (snapshot.elim 1 (·.checkpointLsn))
      (records.drop (snapshot.elim 1 (·.checkpointLsn) - 1))).filter
        (fun e => !snapshot.any (e.1 ≤ ·.checkpointLsn)) =
      numbered (coveredLsn snapshot + 1) (records.drop (coveredLsn snapshot)) := by
    cases snapshot with
    | none => simp [coveredLsn]
    | some c =>
      have hnot : (fun e : Nat × WalRecord V => !(some c).any (e.1 ≤ ·.checkpointLsn)) =
          fun e => decide (c.checkpointLsn + 1 ≤ e.1) := by
        funext e
        by_cases h : e.1 ≤ c.checkpointLsn
        · simp [h, show ¬ c.checkpointLsn + 1 ≤ e.1 by omega]
        · simp [h, show c.checkpointLsn + 1 ≤ e.1 by omega]
      rw [hnot, filter_numbered]
      simp only [elim_some, coveredLsn] at hstart ⊢
      rw [drop_drop]
      congr 2 <;> omega
  exact congrArg (fun l => List.foldlM Replay.entry { state } l) hbehind

end AionDb
