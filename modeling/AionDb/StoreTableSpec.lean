import AionDb.StoreReplay

/-!
# Replay seen from outside

For the live rows a state is, table by table, a descriptor with rows and the
definitions of its indexes (`TableSpec`). Replaying a record changes one table:
`TableSpec.Pre` says when it goes well, `TableSpec.post` what it leaves, and
neither looks at anything else. So two records about different tables, or about
different rows of one table, can be replayed in either order (`dbStep_comm`).
-/

namespace AionDb

open Std Effect ExtTreeMap Function Option TableData

variable {V : Type}

/-! ## What a record is about -/

namespace WalRecord

def tableOf (indexTable : IndexId → RelationId) : WalRecord V → Option RelationId
  | insertRow _ tableId _ _ | deleteRow _ tableId _ | updateRow _ tableId _ _ _ => some tableId
  | autocommitInsertRow _ tableId _ _ | autocommitDeleteRow _ tableId _ => some tableId
  | autocommitUpdateRow _ tableId _ _ _ => some tableId
  | createTable _ descriptor | alterTable _ descriptor => some descriptor.tableId
  | dropTable _ tableId => some tableId
  | createIndex _ descriptor => some descriptor.tableId
  | dropIndex _ indexId => some (indexTable indexId)
  | beginTxn _ | commitTxn _ | abortTxn _ | checkpoint _ => none

def tupleOf : WalRecord V → Option TupleId
  | insertRow _ _ tupleId _ | deleteRow _ _ tupleId | updateRow _ _ tupleId _ _ => some tupleId
  | autocommitInsertRow _ _ tupleId _ | autocommitDeleteRow _ _ tupleId => some tupleId
  | autocommitUpdateRow _ _ tupleId _ _ => some tupleId
  | _ => none

def written : WalRecord V → Option (Row V)
  | insertRow _ _ _ row | updateRow _ _ _ _ row => some row
  | autocommitInsertRow _ _ _ row | autocommitUpdateRow _ _ _ _ row => some row
  | _ => none

def retires : WalRecord V → Bool
  | deleteRow _ _ _ | updateRow _ _ _ _ _ => true
  | autocommitDeleteRow _ _ _ | autocommitUpdateRow _ _ _ _ _ => true
  | _ => false

/-- Records about different tables, or about different rows. -/
def Independent (indexTable : IndexId → RelationId) (r r' : WalRecord V) : Prop :=
  r.tableOf indexTable ≠ r'.tableOf indexTable ∨
    r.tupleOf.isSome ∧ r'.tupleOf.isSome ∧ r.tupleOf ≠ r'.tupleOf
deriving Decidable

def NamesIndex (indexTable : IndexId → RelationId) : WalRecord V → Prop
  | createIndex _ descriptor => descriptor.tableId = indexTable descriptor.indexId
  | _ => True

instance (indexTable : IndexId → RelationId) (r : WalRecord V) :
    Decidable (r.NamesIndex indexTable) := by
  cases r <;> unfold NamesIndex <;> infer_instance

end WalRecord

/-! ## A table seen from outside -/

/-- The descriptor and the rows of a table, and the definitions of its indexes. -/
@[ext] structure TableSpec (V : Type) where
  table : Option (TableStorageDescriptor × (TupleId → Option (Row V)))
  indexes : IndexId → Option (IndexStorageDescriptor × List ColumnId)

def KeyBuilds (table : TableStorageDescriptor) (index : IndexStorageDescriptor) (row : Row V) :
    Prop := ∃ key, buildIndexKeyForDescriptor index table row = .ok key

def CoveringBuilds (table : TableStorageDescriptor) (columnIds : List ColumnId) (row : Row V) :
    Prop := ∃ ordinals covering, resolveColumnOrdinals table columnIds = .ok ordinals ∧
  buildCoveringRowWithOrdinals row ordinals = .ok covering

def Loads [Ord V] (table : TableStorageDescriptor) (rows : TupleId → Option (Row V))
    (index : IndexStorageDescriptor) : Prop :=
  ∃ t : TableData (Row V), t.loadLatestRow = rows ∧
    ∃ data, IndexData.fromRows index table t.liveRows = .ok data

namespace TableSpec

def RowFits (a : TableSpec V) (descriptor : TableStorageDescriptor) (old : Option (Row V))
    (record : WalRecord V) : Prop :=
  ∀ i index columnIds, a.indexes i = some (index, columnIds) →
    (record.retires = true → ∀ row ∈ old, KeyBuilds descriptor index row) ∧
      ∀ row ∈ record.written, KeyBuilds descriptor index row ∧
        CoveringBuilds descriptor columnIds row

variable [Ord V]

def Pre (a : TableSpec V) : WalRecord V → Prop
  | .createIndex _ index => ∀ p ∈ a.table, Loads p.1 p.2 index
  | record => ∀ id ∈ record.tupleOf, ∀ p ∈ a.table, a.RowFits p.1 (p.2 id) record

omit [Ord V] in
def post (a : TableSpec V) : WalRecord V → TableSpec V
  | .createTable _ descriptor => { a with table := some (descriptor, fun _ => none) }
  | .dropTable _ _ => { table := none, indexes := fun _ => none }
  | .alterTable _ descriptor => { a with table := a.table.map fun p => (descriptor, p.2) }
  | .createIndex _ index =>
    { a with
      indexes := a.table.elim a.indexes fun p => update a.indexes index.indexId
        (some (index, defaultCoveringColumnIds index p.1)) }
  | .dropIndex _ indexId => { a with indexes := update a.indexes indexId none }
  | record => record.tupleOf.elim a fun id =>
    { a with table := a.table.map fun p => (p.1, update p.2 id record.written) }

variable {id id' : TupleId} {r r' : WalRecord V} {a : TableSpec V}

theorem pre_row (h : r.tupleOf = some id) : a.Pre r ↔ ∀ p ∈ a.table, a.RowFits p.1 (p.2 id) r := by
  cases r <;> simp_all [Pre, WalRecord.tupleOf]

theorem pre_row_of_table {descriptor : TableStorageDescriptor} {rows : TupleId → Option (Row V)}
    (h : r.tupleOf = some id) (htable : a.table = some (descriptor, rows)) :
    a.Pre r ↔ a.RowFits descriptor (rows id) r := by
  rw [pre_row h, htable]
  exact ⟨fun hp => hp _ rfl, fun hr p hp => by cases hp; exact hr⟩

omit [Ord V] in
theorem post_row (h : r.tupleOf = some id) :
    a.post r = { a with table := a.table.map fun p => (p.1, update p.2 id r.written) } := by
  cases r <;> simp_all [post, WalRecord.tupleOf]

theorem pre_post_row (h : r.tupleOf = some id) (h' : r'.tupleOf = some id') (hne : id ≠ id') :
    (a.post r').Pre r ↔ a.Pre r := by
  rw [pre_row h, pre_row h, post_row h']
  simp only [RowFits]
  constructor
  · intro hpre p hp
    have hrow := hpre (p.1, update p.2 id' r'.written) (mem_map_of_mem _ hp)
    simp only [update_of_ne hne] at hrow
    exact hrow
  · intro hpre q hq
    obtain ⟨p, hp, rfl⟩ := mem_map.mp hq
    simp only [update_of_ne hne]
    exact hpre p hp

omit [Ord V] in
theorem post_comm_row (h : r.tupleOf = some id) (h' : r'.tupleOf = some id') (hne : id ≠ id') :
    (a.post r').post r = (a.post r).post r' := by
  rw [post_row h, post_row h', post_row h, post_row h']
  simp only [Option.map_map]
  congr 2
  funext p
  exact congrArg (p.1, ·) (update_comm hne.symm ..)

omit [Ord V] in
theorem indexes_post {i : IndexId} {d : IndexStorageDescriptor × List ColumnId}
    (h : (a.post r).indexes i = some d) :
    a.indexes i = some d ∨ ∃ txn index, r = .createIndex txn index ∧ i = index.indexId := by
  cases r with
  | createIndex txn index =>
    by_cases hi : i = index.indexId
    · exact Or.inr ⟨txn, index, rfl, hi⟩
    · refine Or.inl ?_
      cases htable : a.table <;> simpa [post, htable, hi] using h
  | dropIndex txn indexId =>
    by_cases hi : i = indexId
    · simp [post, hi] at h
    · exact Or.inl (by simpa [post, hi] using h)
  | dropTable txn t => cases h
  | _ => exact Or.inl h

end TableSpec

def DbStep [Ord V] (indexTable : IndexId → RelationId) (a : RelationId → TableSpec V)
    (entry : Nat × WalRecord V) (b : RelationId → TableSpec V) : Prop :=
  ∃ tableId, entry.2.tableOf indexTable = some tableId ∧ (a tableId).Pre entry.2 ∧
    b = update a tableId ((a tableId).post entry.2)

theorem dbStep_comm [Ord V] {indexTable : IndexId → RelationId} {e e' : Nat × WalRecord V}
    (hi : e.2.Independent indexTable e'.2) (a b c : RelationId → TableSpec V)
    (hb : DbStep indexTable a e' b) (hc : DbStep indexTable b e c) :
    ∃ b', DbStep indexTable a e b' ∧ DbStep indexTable b' e' c := by
  obtain ⟨t', ht', hpre', rfl⟩ := hb
  obtain ⟨t, ht, hpre, rfl⟩ := hc
  by_cases htt : t = t'
  · subst htt
    rw [update_self] at hpre ⊢
    rcases hi with hne | ⟨hid, hid', hne⟩
    · exact absurd (ht.trans ht'.symm) hne
    obtain ⟨id, hid⟩ := isSome_iff_exists.mp hid
    obtain ⟨id', hid'⟩ := isSome_iff_exists.mp hid'
    have hne : id ≠ id' := fun h => hne (by rw [hid, hid', h])
    refine ⟨_, ⟨t, ht, (TableSpec.pre_post_row hid hid' hne).mp hpre, rfl⟩, t, ht', ?_, ?_⟩
    · rw [update_self]
      exact (TableSpec.pre_post_row hid' hid hne.symm).mpr hpre'
    · rw [update_self, update_idem, update_idem, TableSpec.post_comm_row hid hid' hne]
  · rw [update_of_ne htt] at hpre ⊢
    refine ⟨_, ⟨t, ht, hpre, rfl⟩, t', ht', ?_, ?_⟩
    · rwa [update_of_ne (Ne.symm htt)]
    · rw [update_of_ne (Ne.symm htt)]
      exact update_comm (Ne.symm htt) ..

/-! ## The state behind the specification -/

def IndexData.definition (index : IndexData V) : IndexStorageDescriptor × List ColumnId :=
  (index.descriptor, index.coveringColumnIds)

theorem IndexData.definition_fromRows [Ord V] {d : IndexStorageDescriptor}
    {table : TableStorageDescriptor} {rows : List (TupleId × Row V)} {data : IndexData V}
    (h : IndexData.fromRows d table rows = .ok data) :
    data.definition = (d, defaultCoveringColumnIds d table) := by
  obtain ⟨_, -, h⟩ := bind_eq_ok.mp h
  obtain ⟨_, -, h⟩ := bind_eq_ok.mp h
  obtain ⟨_, -, h⟩ := bind_eq_ok.mp h
  obtain ⟨_, -, h⟩ := bind_eq_ok.mp h
  cases h
  rfl

theorem TableData.liveRows_congr {R : Type} {t t' : TableData R}
    (h : t'.loadLatestRow = t.loadLatestRow) : t'.liveRows = t.liveRows := by
  let lt : TupleId × R → TupleId × R → Prop := fun a b => a.1 < b.1
  have hirrefl : Std.Irrefl lt := ⟨fun a => Nat.lt_irrefl a.1⟩
  have hsorted : ∀ u : TableData R, u.liveRows.Pairwise lt := by
    intro u
    refine List.Pairwise.filterMap _ (fun a b hab x hx y hy => ?_) u.heap.ordered_keys
    obtain ⟨_, -, rfl⟩ := map_eq_some_iff.mp hx
    obtain ⟨_, -, rfl⟩ := map_eq_some_iff.mp hy
    exact Std.compare_eq_lt.mp hab
  refine (hsorted t').eq_of_mem_iff (hsorted t) fun (id, row) => ?_
  rw [mem_liveRows, mem_liveRows, h]

namespace StorageState

def indexDefs (s : StorageState V) (indexId : IndexId) :
    Option (IndexStorageDescriptor × List ColumnId) :=
  s.indexes[indexId]?.map (·.definition)

def spec (s : StorageState V) (tableId : RelationId) : TableSpec V where
  table := s.tables[tableId]?.map fun t => (t.descriptor, t.loadLatestRow)
  indexes := fun indexId => (s.indexDefs indexId).filter (·.1.tableId = tableId)

def IndexesPlaced (s : StorageState V) (indexTable : IndexId → RelationId) : Prop :=
  ∀ indexId d, s.indexDefs indexId = some d → d.1.tableId = indexTable indexId

variable {row : Row V} {s s' : StorageState V} {entry : Nat × WalRecord V} {tableId : RelationId}
  {id tupleId : TupleId} {indexTable : IndexId → RelationId} {descriptor : TableStorageDescriptor}
  {indexId : IndexId} {r : WalRecord V}

theorem mem_selectIndexes_iff {index : IndexData V} :
    (indexId, index) ∈ selectIndexes s.indexes tableId (s.baseIndexIds tableId) ↔
      s.indexes[indexId]? = some index ∧ index.descriptor.tableId = tableId := by
  refine ⟨mem_selectIndexes, fun ⟨hindex, htable⟩ => ?_⟩
  refine List.mem_filterMap.mpr ⟨indexId, PendingTransaction.mem_idsForTable.mpr ⟨index, hindex, htable⟩, ?_⟩
  have hkept : s.indexes[indexId]?.filter (btreeTableId · = tableId) = some index :=
    filter_eq_some_iff.mpr ⟨hindex, decide_eq_true htable⟩
  rw [hkept]
  rfl

theorem forall_selectIndexes {P : IndexStorageDescriptor → List ColumnId → Prop} :
    (∀ p ∈ selectIndexes s.indexes tableId (s.baseIndexIds tableId),
      P p.2.descriptor p.2.coveringColumnIds) ↔
      ∀ i index columnIds, (s.spec tableId).indexes i = some (index, columnIds) →
        P index columnIds := by
  constructor
  · intro h i index columnIds hi
    obtain ⟨hdef, htable⟩ := filter_eq_some_iff.mp hi
    obtain ⟨data, hdata, hd⟩ := map_eq_some_iff.mp hdef
    cases hd
    exact h (i, data) (mem_selectIndexes_iff.mpr ⟨hdata, of_decide_eq_true htable⟩)
  · rintro h ⟨i, data⟩ hmem
    obtain ⟨hdata, htable⟩ := mem_selectIndexes_iff.mp hmem
    refine h i _ _ (filter_eq_some_iff.mpr ⟨?_, decide_eq_true htable⟩)
    rw [indexDefs, hdata]
    rfl

theorem exists_prepare_iff :
    (∃ prepared, s.prepareBaseIndexEntriesForIds tableId descriptor row (s.baseIndexIds tableId) =
      .ok prepared) ↔
      ∀ i index columnIds, (s.spec tableId).indexes i = some (index, columnIds) →
        KeyBuilds descriptor index row ∧ CoveringBuilds descriptor columnIds row := by
  rw [prepareBaseIndexEntriesForIds, exists_mapM_eq_ok_iff, ← forall_selectIndexes]
  refine forall₂_congr fun p _ => ?_
  simp only [bind_eq_ok, IndexData.buildCoveringRow, KeyBuilds, CoveringBuilds]
  constructor
  · rintro ⟨_, key, hkey, covering, ⟨ordinals, hord, hcov⟩, -⟩
    exact ⟨⟨key, hkey⟩, ordinals, covering, hord, hcov⟩
  · rintro ⟨⟨key, hkey⟩, ordinals, covering, hord, hcov⟩
    exact ⟨_, key, hkey, covering, ⟨ordinals, hord, hcov⟩, rfl⟩

variable [Ord V]

theorem exists_removeEntries_iff :
    (∃ s', s.removeBaseIndexEntries tableId descriptor tupleId row = .ok s') ↔
      ∀ i index columnIds, (s.spec tableId).indexes i = some (index, columnIds) →
        KeyBuilds descriptor index row := by
  refine exists_bind_eq_ok.trans (exists_mapM_eq_ok_iff.trans ?_)
  rw [← forall_selectIndexes (P := fun index _ => KeyBuilds descriptor index row)]
  exact forall₂_congr fun p _ => exists_bind_eq_ok

theorem removeEntries_keeps (h : s.removeBaseIndexEntries tableId descriptor tupleId row = .ok s') :
    s'.tables = s.tables ∧ s'.indexDefs = s.indexDefs := by
  obtain ⟨keyed, -, heq⟩ := bind_eq_ok.mp h
  cases heq
  exact ⟨rfl, funext (map_getElem?_foldl_modify
    (f := fun (p : IndexId × IndexKey V) i => i.removePrebuiltKey tupleId p.2)
    (fun _ _ => rfl) keyed s.indexes)⟩

theorem appendEntries_keeps (h : s.appendBaseIndexEntries tableId descriptor tupleId row = .ok s') :
    s'.tables = s.tables ∧ s'.indexDefs = s.indexDefs := by
  obtain ⟨prepared, -, heq⟩ := bind_eq_ok.mp h
  cases heq
  exact ⟨rfl, funext (map_getElem?_foldl_modify
    (f := fun (e : PreparedBaseIndexInsert V) i =>
      i.insertPrebuiltEntryUnchecked e.key tupleId e.coveringRow)
    (fun _ _ => rfl) prepared s.indexes)⟩

theorem exists_appendEntries_iff :
    (∃ s', s.appendBaseIndexEntries tableId descriptor tupleId row = .ok s') ↔
      ∀ i index columnIds, (s.spec tableId).indexes i = some (index, columnIds) →
        KeyBuilds descriptor index row ∧ CoveringBuilds descriptor columnIds row :=
  exists_bind_eq_ok.trans exists_prepare_iff

omit [Ord V] in
theorem spec_setRow {t t' : TableData (Row V)} (hid : r.tupleOf = some id)
    (ht : s.tables[tableId]? = some t)
    (hs' : s'.tables = (s.setTable tableId t').tables ∧ s'.indexDefs = s.indexDefs)
    (hdesc : t'.descriptor = t.descriptor)
    (hrows : t'.loadLatestRow = update t.loadLatestRow id r.written) :
    s'.spec = update s.spec tableId ((s.spec tableId).post r) := by
  obtain ⟨htables, hdefs⟩ := hs'
  rw [TableSpec.post_row hid]
  refine eq_update_iff.mpr ⟨?_, fun u hu => ?_⟩
  · simp only [spec, htables, hdefs, tables_setTable, if_pos, ht, map_some, hdesc, hrows]
  · simp only [spec, htables, hdefs, tables_setTable, if_neg hu]

omit [Ord V] in
theorem table_spec {t : TableData (Row V)} (ht : s.tables[tableId]? = some t) :
    (s.spec tableId).table = some (t.descriptor, t.loadLatestRow) := by
  rw [spec, ht]
  rfl

theorem spec_of_absent (ht : s.tables[tableId]? = none) (hid : r.tupleOf = some id) :
    (s.spec tableId).Pre r ∧ s.spec = update s.spec tableId ((s.spec tableId).post r) := by
  have hnone : (s.spec tableId).table = none := by rw [spec, ht]; rfl
  rw [TableSpec.pre_row hid, TableSpec.post_row hid, hnone]
  refine ⟨nofun, ?_⟩
  rw [map_none, ← hnone]
  exact (update_eq_self ..).symm

/-- A replayed record goes well when the specification of its table says so, and
leaves what that says. -/
def Replays (s : StorageState V) (x : DbResult (StorageState V)) (tableId : RelationId)
    (r : WalRecord V) : Prop :=
  ((∃ s', x = .ok s') ↔ (s.spec tableId).Pre r) ∧
    ∀ s', x = .ok s' → s'.spec = update s.spec tableId ((s.spec tableId).post r)

theorem replays_absent (ht : s.tables[tableId]? = none) (hid : r.tupleOf = some id) :
    Replays s (.ok s) tableId r := by
  obtain ⟨hpre, hspec⟩ := spec_of_absent ht hid
  refine ⟨⟨fun _ => hpre, fun _ => ⟨s, rfl⟩⟩, ?_⟩
  rintro _ ⟨⟩
  exact hspec

omit [Ord V] in
theorem indexes_spec_of_defs (h : s'.indexDefs = s.indexDefs) (tableId : RelationId) :
    (s'.spec tableId).indexes = (s.spec tableId).indexes := by
  simp only [spec, h]

section

variable (txn : TxnId) (hid : r.tupleOf = some id)
include txn hid

theorem replayInsert_replays (hw : r.written = some row) (hret : r.retires = false) :
    Replays s (s.replayInsert txn tableId id row) tableId r := by
  unfold replayInsert
  cases ht : s.tables[tableId]? with
  | none => exact replays_absent ht hid
  | some t =>
    dsimp only
    set t' := (t.commitInsert id txn row).skipTupleId id with ht'
    have hrows : t'.loadLatestRow = update t.loadLatestRow id r.written := by
      funext id'
      rw [ht', loadLatestRow_commitInsert, update_apply, hw]
    have hspec := table_spec ht
    constructor
    · rw [exists_appendEntries_iff, TableSpec.pre_row_of_table hid hspec]
      simp only [TableSpec.RowFits, hret, Bool.false_eq_true, false_implies, true_and, hw,
        mem_some_iff, forall_eq']
      rfl
    · exact fun s' hs' =>
        spec_setRow hid ht (appendEntries_keeps hs') (descriptor_skipTupleId ..) hrows

theorem replayDelete_replays (hw : r.written = none) (hret : r.retires = true) :
    Replays s (s.replayDelete txn tableId id) tableId r := by
  unfold replayDelete
  cases ht : s.tables[tableId]? with
  | none => exact replays_absent ht hid
  | some t =>
    dsimp only
    have hspec := table_spec ht
    cases hold : t.loadLatestRow id with
    | none =>
      -- nothing to delete, and nothing is changed
      dsimp only
      refine ⟨⟨fun _ => ?_, fun _ => ⟨s, rfl⟩⟩, ?_⟩
      · rw [TableSpec.pre_row_of_table hid hspec, hold]
        exact fun i index columnIds _ => ⟨fun _ => nofun, by rw [hw]; nofun⟩
      rintro _ ⟨⟩
      have hsame : update t.loadLatestRow id none = t.loadLatestRow := by
        rw [← hold]
        exact update_eq_self ..
      rw [TableSpec.post_row hid, hspec, hw, map_some, hsame, ← hspec]
      exact (update_eq_self ..).symm
    | some old =>
      dsimp only
      obtain ⟨t', ht'⟩ := exists_commitDeleted hold txn
      obtain ⟨new, hnew, hsets, -⟩ := commitDeleted_spec ht'
      have hrows : t'.loadLatestRow = update t.loadLatestRow id r.written := by
        funext id'
        rw [hsets.loadLatestRow, hnew.latest, update_apply, hw]
        rfl
      simp only [ht', bind, Except.bind]
      constructor
      · rw [exists_removeEntries_iff, TableSpec.pre_row_of_table hid hspec, hold]
        simp only [TableSpec.RowFits, hret, hw, not_mem_none, false_implies, implies_true,
          and_true, true_implies, mem_some_iff, forall_eq']
        rfl
      · exact fun s' hs' => spec_setRow hid ht (removeEntries_keeps hs') hsets.descriptor hrows

theorem replayUpdate_replays (hw : r.written = some row) (hret : r.retires = true) :
    Replays s (s.replayUpdate txn tableId id row) tableId r := by
  unfold replayUpdate
  cases ht : s.tables[tableId]? with
  | none => exact replays_absent ht hid
  | some t =>
    have hspec := table_spec ht
    obtain ⟨t', ht'⟩ := t.exists_commitPresent id txn row
    obtain ⟨new, hnew, hsets, -⟩ := commitPresent_spec ht'
    have hrows : (t'.skipTupleId id).loadLatestRow = update t.loadLatestRow id r.written := by
      funext id'
      rw [loadLatestRow_eq, heap_skipTupleId, ← loadLatestRow_eq,
        hsets.loadLatestRow, hnew.latest_row, update_apply, hw]
    have hdesc : (t'.skipTupleId id).descriptor = t.descriptor := by
      rw [descriptor_skipTupleId, hsets.descriptor]
    simp only [ht', bind, Except.bind]
    set s1 := s.setTable tableId (t'.skipTupleId id) with hs1
    cases hold : t.loadLatestRow id with
    | none =>
      simp only [pure, Except.pure]
      constructor
      · rw [exists_appendEntries_iff, TableSpec.pre_row_of_table hid hspec, hold]
        simp only [TableSpec.RowFits, hw, not_mem_none, false_implies, implies_true,
          true_and, mem_some_iff, forall_eq']
        rfl
      · exact fun s' hs' => spec_setRow hid ht (appendEntries_keeps hs') hdesc hrows
    | some old =>
      have hfits : (s.spec tableId).Pre r ↔
          ∀ i index columnIds, (s1.spec tableId).indexes i = some (index, columnIds) →
            KeyBuilds t.descriptor index old ∧
              (KeyBuilds t.descriptor index row ∧ CoveringBuilds t.descriptor columnIds row) := by
        rw [TableSpec.pre_row_of_table hid hspec, hold]
        simp only [TableSpec.RowFits, hret, hw, true_implies, mem_some_iff, forall_eq']
        rfl
      have hremove : (∃ s', s1.removeBaseIndexEntries tableId t.descriptor id old = .ok s') ↔ _ :=
        exists_removeEntries_iff
      dsimp only
      cases hrem : s1.removeBaseIndexEntries tableId t.descriptor id old with
      | error e =>
        rw [hrem] at hremove
        refine ⟨⟨nofun, fun hpre => ?_⟩, nofun⟩
        obtain ⟨_, h⟩ := hremove.mpr fun i index columnIds hi => (hfits.mp hpre i _ _ hi).1
        cases h
      | ok s2 =>
        obtain ⟨htables2, hdefs2⟩ := removeEntries_keeps hrem
        have hold := hremove.mp ⟨s2, hrem⟩
        dsimp only
        constructor
        · rw [exists_appendEntries_iff, hfits, indexes_spec_of_defs hdefs2]
          exact ⟨fun h i index columnIds hi => ⟨hold i _ _ hi, h i _ _ hi⟩,
            fun h i index columnIds hi => (h i _ _ hi).2⟩
        · intro s' hs'
          obtain ⟨htables, hdefs⟩ := appendEntries_keeps hs'
          exact spec_setRow hid ht ⟨htables.trans htables2, hdefs.trans hdefs2⟩ hdesc hrows

end

omit [Ord V] in
theorem indexDefs_removeIndexesForTable (s : StorageState V) (tableId : RelationId)
    (indexId : IndexId) : (s.removeIndexesForTable tableId).indexDefs indexId =
      (s.indexDefs indexId).filter (·.1.tableId ≠ tableId) := by
  simp only [indexDefs, removeIndexesForTable, getElem?_filter']
  cases s.indexes[indexId]? with
  | none => rfl
  | some index =>
    by_cases h : index.descriptor.tableId = tableId <;>
      simp [Option.filter, btreeTableId, IndexData.definition, h]

theorem replays_ok (hpre : (s.spec tableId).Pre r)
    (htable : s'.spec tableId = (s.spec tableId).post r)
    (hrest : ∀ t, t ≠ tableId → s'.spec t = s.spec t) : Replays s (.ok s') tableId r := by
  refine ⟨⟨fun _ => hpre, fun _ => ⟨s', rfl⟩⟩, ?_⟩
  rintro _ ⟨⟩
  exact eq_update_iff.mpr ⟨htable, hrest⟩

omit [Ord V] in
theorem placed_elsewhere (hplaced : s.IndexesPlaced indexTable) {t : RelationId}
    (hne : t ≠ indexTable indexId) :
    (s.indexDefs indexId).filter (decide <| ·.1.tableId = t) = none := by
  rw [filter_eq_none_iff]
  intro d hd htable
  exact hne ((of_decide_eq_true htable).symm.trans (hplaced indexId d hd))

omit [Ord V] in
/-- The definition of one index is set or removed. -/
theorem spec_setIndex {x : Option (IndexStorageDescriptor × List ColumnId)}
    (hplaced : s.IndexesPlaced indexTable) (htables : s'.tables = s.tables)
    (hdefs : s'.indexDefs = update s.indexDefs indexId x)
    (hx : ∀ d ∈ x, d.1.tableId = indexTable indexId) :
    s'.spec = update s.spec (indexTable indexId) { s.spec (indexTable indexId) with
      indexes := update (s.spec (indexTable indexId)).indexes indexId x } := by
  refine eq_update_iff.mpr ⟨?_, fun u hne => ?_⟩ <;>
    (simp only [spec, htables, hdefs]; congr 1; funext i; rw [update_apply])
  · rw [update_apply]
    split
    · cases x with
      | none => rfl
      | some d => simp [hx d rfl]
    · rfl
  · split
    · next h =>
      rw [h, placed_elsewhere hplaced hne, filter_eq_none_iff]
      exact fun d hd htable => hne ((of_decide_eq_true htable).symm.trans (hx d hd))
    · rfl

theorem replayCreateIndex_replays {txn : TxnId} {d : IndexStorageDescriptor}
    (hplaced : s.IndexesPlaced indexTable) (hr : d.tableId = indexTable d.indexId) :
    Replays s (s.replayCreateIndex d) d.tableId (.createIndex txn d) := by
  unfold replayCreateIndex
  cases ht : s.tables[d.tableId]? with
  | none =>
    have hnone : (s.spec d.tableId).table = none := by rw [spec, ht]; rfl
    refine replays_ok (by rw [TableSpec.Pre, hnone]; nofun) ?_ fun _ _ => rfl
    simp only [TableSpec.post, hnone, elim_none]
    rw [← hnone]
  | some t =>
    have hspec := table_spec ht
    have hpre : (s.spec d.tableId).Pre (.createIndex txn d) ↔
        ∃ data, IndexData.fromRows d t.descriptor t.liveRows = .ok data := by
      rw [TableSpec.Pre, hspec]
      constructor
      · intro h
        obtain ⟨t', ht', data, hdata⟩ := h _ rfl
        exact ⟨data, liveRows_congr ht' ▸ hdata⟩
      · rintro ⟨data, hdata⟩ p ⟨⟩
        exact ⟨t, rfl, data, hdata⟩
    dsimp only
    constructor
    · exact exists_bind_eq_ok.trans hpre.symm
    · intro s' hs'
      obtain ⟨data, hdata, heq⟩ := bind_eq_ok.mp hs'
      cases heq
      simp only [TableSpec.post, hspec, elim_some]
      rw [← hspec, hr]
      refine spec_setIndex hplaced rfl (eq_update_iff.mpr ⟨?_, fun i hi => ?_⟩) ?_
      · rw [indexDefs, getElem?_insert_self, map_some, IndexData.definition_fromRows hdata]
      · simp only [indexDefs, getElem?_insert, Std.compare_eq_iff_eq, if_neg hi.symm]
      · rintro _ ⟨⟩
        exact hr

theorem replayRecord_replays (hplaced : s.IndexesPlaced indexTable) (hr : r.NamesIndex indexTable)
    (ht : r.tableOf indexTable = some tableId) :
    Replays s (s.replayRecord 0 r) tableId r := by
  cases r with
  | insertRow txn t id row | autocommitInsertRow txn t id row =>
    cases ht
    exact replayInsert_replays 0 rfl rfl rfl
  | deleteRow txn t id | autocommitDeleteRow txn t id =>
    cases ht
    exact replayDelete_replays 0 rfl rfl rfl
  | updateRow txn t id new row | autocommitUpdateRow txn t id new row =>
    cases ht
    exact replayUpdate_replays 0 rfl rfl rfl
  | createTable txn d =>
    cases ht
    have hempty : (({ descriptor := d } : TableData (Row V)).loadLatestRow) = fun _ => none := by
      funext id
      exact loadLatestRow_of_not_mem (not_mem_empty)
    refine replays_ok nofun ?_ fun t hne => ?_
    · simp only [spec, TableSpec.post, getElem?_insert_self, map_some, hempty]
      rfl
    · simp only [spec, getElem?_insert, Std.compare_eq_iff_eq, if_neg hne.symm]
      rfl
  | dropTable txn t =>
    cases ht
    refine replays_ok nofun ?_ fun t' hne => ?_
    · simp only [spec, TableSpec.post, getElem?_erase_self, map_none]
      congr 1
      funext i
      show ((s.removeIndexesForTable tableId).indexDefs i).filter _ = none
      rw [indexDefs_removeIndexesForTable]
      simp [filter_filter]
    · have hindexes : ∀ i, ((s.removeIndexesForTable tableId).indexDefs i).filter
          (decide <| ·.1.tableId = t') = (s.indexDefs i).filter (decide <| ·.1.tableId = t') := by
        intro i
        rw [indexDefs_removeIndexesForTable, filter_filter]
        congr 1
        funext d
        by_cases h : d.1.tableId = t' <;> simp [h, hne]
      simp only [spec, getElem?_erase, Std.compare_eq_iff_eq, if_neg hne.symm]
      congr 1
      exact funext hindexes
  | alterTable txn d =>
    cases ht
    refine replays_ok nofun ?_ fun t hne => ?_
    · simp only [spec, TableSpec.post, getElem?_modify_self, Option.map_map]
      rfl
    · simp only [spec, getElem?_modify, Std.compare_eq_iff_eq, if_neg hne.symm]
      rfl
  | createIndex txn d =>
    cases ht
    exact replayCreateIndex_replays hplaced hr
  | dropIndex txn indexId =>
    cases ht
    refine ⟨⟨fun _ => nofun, fun _ => ⟨_, rfl⟩⟩, ?_⟩
    rintro _ ⟨⟩
    refine spec_setIndex hplaced rfl (eq_update_iff.mpr ⟨?_, fun i hi => ?_⟩) nofun
    · rw [indexDefs, getElem?_erase_self, map_none]
    · simp only [indexDefs, getElem?_erase, Std.compare_eq_iff_eq, if_neg hi.symm]
  | beginTxn txn | commitTxn txn | abortTxn txn | checkpoint lsn => cases ht

omit [Ord V] in
theorem indexesPlaced_iff :
    s.IndexesPlaced indexTable ↔ ∀ t i d, (s.spec t).indexes i = some d → t = indexTable i := by
  constructor
  · intro h t i d hd
    obtain ⟨hdef, htable⟩ := filter_eq_some_iff.mp hd
    exact (of_decide_eq_true htable).symm.trans (h i d hdef)
  · intro h i d hd
    exact h d.1.tableId i d (filter_eq_some_iff.mpr ⟨hd, decide_eq_true rfl⟩)

section

variable (hplaced : s.IndexesPlaced indexTable)
  (hr : entry.2.NamesIndex indexTable ∧ (entry.2.tableOf indexTable).isSome)
include hplaced hr

theorem replayRecord_map (h : s.replayRecord 0 entry.2 = .ok s') :
    s'.IndexesPlaced indexTable ∧ DbStep indexTable s.spec entry s'.spec := by
  obtain ⟨tableId, ht⟩ := isSome_iff_exists.mp hr.2
  obtain ⟨hpre, hspec⟩ := replayRecord_replays hplaced hr.1 ht
  refine ⟨indexesPlaced_iff.mpr fun t i d hd => ?_, tableId, ht, hpre.mp ⟨s', h⟩, hspec s' h⟩
  rw [hspec s' h, update_apply] at hd
  split at hd
  · next heq =>
    subst heq
    rcases TableSpec.indexes_post hd with hd | ⟨txn, index, hrec, rfl⟩
    · exact indexesPlaced_iff.mp hplaced t i d hd
    · rw [hrec] at hr ht
      cases ht
      exact hr.1
  · exact indexesPlaced_iff.mp hplaced t i d hd

theorem replayRecord_lift {a : RelationId → TableSpec V} (h : DbStep indexTable s.spec entry a) :
    ∃ s', s'.IndexesPlaced indexTable ∧ s.replayRecord 0 entry.2 = .ok s' ∧ s'.spec = a := by
  obtain ⟨tableId, ht, hpre, rfl⟩ := h
  obtain ⟨hiff, hspec⟩ := replayRecord_replays hplaced hr.1 ht
  obtain ⟨s', hs'⟩ := hiff.mpr hpre
  exact ⟨s', (replayRecord_map hplaced hr hs').1, hs', hspec s' hs'⟩

end

end StorageState

end AionDb
