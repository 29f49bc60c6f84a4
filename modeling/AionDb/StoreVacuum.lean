import AionDb.StoreOverflow
import AionDb.StorePending

/-!
# Vacuum with an index rebuild

When no transaction is active a vacuum may rebuild the indexes of its table.
The rebuild can fail after it has replaced some of them, so the table and its
indexes are captured first and put back. The overflow pages of the removed
versions are released only after the rebuild. The registries of disk indexes
are not part of what is captured: an index that is missing there is built from
the rows of the table, and stays.
-/

namespace AionDb

open Std Effect ExtTreeMap

def HeapTuple.vacuumReleased {R : Type} (t : HeapTuple R) (horizon : TxnId) : List R :=
  let released :=
    if t.versions.any (·.isLive) then t.versions.filter (!vacuumKeeps horizon ·)
    else if allBelowHorizon horizon t then t.versions
    else []
  released.map (·.row)

structure VacuumState (V G D : Type) where
  tables : ExtTreeMap RelationId (TableData (StoredRow V))
  overflow : OverflowStore
  indexes : ExtTreeMap IndexId (IndexData V)
  ginIndexes : ExtTreeMap IndexId (GinIndex G)
  diskOrderedIndexes : ExtTreeMap IndexId D
  diskVarExactIndexes : ExtTreeMap IndexId D

abbrev VacuumM (V G D : Type) := Eff (VacuumState V G D) DbError

/-- What the rebuild takes from elsewhere. A bulk load gives no index when there is no disk
pool or the keys do not fit a disk index. -/
structure RebuildKernels (V G D : Type) where
  ginFromRows : IndexStorageDescriptor → TableStorageDescriptor → List (TupleId × Row V) →
    DbResult G
  supportsFixed : IndexStorageDescriptor → TableStorageDescriptor → Bool
  supportsVar : IndexStorageDescriptor → TableStorageDescriptor → Bool
  bulkLoadFixed : IndexStorageDescriptor → TableStorageDescriptor → List (TupleId × Row V) →
    DbResult (Option D)
  bulkLoadVar : IndexStorageDescriptor → TableStorageDescriptor → List (TupleId × Row V) →
    DbResult (Option D)

namespace VacuumState

variable {V G D : Type}

/-- A disk index that is not supported or registered already is not built. -/
def installDiskIndex (registry : ExtTreeMap IndexId D) (indexId : IndexId) (supported : Bool)
    (load : DbResult (Option D)) : DbResult (ExtTreeMap IndexId D) :=
  if !supported || registry.contains indexId then .ok registry
  else load.map fun loaded => loaded.elim registry (registry.insert indexId)

section

variable [Ord V] [LargeValue V] (kernels : RebuildKernels V G D) (tableId : RelationId)

def loadTable (s : VacuumState V G D) :
    DbResult (TableStorageDescriptor × List (TupleId × Row V)) := do
  let some table := s.tables[tableId]? | .error (.internalMsg "table storage does not exist")
  let rows ← table.liveRows.mapM fun (tupleId, stored) => do
    let row ← s.overflow.loadRow stored
    pure (tupleId, row)
  pure (table.descriptor, rows)

def rebuildOwned {X : Type} (indexes : ExtTreeMap IndexId X) (descriptor : X → IndexStorageDescriptor)
    (build : TableStorageDescriptor → List (TupleId × Row V) → IndexId → IndexStorageDescriptor →
      VacuumM V G D Unit) : VacuumM V G D Unit := do
  let owned := (indexes.filter fun _ index => (descriptor index).tableId = tableId).toList
  if owned.isEmpty then pure ()
  else
    let s ← get
    let (table, rows) ← s.loadTable tableId
    owned.forM fun p => build table rows p.1 (descriptor p.2)

def rebuildBtreeIndex (table : TableStorageDescriptor) (rows : List (TupleId × Row V))
    (indexId : IndexId) (descriptor : IndexStorageDescriptor) : VacuumM V G D Unit := do
  let rebuilt ← IndexData.fromRows descriptor table rows
  modify fun s => { s with indexes := s.indexes.insert indexId rebuilt }
  let s ← get
  let fixed ← installDiskIndex s.diskOrderedIndexes indexId
    (kernels.supportsFixed descriptor table) (kernels.bulkLoadFixed descriptor table rows)
  modify fun s => { s with diskOrderedIndexes := fixed }
  let var ← installDiskIndex s.diskVarExactIndexes indexId
    (kernels.supportsVar descriptor table) (kernels.bulkLoadVar descriptor table rows)
  modify fun s => { s with diskVarExactIndexes := var }

def rebuildBaseBtreeIndexes : VacuumM V G D Unit := do
  let s ← get
  rebuildOwned tableId s.indexes (·.descriptor) (rebuildBtreeIndex kernels)

def rebuildBaseGinIndexes : VacuumM V G D Unit := do
  let s ← get
  rebuildOwned tableId s.ginIndexes (·.descriptor) fun table rows indexId descriptor => do
    let contents ← kernels.ginFromRows descriptor table rows
    modify fun s => { s with ginIndexes := s.ginIndexes.insert indexId { descriptor, contents } }

end

structure Rollback (V G : Type) where
  table : TableData (StoredRow V)
  indexes : ExtTreeMap IndexId (IndexData V)
  ginIndexes : ExtTreeMap IndexId (GinIndex G)

def capture (s : VacuumState V G D) (tableId : RelationId) : DbResult (Rollback V G) :=
  match s.tables[tableId]? with
  | none => .error (.internalMsg "vacuum rollback snapshot: table does not exist")
  | some table => .ok {
      table
      indexes := s.indexes.filter fun _ index => index.descriptor.tableId = tableId
      ginIndexes := s.ginIndexes.filter fun _ index => index.descriptor.tableId = tableId }

def restore (s : VacuumState V G D) (tableId : RelationId) (rollback : Rollback V G) :
    VacuumState V G D :=
  { s with
    tables := s.tables.insert tableId rollback.table
    indexes :=
      (s.indexes.filter fun _ index => index.descriptor.tableId ≠ tableId) ∪ rollback.indexes
    ginIndexes :=
      (s.ginIndexes.filter fun _ index => index.descriptor.tableId ≠ tableId) ∪
        rollback.ginIndexes }

variable [Ord V] [LargeValue V]

/-- `vacuum_table_with_index_rebuild_guard`; `enabled` is the setting of the rebuild. -/
def vacuumTable (s : VacuumState V G D) (enabled : Bool) (kernels : RebuildKernels V G D)
    (tableId : RelationId) (horizon : TxnId) : DbResult Nat × VacuumState V G D :=
  let rebuild := enabled && horizon == 0 &&
    (s.indexes.toList.any (·.2.descriptor.tableId == tableId) ||
      s.ginIndexes.toList.any (·.2.descriptor.tableId == tableId))
  let vacuumed (table : TableData (StoredRow V)) : VacuumState V G D :=
    { s with tables := s.tables.insert tableId (table.vacuum horizon).2 }
  let release (table : TableData (StoredRow V)) (s : VacuumState V G D) : VacuumState V G D :=
    let rows := table.heap.toList.flatMap (·.2.vacuumReleased horizon)
    { s with overflow := rows.foldl OverflowStore.releaseRow s.overflow }
  if rebuild then
    match s.capture tableId with
    | .error e => (.error e, s)
    | .ok rollback =>
      let deadCount := (rollback.table.vacuum horizon).1
      if deadCount = 0 then (.ok 0, vacuumed rollback.table)
      else
        let rebuilt : VacuumM V G D Unit := do
          rebuildBaseBtreeIndexes kernels tableId
          rebuildBaseGinIndexes kernels tableId
        match rebuilt (vacuumed rollback.table) with
        | (.error e, s) => (.error e, s.restore tableId rollback)
        | (.ok _, s) => (.ok deadCount, release rollback.table s)
  else
    match s.tables[tableId]? with
    | none => (.error (.internalMsg "vacuum: table does not exist"), s)
    | some table => (.ok (table.vacuum horizon).1, release table (vacuumed table))

/-! ## What the rebuild touches -/

variable {s₀ s : VacuumState V G D} {tableId : RelationId} {kernels : RebuildKernels V G D}

/-- Every disk index that was registered is as it was. -/
structure KeepsDisk (s s' : VacuumState V G D) : Prop where
  diskOrdered : ∀ (id : IndexId) (d : D),
    s.diskOrderedIndexes[id]? = some d → s'.diskOrderedIndexes[id]? = some d
  diskVarExact : ∀ (id : IndexId) (d : D),
    s.diskVarExactIndexes[id]? = some d → s'.diskVarExactIndexes[id]? = some d

/-- Only indexes of the table have changed, and no registered disk index. -/
structure Touched (tableId : RelationId) (s₀ s : VacuumState V G D) : Prop extends
    KeepsDisk s₀ s where
  tables : s.tables = s₀.tables
  overflow : s.overflow = s₀.overflow
  indexes : (s.indexes.filter fun _ index => index.descriptor.tableId ≠ tableId) =
    s₀.indexes.filter fun _ index => index.descriptor.tableId ≠ tableId
  ginIndexes : (s.ginIndexes.filter fun _ index => index.descriptor.tableId ≠ tableId) =
    s₀.ginIndexes.filter fun _ index => index.descriptor.tableId ≠ tableId

omit [Ord V] [LargeValue V] in
theorem Touched.refl (s : VacuumState V G D) : Touched tableId s s :=
  ⟨⟨fun _ _ h => h, fun _ _ h => h⟩, rfl, rfl, rfl, rfl⟩

theorem filter_insert_owned {X : Type} {owner : X → RelationId} {m m1 m0 : ExtTreeMap IndexId X}
    {id : IndexId} {x y : X} (hx : owner x = tableId) (hy : m1[id]? = some y)
    (howner : owner y = tableId)
    (h1 : (m1.filter fun _ z => owner z ≠ tableId) = m0.filter fun _ z => owner z ≠ tableId)
    (h : (m.filter fun _ z => owner z ≠ tableId) = m0.filter fun _ z => owner z ≠ tableId) :
    ((m.insert id x).filter fun _ z => owner z ≠ tableId) =
      m0.filter fun _ z => owner z ≠ tableId := by
  refine ext_getElem? fun k => ?_
  by_cases hk : k = id
  · subst hk
    rw [← h1]
    simp [hx, hy, howner, Option.filter]
  · rw [← h, getElem?_filter', getElem?_filter', getElem?_insert,
      if_neg fun heq => hk (Std.compare_eq_iff_eq.mp heq).symm]

theorem getElem?_of_installDiskIndex {registry registry' : ExtTreeMap IndexId D} {id k : IndexId}
    {supported : Bool} {load : DbResult (Option D)} {d : D}
    (h : installDiskIndex registry id supported load = .ok registry') (hd : registry[k]? = some d) :
    registry'[k]? = some d := by
  unfold installDiskIndex at h
  split at h
  · cases h
    exact hd
  rename_i hmissing
  cases load with
  | error e => cases h
  | ok loaded =>
    cases h
    cases loaded with
    | none => exact hd
    | some new =>
      have hne : compare id k ≠ .eq := by
        intro heq
        rw [← Std.compare_eq_iff_eq.mp heq] at hd
        simp [contains_eq_isSome_getElem?, hd] at hmissing
      exact (getElem?_insert.trans (if_neg hne)).trans hd

omit [LargeValue V] in
theorem spec_rebuildBtreeIndex {table : TableStorageDescriptor} {rows : List (TupleId × Row V)}
    {id : IndexId} {old : IndexData V} (hold : s₀.indexes[id]? = some old)
    (hown : old.descriptor.tableId = tableId) (h : Touched tableId s₀ s) :
    Spec (rebuildBtreeIndex kernels table rows id old.descriptor) s
      (fun _ => Touched tableId s₀) (Touched tableId s₀) := by
  refine spec_liftExcept_bind (fun rebuilt hok => spec_modify_bind (spec_get_bind ?_)) fun _ _ => h
  have hdescriptor : rebuilt.descriptor = old.descriptor := by
    simp only [IndexData.fromRows, bind_eq_ok] at hok
    obtain ⟨_, -, _, -, _, -, _, -, hok⟩ := hok
    cases hok
    rfl
  have h₁ : Touched tableId s₀ { s with indexes := s.indexes.insert id rebuilt } :=
    { h with indexes := filter_insert_owned (hdescriptor ▸ hown) hold hown rfl h.indexes }
  refine spec_liftExcept_bind (fun fixed hfixed => spec_modify_bind ?_) fun _ _ => h₁
  have h₂ : Touched tableId s₀
      { s with indexes := s.indexes.insert id rebuilt, diskOrderedIndexes := fixed } :=
    { h₁ with diskOrdered := fun k d hd => getElem?_of_installDiskIndex hfixed (h.diskOrdered k d hd) }
  refine spec_liftExcept_bind (fun var hvar => spec_modify ?_) fun _ _ => h₂
  exact { h₂ with
    diskVarExact := fun k d hd => getElem?_of_installDiskIndex hvar (h.diskVarExact k d hd) }

omit [Ord V] in
theorem spec_rebuildOwned {X : Type} {indexes : ExtTreeMap IndexId X}
    {descriptor : X → IndexStorageDescriptor}
    {build : TableStorageDescriptor → List (TupleId × Row V) → IndexId → IndexStorageDescriptor →
      VacuumM V G D Unit}
    (hbuild : ∀ table rows id x, indexes[id]? = some x → (descriptor x).tableId = tableId →
      ∀ s, Touched tableId s₀ s → Spec (build table rows id (descriptor x)) s
        (fun _ => Touched tableId s₀) (Touched tableId s₀))
    (h : Touched tableId s₀ s) :
    Spec (rebuildOwned tableId indexes descriptor build) s (fun _ => Touched tableId s₀)
      (Touched tableId s₀) := by
  refine spec_ite (fun _ => h) fun _ => spec_get_bind (spec_liftExcept_bind (fun loaded _ => ?_)
    fun _ _ => h)
  refine spec_forM _ (fun p hp s hs => ?_) h
  rw [mem_toList_iff_getElem?_eq_some, getElem?_filter', Option.filter_eq_some_iff] at hp
  exact hbuild _ _ _ _ hp.1 (of_decide_eq_true hp.2) s hs

theorem spec_rebuild (s : VacuumState V G D) :
    Spec (do rebuildBaseBtreeIndexes kernels tableId; rebuildBaseGinIndexes kernels tableId) s
      (fun _ => Touched tableId s) (Touched tableId s) := by
  refine spec_bind (spec_get_bind (spec_rebuildOwned (fun table rows id x hx hown s' hs' => ?_)
    (Touched.refl s))) fun _ s1 h1 => spec_get_bind (spec_rebuildOwned ?_ h1)
  · exact spec_rebuildBtreeIndex hx hown hs'
  · intro table rows id x hx hown s' hs'
    refine spec_liftExcept_bind (fun contents _ => spec_modify ?_) fun _ _ => hs'
    exact { hs' with
      ginIndexes := filter_insert_owned hown hx hown h1.ginIndexes hs'.ginIndexes }

/-! ## A failed vacuum -/

theorem filter_union_filter {X : Type} {owner : X → RelationId} {m m0 : ExtTreeMap IndexId X}
    (h : (m.filter fun _ x => owner x ≠ tableId) = m0.filter fun _ x => owner x ≠ tableId) :
    ((m.filter fun _ x => owner x ≠ tableId) ∪ m0.filter fun _ x => owner x = tableId) = m0 := by
  refine ext_getElem? fun id => ?_
  rw [h, getElem?_union, getElem?_filter', getElem?_filter']
  cases m0[id]? with
  | none => rfl
  | some x => by_cases hx : owner x = tableId <;> simp [Option.filter, hx]

/-- The tables, the overflow pages and the indexes are as they were, and so is every disk index
that was registered. -/
structure Unchanged (s s' : VacuumState V G D) : Prop extends KeepsDisk s s' where
  tables : s'.tables = s.tables
  overflow : s'.overflow = s.overflow
  indexes : s'.indexes = s.indexes
  ginIndexes : s'.ginIndexes = s.ginIndexes

omit [Ord V] [LargeValue V] in
theorem Touched.restore {s1 : VacuumState V G D} {table vacuumed : TableData (StoredRow V)}
    (ht : s.tables[tableId]? = some table)
    (h : Touched tableId { s with tables := s.tables.insert tableId vacuumed } s1) :
    Unchanged s (s1.restore tableId {
      table
      indexes := s.indexes.filter fun _ index => index.descriptor.tableId = tableId
      ginIndexes := s.ginIndexes.filter fun _ index => index.descriptor.tableId = tableId }) where
  tables := by
    refine ext_getElem? fun id => ?_
    simp only [VacuumState.restore, h.tables, getElem?_insert]
    split
    · rename_i hid
      rw [← Std.compare_eq_iff_eq.mp hid, ht]
    · rfl
  overflow := h.overflow
  indexes := filter_union_filter h.indexes
  ginIndexes := filter_union_filter h.ginIndexes
  toKeepsDisk := ⟨h.diskOrdered, h.diskVarExact⟩

variable {enabled : Bool} {horizon : TxnId} {s' : VacuumState V G D}

/-- A vacuum that fails changes nothing, but for disk indexes that were missing. One that does
not puts the vacuumed table in place. -/
theorem vacuumTable_spec {result : DbResult Nat}
    (h : s.vacuumTable enabled kernels tableId horizon = (result, s')) :
    match result with
    | .error _ => Unchanged s s'
    | .ok _ => ∃ table, s.tables[tableId]? = some table ∧
        s'.tables = s.tables.insert tableId (table.vacuum horizon).2 := by
  have hrefl : Unchanged s s := ⟨⟨fun _ _ h => h, fun _ _ h => h⟩, rfl, rfl, rfl, rfl⟩
  unfold vacuumTable capture at h
  dsimp only at h
  cases ht : s.tables[tableId]? with
  | none =>
    simp only [ht] at h
    split at h <;> cases h <;> exact hrefl
  | some table =>
    simp only [ht] at h
    split at h
    · split at h
      · cases h
        exact ⟨table, rfl, rfl⟩
      have hspec := @spec_rebuild V G D _ _ tableId kernels
        { s with tables := s.tables.insert tableId (table.vacuum horizon).2 }
      unfold Spec at hspec
      split at h
      all_goals
        rename_i hres
        rw [hres] at hspec
        cases h
      · exact hspec.restore ht
      · exact ⟨table, rfl, hspec.tables⟩
    · cases h
      exact ⟨table, rfl, rfl⟩

theorem failed_vacuum_restores {e : DbError}
    (h : s.vacuumTable enabled kernels tableId horizon = (.error e, s')) : Unchanged s s' :=
  vacuumTable_spec h

instance : LargeValue Nat where
  bytes _ := none
  ofBytes _ _ := .error (.internalMsg "no overflow value")

def allKernels : RebuildKernels Nat Unit Unit where
  ginFromRows _ _ _ := .ok ()
  supportsFixed _ _ := true
  supportsVar _ _ := false
  bulkLoadFixed _ _ _ := .ok (some ())
  bulkLoadVar _ _ _ := .ok none

def oneColumn : TableStorageDescriptor := { tableId := 1, columns := [{ columnId := 1 }] }

def indexOn (indexId : IndexId) (columnId : ColumnId) : IndexData Nat :=
  .newForTable { indexId, tableId := 1, keyColumns := [{ columnId }] } oneColumn

/-- A row with a dead version; the second index is on a column that the table does not have. -/
def twoIndexes : VacuumState Nat Unit Unit where
  tables := (∅ : ExtTreeMap RelationId _).insert 1
    ((({ descriptor := oneColumn } : TableData (StoredRow Nat)).commitInsert 1 2
      [.inline (some 5)]).commitUpdate 1 3 [.inline (some 6)]).2
  overflow := .empty
  indexes := ((∅ : ExtTreeMap IndexId _).insert 7 (indexOn 7 1)).insert 8 (indexOn 8 9)
  ginIndexes := ∅
  diskOrderedIndexes := ∅
  diskVarExactIndexes := ∅

theorem failed_vacuum_restores_two :
    (twoIndexes.vacuumTable true allKernels 1 0).1.toOption = none ∧
      twoIndexes.Unchanged (twoIndexes.vacuumTable true allKernels 1 0).2 := by
  have hfails : (twoIndexes.vacuumTable true allKernels 1 0).1.toOption = none := by decide +kernel
  refine ⟨hfails, ?_⟩
  cases hres : twoIndexes.vacuumTable true allKernels 1 0 with
  | mk result s' =>
    rw [hres] at hfails
    cases result with
    | ok count => cases hfails
    | error e => exact failed_vacuum_restores hres

/-- The disk index of the first index was built before the second one failed, and stays. -/
theorem failed_vacuum_leaves_disk_index :
    (twoIndexes.vacuumTable true allKernels 1 0).1.toOption = none ∧
      twoIndexes.diskOrderedIndexes[7]? = none ∧
      (twoIndexes.vacuumTable true allKernels 1 0).2.diskOrderedIndexes[7]? = some () := by
  decide +kernel

end VacuumState

end AionDb
