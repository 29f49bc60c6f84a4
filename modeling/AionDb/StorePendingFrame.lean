import AionDb.StorePendingOps

/-!
# What a savepoint will bring back

`target p id` is what a rollback to the savepoint `id` would restore. Every
write captures the slots it changes before it changes them, so it leaves every
target as it was (`target_changes`); releasing a savepoint or rolling back
to one leaves the targets of the savepoints that stay.
-/

namespace AionDb

open Std Effect ExtTreeMap List

variable {V R H G : Type}

namespace PendingTransaction

/-! ## Recorded slots -/

def recordSlots (p : PendingTransaction V R H G) (ks : List Slot) : PendingTransaction V R H G :=
  ks.foldl recordUndo p

section

variable (p : PendingTransaction V R H G)
include p

@[simp]
theorem toPendingWork_recordUndo (k : Slot) : (p.recordUndo k).toPendingWork = p.toPendingWork := by
  rw [recordUndo]
  split <;> rfl

@[simp]
theorem toPendingWork_recordSlots (ks : List Slot) :
    (p.recordSlots ks).toPendingWork = p.toPendingWork := by
  induction ks generalizing p with
  | nil => rfl
  | cons k ks ih => exact (ih _).trans (toPendingWork_recordUndo p k)

theorem recordSlots_append (ks ks' : List Slot) :
    p.recordSlots (ks ++ ks') = (p.recordSlots ks).recordSlots ks' := foldl_append

theorem recordSlots_eq (ks : List Slot) :
    p.recordSlots ks = match p.latestSavepointUndoLogLen with
      | none => p
      | some mark =>
        { p with undoLog := PendingWork.slots.recordAll mark p.toPendingWork p.undoLog ks } := by
  induction ks generalizing p with
  | nil => cases h : p.latestSavepointUndoLogLen <;> rfl
  | cons k ks ih =>
    have hstep : p.recordSlots (k :: ks) = (p.recordUndo k).recordSlots ks := rfl
    rw [hstep, ih]
    cases h : p.latestSavepointUndoLogLen with
    | none =>
      have hp : p.recordUndo k = p := by rw [recordUndo, h]
      rw [hp, h]
    | some mark =>
      have hp : p.recordUndo k =
          { p with undoLog := PendingWork.slots.record mark p.toPendingWork p.undoLog k } := by
        rw [recordUndo, h]
      have hmark : (p.recordUndo k).latestSavepointUndoLogLen = some mark := by
        rw [hp]; exact h
      rw [hmark, hp]
      rfl

end

def indexSlots (p : PendingTransaction V R H G) (tableId : RelationId) : List Slot :=
  (idsForTable btreeTableId p.createdIndexes tableId).map .createdIndex ++
    (idsForTable hnswTableId p.createdHnswIndexes tableId).map .createdHnswIndex ++
    (idsForTable ginTableId p.createdGinIndexes tableId).map .createdGinIndex

section

variable (p : PendingTransaction V R H G)
include p

theorem foldl_recordUndo_map (f : IndexId → Slot) (ids : List IndexId) :
    ids.foldl (fun p id => p.recordUndo (f id)) p = p.recordSlots (ids.map f) := by
  rw [recordSlots, foldl_map]

theorem recordCreatedIndexesForTableUndo_eq (t : RelationId) :
    p.recordCreatedIndexesForTableUndo t = p.recordSlots (p.indexSlots t) := by
  unfold recordCreatedIndexesForTableUndo recordCreatedIndexUndo recordCreatedHnswIndexUndo
    recordCreatedGinIndexUndo
  simp only [foldl_recordUndo_map, toPendingWork_recordSlots, indexSlots, recordSlots_append]

theorem recordPendingBaseTableMutationUndo_eq (t : RelationId) :
    p.recordPendingBaseTableMutationUndo t =
      p.recordSlots ([.tableWrites t] ++ p.indexSlots t) := by
  simp only [recordPendingBaseTableMutationUndo, recordCreatedIndexesForTableUndo_eq,
    recordTableWritesUndo]
  simp [indexSlots, recordSlots]

theorem recordPendingCreatedTableMutationUndo_eq (t : RelationId) :
    p.recordPendingCreatedTableMutationUndo t =
      p.recordSlots ([.createdTable t] ++ p.indexSlots t) := by
  simp only [recordPendingCreatedTableMutationUndo, recordCreatedIndexesForTableUndo_eq,
    recordCreatedTableUndo]
  simp [indexSlots, recordSlots]

theorem recordPendingTableDefinitionUndo_eq (t : RelationId) :
    p.recordPendingTableDefinitionUndo t = p.recordSlots
      ([.tableWrites t, .createdTable t, .alteredTable t, .droppedTable t] ++ p.indexSlots t) := by
  simp only [recordPendingTableDefinitionUndo, recordCreatedIndexesForTableUndo_eq,
    recordTableWritesUndo, recordCreatedTableUndo, recordAlteredTableUndo,
    recordDroppedTableUndo]
  simp [indexSlots, recordSlots]

end

variable {p p' p'' : PendingTransaction V R H G}

theorem mem_idsForTable {I : Type} {tableOf : I → RelationId} {m : ExtTreeMap IndexId I}
    {t : RelationId} {id : IndexId} :
    id ∈ idsForTable tableOf m t ↔ ∃ x, m[id]? = some x ∧ tableOf x = t := by
  simp only [idsForTable, mem_filterMap, Prod.exists]
  constructor
  · rintro ⟨k, x, hmem, hk⟩
    split at hk
    · obtain rfl := Option.some.inj hk
      exact ⟨x, mem_toList_iff_getElem?_eq_some.mp hmem, by assumption⟩
    · simp at hk
  · rintro ⟨x, hx, ht⟩
    exact ⟨id, x, mem_toList_iff_getElem?_eq_some.mpr hx, by simp [ht]⟩

def IndexOf (t : RelationId) (p : PendingTransaction V R H G) : Slot → Prop
  | .createdIndex i => ∃ x, p.createdIndexes[i]? = some x ∧ btreeTableId x = t
  | .createdHnswIndex i => ∃ x, p.createdHnswIndexes[i]? = some x ∧ hnswTableId x = t
  | .createdGinIndex i => ∃ x, p.createdGinIndexes[i]? = some x ∧ ginTableId x = t
  | _ => False

theorem mem_indexSlots {t : RelationId} {k : Slot} : k ∈ p.indexSlots t ↔ IndexOf t p k := by
  cases k <;> simp [indexSlots, IndexOf, mem_idsForTable]

theorem IndexOf.congr {t : RelationId} {k : Slot}
    (hk : p'.capture k = p.capture k) (h : IndexOf t p' k) : IndexOf t p k := by
  cases k <;> simp_all [IndexOf, PendingWork.capture]

/-! ## Changes inside a set of slots -/

/-- Only slots of `S` change, and nothing is taken from the buffers. -/
structure Within (S : Slot → Prop) (p p' : PendingTransaction V R H G) : Prop where
  same : ∀ k, ¬ S k → p'.capture k = p.capture k
  savepoints : p'.savepoints = p.savepoints
  undoLog : p'.undoLog = p.undoLog
  nextSavepointId : p'.nextSavepointId = p.nextSavepointId
  adjacency : p.pendingAdjacency <+: p'.pendingAdjacency
  hnsw : p.pendingHnsw <+: p'.pendingHnsw

theorem Within.refl (S : Slot → Prop) (p : PendingTransaction V R H G) : Within S p p :=
  ⟨fun _ _ => rfl, rfl, rfl, rfl, prefix_rfl, prefix_rfl⟩

theorem Within.trans {S : Slot → Prop} (h : Within S p p')
    (h' : Within S p' p'') : Within S p p'' :=
  ⟨fun k hk => (h'.same k hk).trans (h.same k hk), h'.savepoints.trans h.savepoints,
    h'.undoLog.trans h.undoLog, h'.nextSavepointId.trans h.nextSavepointId,
    h.adjacency.trans h'.adjacency, h.hnsw.trans h'.hnsw⟩

instance (S : Slot → Prop) : Std.Refl (Within (V := V) (R := R) (H := H) (G := G) S) where
  refl := Within.refl S

instance (S : Slot → Prop) : IsTrans _ (Within (V := V) (R := R) (H := H) (G := G) S) where
  trans _ _ _ := Within.trans

theorem Within.mono {S S' : Slot → Prop} (h : Within S p p')
    (hS : ∀ k, S k → S' k) : Within S' p p' :=
  { h with same := fun k hk => h.same k fun hS' => hk (hS k hS') }

theorem within_work {S : Slot → Prop} {w : PendingWork V R H G}
    (h : ∀ k, ¬ S k → w.capture k = p.capture k) :
    Within S p { p with toPendingWork := w } :=
  ⟨h, rfl, rfl, rfl, prefix_rfl, prefix_rfl⟩

/-- The contents of some slots are set. -/
theorem within_sets {S : Slot → Prop} (as : List (UndoAction V R H G)) (hS : ∀ a ∈ as, S a.slot)
    (p : PendingTransaction V R H G) :
    Within S p { p with toPendingWork := as.foldl PendingWork.applyUndoAction p.toPendingWork } := by
  induction as generalizing p with
  | nil => exact Within.refl _ p
  | cons a as ih =>
    obtain ⟨ha, has⟩ := forall_mem_cons.mp hS
    refine (within_work fun k hk => ?_).trans (ih has { p with toPendingWork := p.applyUndoAction a })
    refine PendingWork.slots.capture_apply_of_ne _ a k ?_
    rintro rfl
    exact hk ha

theorem within_set (a : UndoAction V R H G) (p : PendingTransaction V R H G) :
    Within (· = a.slot) p { p with toPendingWork := p.applyUndoAction a } :=
  within_sets [a] (by simp) p

/-- Only the slots `own` and the created indexes of the table change. -/
def Changes (own : List Slot) (t : RelationId) (p p' : PendingTransaction V R H G) : Prop :=
  Within (fun k => k ∈ own ∨ IndexOf t p k) p p'

variable {own : List Slot} {t : RelationId}

instance : Std.Refl (Changes (V := V) (R := R) (H := H) (G := G) own t) where
  refl p := Within.refl _ p

/-- An index that is of the table after a change was so before, or has changed. -/
instance : IsTrans _ (Changes (V := V) (R := R) (H := H) (G := G) own t) where
  trans p p' p'' h h' := by
    refine Within.trans h (Within.mono h' ?_)
    rintro k (hk | hk)
    · exact .inl hk
    · by_contra hcon
      exact hcon (.inr (hk.congr (h.same k hcon)))

theorem changes_of_own (h : Within (· ∈ own) p p') : Changes own t p p' := h.mono fun _ => .inl

theorem changes_buffer (p : PendingTransaction V R H G)
    (adjacency : List (PendingAdjacencyChange V)) (hnsw : List (PendingHnswChange V)) :
    Changes own t p { p with
      pendingAdjacency := p.pendingAdjacency ++ adjacency
      pendingHnsw := p.pendingHnsw ++ hnsw } :=
  ⟨fun _ _ => rfl, rfl, rfl, rfl, prefix_append .., prefix_append ..⟩

theorem moves_bufferAdjacencyChange {t' : RelationId} {endpoints : EdgeEndpoints V} {id : TupleId}
    {op : AdjacencyOp} : Moves (Changes own t)
      (modify (·.bufferAdjacencyChange t' endpoints id op) : PendingM V R H G Unit) := by
  refine moves_modify fun p => ?_
  cases endpoints with
  | none => exact Std.Refl.refl p
  | some e => simpa [bufferAdjacencyChange] using changes_buffer p [⟨t', e.1, e.2, id, op⟩] []

theorem moves_pushPendingHnswChanges {ids : List IndexId} {t' : RelationId} {id : TupleId}
    {row : Row V} {op : HnswOp} : Moves (Changes own t)
      (modify (·.pushPendingHnswChanges ids t' id row op) : PendingM V R H G Unit) :=
  moves_modify fun p => by simpa [pushPendingHnswChanges] using changes_buffer p [] _

theorem moves_updateWrites (h : .tableWrites t ∈ own) {f : TableWriteSet V → TableWriteSet V} :
    Moves (Changes own t) (modify (·.updateWrites t f) : PendingM V R H G Unit) :=
  moves_modify fun p =>
    changes_of_own (within_sets [.tableWritesEntry t (some _)] (forall_mem_singleton.mpr h) p)

theorem changes_removeCreatedIndexesForTable (p : PendingTransaction V R H G) :
    Changes own t p (p.removeCreatedIndexesForTable t) := by
  have hfilter : ∀ {I : Type} (tableOf : I → RelationId) (m : ExtTreeMap IndexId I) (i : IndexId),
      (¬ ∃ x, m[i]? = some x ∧ tableOf x = t) →
      (m.filter fun _ x => decide (tableOf x ≠ t))[i]? = m[i]? := by
    intro I tableOf m i hi
    rw [getElem?_filter']
    cases hm : m[i]? with
    | none => rfl
    | some x =>
      have hx : tableOf x ≠ t := fun hx => hi ⟨x, hm, hx⟩
      simp [hx]
  refine within_work fun k hk => ?_
  rw [not_or] at hk
  cases k with
  | createdIndex i =>
    exact congrArg (UndoAction.createdIndexEntry i) (hfilter btreeTableId _ i hk.2)
  | createdHnswIndex i =>
    exact congrArg (UndoAction.createdHnswIndexEntry i) (hfilter hnswTableId _ i hk.2)
  | createdGinIndex i =>
    exact congrArg (UndoAction.createdGinIndexEntry i) (hfilter ginTableId _ i hk.2)
  | _ => rfl

theorem within_editCreatedTable (m : Eff (TableData R) DbError Unit) :
    Moves (Within (· = .createdTable t)) (editCreatedTable (V := V) (H := H) (G := G) t m) := by
  intro p
  rw [editCreatedTable]
  split
  · exact Within.refl _ p
  exact within_set (.createdTableEntry t (some _)) p

theorem changes_editCreatedTable (h : .createdTable t ∈ own) (m : Eff (TableData R) DbError Unit) :
    Moves (Changes own t) (editCreatedTable (V := V) (H := H) (G := G) t m) :=
  fun p => changes_of_own ((within_editCreatedTable m p).mono fun _ hk => hk ▸ h)

theorem within_editWrites (m : TableWriteSet V → Eff (TableWriteSet V) DbError Unit) :
    Moves (Within (· = .tableWrites t)) (editWrites (R := R) (H := H) (G := G) t m) := by
  intro p
  rw [editWrites]
  split
  · exact Within.refl _ p
  exact within_set (.tableWritesEntry t (some _)) p

/-! ## Rewriting created indexes -/

/-- The slots a map of created indexes is made of. -/
structure SlotsOf {I : Type} (field : CreatedIndexes V R H G I) (slot : IndexId → Slot) : Prop where
  within : ∀ p i x, Within (· = slot i) p (field.withIndexes p ((field.indexes p).insert i x))
  indexOf : ∀ p i x, (field.indexes p)[i]? = some x → IndexOf (field.tableOf x) p (slot i)

theorem slotsOf_createdBtree :
    SlotsOf (createdBtree (V := V) (R := R) (H := H) (G := G)) .createdIndex where
  within p i x := within_set (.createdIndexEntry i (some x)) p
  indexOf _ _ x h := ⟨x, h, rfl⟩

theorem slotsOf_createdHnsw :
    SlotsOf (createdHnsw (V := V) (R := R) (H := H) (G := G)) .createdHnswIndex where
  within p i x := within_set (.createdHnswIndexEntry i (some x)) p
  indexOf _ _ x h := ⟨x, h, rfl⟩

theorem slotsOf_createdGin :
    SlotsOf (createdGin (V := V) (R := R) (H := H) (G := G)) .createdGinIndex where
  within p i x := within_set (.createdGinIndexEntry i (some x)) p
  indexOf _ _ x h := ⟨x, h, rfl⟩

section
variable {I : Type} {field : CreatedIndexes V R H G I} {slot : IndexId → Slot}

theorem within_edit (hf : SlotsOf field slot) (m : Eff I DbError Unit) (i : IndexId) :
    Moves (Within (· = slot i)) (field.edit m i) := by
  intro p
  rw [CreatedIndexes.edit]
  split
  · exact Within.refl _ p
  · exact hf.within p i _

theorem changes_rewrite (hf : SlotsOf field slot) (m : Eff I DbError Unit) :
    Moves (Changes own t) (field.rewrite t m) := by
  intro p
  have hids : ∀ i ∈ idsForTable field.tableOf (field.indexes p) t, IndexOf t p (slot i) := by
    intro i hi
    obtain ⟨x, hx, rfl⟩ := mem_idsForTable.mp hi
    exact hf.indexOf p i x hx
  have hmoves : Moves (Within (IndexOf t p))
      ((idsForTable field.tableOf (field.indexes p) t).forM (field.edit m)) := by
    refine moves_forM _ fun i hi q => (within_edit hf m i q).mono ?_
    rintro k rfl
    exact hids i hi
  exact (hmoves p).mono fun k => .inr

theorem changes_rewriteForIds (hf : SlotsOf field slot) (ids : List IndexId)
    (m : Eff I DbError Unit) : Moves (Changes own t) (field.rewriteForIds t ids m) := by
  refine moves_forM _ fun i _ => ?_
  intro p
  have hget : ∀ k : _ → PendingM V R H G Unit, (get >>= k) p = k p p := fun _ => rfl
  rw [hget]
  cases hx : (field.indexes p)[i]? with
  | none => exact Std.Refl.refl p
  | some x =>
    by_cases ht : field.tableOf x = t
    · simp only [ht, if_true]
      refine (within_edit hf m i p).mono ?_
      rintro k rfl
      exact .inr (ht ▸ hf.indexOf p i x hx)
    · simp only [ht, if_false]
      exact Std.Refl.refl p

end

theorem changes_rewriteCreatedIndexes [Ord V] {kernels : IndexKernels V H G}
    {descriptor : TableStorageDescriptor} {id : TupleId} {oldRow newRow : Option (Row V)} :
    Moves (Changes own t) (rewriteCreatedIndexes (R := R) kernels descriptor t id oldRow newRow) :=
  moves_bind (changes_rewrite slotsOf_createdBtree _) fun _ =>
    moves_bind (changes_rewrite slotsOf_createdHnsw _) fun _ =>
      changes_rewrite slotsOf_createdGin _

/-! ## Targets of savepoints -/

/-- Savepoints lie in the log and the buffers in the order of their ids. -/
structure Ordered (p : PendingTransaction V R H G) : Prop where
  id_lt : ∀ (id : Nat) (sn : SavepointSnapshot), p.savepoints[id]? = some sn → id < p.nextSavepointId
  log_le : ∀ (id : Nat) (sn : SavepointSnapshot), p.savepoints[id]? = some sn →
    sn.undoLogLen ≤ p.undoLog.length
  adjacency_le : ∀ (id : Nat) (sn : SavepointSnapshot), p.savepoints[id]? = some sn →
    sn.pendingAdjacencyLen ≤ p.pendingAdjacency.length
  hnsw_le : ∀ (id : Nat) (sn : SavepointSnapshot), p.savepoints[id]? = some sn →
    sn.pendingHnswLen ≤ p.pendingHnsw.length
  mono : ∀ (id id' : Nat) (sn sn' : SavepointSnapshot), id ≤ id' → p.savepoints[id]? = some sn →
    p.savepoints[id']? = some sn' → sn.undoLogLen ≤ sn'.undoLogLen ∧
      sn.pendingAdjacencyLen ≤ sn'.pendingAdjacencyLen ∧ sn.pendingHnswLen ≤ sn'.pendingHnswLen

/-- What a rollback to a savepoint restores. -/
structure Target (V R H G : Type) where
  work : PendingWork V R H G
  pendingAdjacency : List (PendingAdjacencyChange V)
  pendingHnsw : List (PendingHnswChange V)

def target (p : PendingTransaction V R H G) (id : Nat) : Option (Target V R H G) :=
  p.savepoints[id]?.map fun sn =>
    { work := PendingWork.slots.undo (p.undoLog.drop sn.undoLogLen) p.toPendingWork
      pendingAdjacency := p.pendingAdjacency.take sn.pendingAdjacencyLen
      pendingHnsw := p.pendingHnsw.take sn.pendingHnswLen }

/-- The savepoints and their targets are as before. -/
structure Kept (p p' : PendingTransaction V R H G) : Prop where
  ordered : p'.Ordered
  savepoints : p'.savepoints = p.savepoints
  nextSavepointId : p'.nextSavepointId = p.nextSavepointId
  target : ∀ id, p'.target id = p.target id

theorem latestSavepointUndoLogLen_spec {mark : Nat}
    (h : p.latestSavepointUndoLogLen = some mark) :
    (∀ (id : Nat) (sn : SavepointSnapshot), p.savepoints[id]? = some sn →
      sn.undoLogLen ≤ mark) ∧
      ∃ (id : Nat) (sn : SavepointSnapshot), p.savepoints[id]? = some sn ∧
        sn.undoLogLen = mark := by
  obtain ⟨hmem, hmax⟩ := max?_eq_some_iff.mp h
  constructor
  · intro id sn hsn
    refine hmax _ (mem_map.mpr ⟨(id, sn), ?_, rfl⟩)
    exact mem_toList_iff_getElem?_eq_some.mpr hsn
  · obtain ⟨⟨id, sn⟩, hsn, hlen⟩ := mem_map.mp hmem
    exact ⟨id, sn, mem_toList_iff_getElem?_eq_some.mp hsn, hlen⟩

theorem latestSavepointUndoLogLen_none
    (h : p.latestSavepointUndoLogLen = none) (id : Nat) : p.savepoints[id]? = none := by
  rw [latestSavepointUndoLogLen, max?_eq_none_iff, map_eq_nil_iff] at h
  by_contra hne
  obtain ⟨sn, hsn⟩ := Option.ne_none_iff_exists'.mp hne
  have := mem_toList_iff_getElem?_eq_some.mpr hsn
  simp [h] at this

theorem kept_within (hord : p.Ordered) (ks : List Slot)
    (hw : Within (· ∈ ks) (p.recordSlots ks) p') : Kept p p' := by
  rw [recordSlots_eq] at hw
  cases hlatest : p.latestSavepointUndoLogLen with
  | none =>
    simp only [hlatest] at hw
    have hnone := latestSavepointUndoLogLen_none hlatest
    have hnone' : ∀ id : Nat, p'.savepoints[id]? = none := by rw [hw.savepoints]; exact hnone
    refine ⟨⟨?_, ?_, ?_, ?_, ?_⟩, hw.savepoints, hw.nextSavepointId, ?_⟩ <;>
      simp [target, hnone, hnone']
  | some mark =>
    simp only [hlatest] at hw
    obtain ⟨hle, idm, snm, hsnm, rfl⟩ := latestSavepointUndoLogLen_spec hlatest
    have hmark := hord.log_le idm snm hsnm
    have hlog : p.undoLog.length ≤ p'.undoLog.length := by
      rw [hw.undoLog]
      exact (PendingWork.slots.prefix_recordAll ks).length_le
    have hsp : p'.savepoints = p.savepoints := hw.savepoints
    refine ⟨⟨?_, ?_, ?_, ?_, ?_⟩, hsp, hw.nextSavepointId, ?_⟩
    · intro id sn h
      rw [hsp] at h
      rw [hw.nextSavepointId]
      exact hord.id_lt id sn h
    · intro id sn h
      rw [hsp] at h
      exact Nat.le_trans (hord.log_le id sn h) hlog
    · intro id sn h
      rw [hsp] at h
      exact Nat.le_trans (hord.adjacency_le id sn h) hw.adjacency.length_le
    · intro id sn h
      rw [hsp] at h
      exact Nat.le_trans (hord.hnsw_le id sn h) hw.hnsw.length_le
    · rw [hsp]
      exact hord.mono
    · intro id
      rw [target, target, hsp]
      cases hid : p.savepoints[id]? with
      | none => rfl
      | some sn =>
        have hwork : PendingWork.slots.undo (p'.undoLog.drop sn.undoLogLen) p'.toPendingWork =
            PendingWork.slots.undo (p.undoLog.drop sn.undoLogLen) p.toPendingWork := by
          rw [hw.undoLog]
          exact PendingWork.slots.undo_change (hle id sn hid) hmark hw.same
        obtain ⟨as, has⟩ := hw.adjacency
        obtain ⟨hs, hhs⟩ := hw.hnsw
        have hadj : p'.pendingAdjacency.take sn.pendingAdjacencyLen =
            p.pendingAdjacency.take sn.pendingAdjacencyLen := by
          rw [← has]
          exact take_append_of_le_length (hord.adjacency_le id sn hid)
        have hhn : p'.pendingHnsw.take sn.pendingHnswLen =
            p.pendingHnsw.take sn.pendingHnswLen := by
          rw [← hhs]
          exact take_append_of_le_length (hord.hnsw_le id sn hid)
        simp only [Option.map_some, hwork, hadj, hhn]

theorem kept_changes (hord : p.Ordered)
    (h : Changes own t (p.recordSlots (own ++ p.indexSlots t)) p') : Kept p p' := by
  refine kept_within hord _ (Within.mono h ?_)
  rintro k (hk | hk)
  · exact mem_append_left _ hk
  · refine mem_append_right _ (mem_indexSlots.mpr (hk.congr ?_))
    rw [toPendingWork_recordSlots]

theorem kept_record (hord : p.Ordered) (ks : List Slot)
    {capture : PendingTransaction V R H G → PendingTransaction V R H G}
    {body : PUnit → PendingM V R H G Unit} (hcapture : capture p = p.recordSlots ks)
    (hbody : Moves (Within (· ∈ ks)) (body ⟨⟩)) :
    Kept p (((modify capture : PendingM V R H G PUnit) >>= body) p).2 := by
  refine kept_within hord ks ?_
  rw [← hcapture]
  exact hbody (capture p)

theorem kept_write (hord : p.Ordered)
    {capture : PendingTransaction V R H G → PendingTransaction V R H G}
    {body : PUnit → PendingM V R H G Unit}
    (hcapture : capture p = p.recordSlots (own ++ p.indexSlots t))
    (hbody : Moves (Changes own t) (body ⟨⟩)) :
    Kept p (((modify capture : PendingM V R H G PUnit) >>= body) p).2 := by
  refine @kept_changes V R H G p _ own t hord ?_
  rw [← hcapture]
  exact hbody (capture p)

/-! ## Every write keeps the targets -/

section
variable (hord : p.Ordered)

include hord

section
variable [Ord V] (kernels : IndexKernels V H G) (c : WriteContext)

theorem kept_insertBase (row : Row V) (edge : EdgeEndpoints V) :
    Kept p (insertBase kernels c row edge p).2 := by
  refine kept_write hord (recordPendingBaseTableMutationUndo_eq p c.tableId) ?_
  refine moves_bind (moves_updateWrites (by simp)) fun _ => ?_
  refine moves_bind changes_rewriteCreatedIndexes fun _ => ?_
  refine moves_bind moves_pushPendingHnswChanges fun _ => ?_
  exact moves_bufferAdjacencyChange

theorem kept_updateBase (plan : IndexUpdateSet) (oldRow row : Row V)
    (oldEdge edge : EdgeEndpoints V) :
    Kept p (updateBase kernels c plan oldRow row oldEdge edge p).2 := by
  rw [updateBase]
  refine kept_write hord (recordPendingBaseTableMutationUndo_eq p c.tableId) ?_
  refine moves_bind (moves_updateWrites (by simp)) fun _ => ?_
  refine moves_bind (changes_rewriteForIds slotsOf_createdBtree _ _) fun _ => ?_
  refine moves_bind (changes_rewriteForIds slotsOf_createdHnsw _ _) fun _ => ?_
  refine moves_bind (changes_rewriteForIds slotsOf_createdGin _ _) fun _ => ?_
  refine moves_bind ?_ fun _ => ?_
  · split
    · exact moves_pure _
    · exact moves_bind moves_pushPendingHnswChanges fun _ => moves_pushPendingHnswChanges
  · exact moves_bind moves_bufferAdjacencyChange fun _ => moves_bufferAdjacencyChange

theorem kept_deleteBase (oldRow : Row V) (edge : EdgeEndpoints V) :
    Kept p (deleteBase kernels c oldRow edge p).2 := by
  refine kept_write hord (recordPendingBaseTableMutationUndo_eq p c.tableId) ?_
  refine moves_bind (moves_updateWrites (by simp)) fun _ => ?_
  refine moves_bind changes_rewriteCreatedIndexes fun _ => ?_
  refine moves_bind moves_pushPendingHnswChanges fun _ => ?_
  exact moves_bufferAdjacencyChange

theorem kept_insertCreated (txn : TxnId) (row : Row V) (stored : R) (edge : EdgeEndpoints V) :
    Kept p (insertCreated kernels c txn row stored edge p).2 := by
  refine kept_write hord (recordPendingCreatedTableMutationUndo_eq p c.tableId) ?_
  refine moves_bind (changes_editCreatedTable (by simp) _) fun _ => ?_
  refine moves_bind changes_rewriteCreatedIndexes fun _ => ?_
  exact moves_bufferAdjacencyChange

theorem kept_updateCreated [DecidableEq V] (txn : TxnId) (oldRow row : Row V) (stored : R)
    (oldEdge edge : EdgeEndpoints V) :
    Kept p (updateCreated kernels c txn oldRow row stored oldEdge edge p).2 := by
  refine kept_write hord (recordPendingCreatedTableMutationUndo_eq p c.tableId) ?_
  refine moves_bind (changes_editCreatedTable (by simp) _) fun _ => ?_
  refine moves_bind moves_get fun q => ?_
  refine moves_bind ?_ fun _ => ?_
  · split
    · exact changes_rewriteCreatedIndexes
    · exact moves_pure _
  · exact moves_bind moves_bufferAdjacencyChange fun _ => moves_bufferAdjacencyChange

theorem kept_deleteCreated (txn : TxnId) (oldRow : Row V) (edge : EdgeEndpoints V) :
    Kept p (deleteCreated kernels c txn oldRow edge p).2 := by
  refine kept_write hord (recordPendingCreatedTableMutationUndo_eq p c.tableId) ?_
  refine moves_bind (changes_editCreatedTable (by simp) _) fun _ => ?_
  refine moves_bind changes_rewriteCreatedIndexes fun _ => ?_
  exact moves_bufferAdjacencyChange

end

def definitionSlots (t : RelationId) : List Slot :=
  [.tableWrites t, .createdTable t, .alteredTable t, .droppedTable t]

omit hord in
theorem changes_definition (as : List (UndoAction V R H G)) (h : ∀ a ∈ as, a.slot ∈ definitionSlots t) :
    Changes (definitionSlots t) t p
      { p with toPendingWork := as.foldl PendingWork.applyUndoAction p.toPendingWork } :=
  changes_of_own (within_sets as h p)

theorem kept_createTable (descriptor : TableStorageDescriptor) :
    Kept p (createTable descriptor p).2 := by
  refine kept_write hord (recordPendingTableDefinitionUndo_eq p descriptor.tableId) ?_
  refine moves_bind (moves_modify fun p => ?_) fun _ => ?_
  · exact changes_definition [.droppedTableMembership _ false, .alteredTableEntry _ none,
      .tableWritesEntry _ none] (by simp [UndoAction.slot, definitionSlots])
  refine moves_bind (moves_modify fun p => changes_removeCreatedIndexesForTable p) fun _ => ?_
  exact moves_modify fun p => changes_definition [.createdTableEntry _ (some _)]
    (by simp [UndoAction.slot, definitionSlots])

theorem kept_dropTable (t : RelationId) (baseExists : Bool) :
    Kept p (dropTable t baseExists p).2 := by
  refine kept_write hord (recordPendingTableDefinitionUndo_eq p t) ?_
  refine moves_bind (moves_modify fun p => ?_) fun _ => ?_
  · exact changes_definition [.tableWritesEntry t none, .alteredTableEntry t none]
      (by simp [UndoAction.slot, definitionSlots])
  refine moves_bind (moves_modify fun p => changes_removeCreatedIndexesForTable p) fun _ => ?_
  refine moves_modify fun p => ?_
  split
  · exact changes_definition [.createdTableEntry t none, .droppedTableMembership t true]
      (by simp [UndoAction.slot, definitionSlots])
  · exact changes_definition [.createdTableEntry t none] (by simp [UndoAction.slot, definitionSlots])

def indexDefinitionSlots (i : IndexId) : List Slot :=
  [.createdIndex i, .createdHnswIndex i, .createdGinIndex i, .droppedIndex i]

theorem kept_createIndex {I : Type} {field : CreatedIndexes V R H G I} {slot : IndexId → Slot}
    (hf : SlotsOf field slot) (i : IndexId) (hslot : slot i ∈ indexDefinitionSlots i) (index : I) :
    Kept p (createIndex field i index p).2 := by
  refine kept_record hord (indexDefinitionSlots i) rfl ?_
  refine moves_bind (moves_modify fun p => ?_) fun _ =>
    moves_modify fun p => (hf.within p i index).mono ?_
  · exact within_sets [.droppedIndexMembership i false]
      (by simp [UndoAction.slot, indexDefinitionSlots]) p
  · rintro k rfl
    exact hslot

theorem kept_dropIndex (i : IndexId) : Kept p (dropIndex i p).2 := by
  refine kept_record hord (indexDefinitionSlots i) rfl ?_
  refine moves_modify fun p => within_work fun k hk => ?_
  cases k with
  | droppedIndex j =>
    have hne : i ≠ j := by rintro rfl; exact hk (by simp [indexDefinitionSlots])
    simp only [PendingWork.capture]
    split <;> simp [ExtTreeSet.contains_insert, hne]
  | createdIndex j | createdHnswIndex j | createdGinIndex j =>
    have hne : i ≠ j := by rintro rfl; exact hk (by simp [indexDefinitionSlots])
    simp [PendingWork.capture, getElem?_erase, hne]
  | _ => rfl

theorem kept_alterCreated (target : TableStorageDescriptor) : Kept p (alterCreated target p).2 := by
  refine kept_record hord [.createdTable target.tableId] rfl ?_
  exact fun q => (within_editCreatedTable _ q).mono fun k hk => mem_singleton.mpr hk

omit hord in
theorem within_alterBase (t : RelationId) (target : TableStorageDescriptor)
    (p : PendingTransaction V R H G) : Within (· = .alteredTable t) p
      { p with alteredTables := p.alteredTables.insert t target } :=
  within_set (.alteredTableEntry t (some target)) p

theorem kept_alterBase (current target : TableStorageDescriptor) :
    Kept p (alterBase current target p).2 := by
  set t := target.tableId
  set m : TableWriteSet V → Eff (TableWriteSet V) DbError Unit := fun writes => do
    rewritePendingRows current target writes.rows.toList
    modify fun w => { w with indexUpdateSets := ∅ }
  set body : PendingM V R H G Unit := do
    editWrites t m
    modify fun p => { p with alteredTables := p.alteredTables.insert t target }
  set q := p.recordAlteredTableUndo t with hq
  have hstep : alterBase current target p =
      body (if t ∈ q.tableWrites then q.recordTableWritesUndo t else q) := rfl
  have hwork : q.tableWrites = p.tableWrites := by
    rw [hq, recordAlteredTableUndo, toPendingWork_recordUndo]
  rw [hstep, hwork]
  by_cases hw : t ∈ p.tableWrites
  · rw [if_pos hw]
    refine kept_within hord [.alteredTable t, .tableWrites t] ?_
    have hmoves : Moves (Within (· ∈ [Slot.alteredTable t, .tableWrites t])) body :=
      moves_bind (fun q => (within_editWrites m q).mono (by rintro k rfl; simp)) fun _ =>
        moves_modify fun q => (within_alterBase t target q).mono (by rintro k rfl; simp)
    exact hmoves _
  · rw [if_neg hw]
    have hnone : q.tableWrites[t]? = none := by
      rw [hwork]
      exact getElem?_eq_none hw
    have hskip : body q = (.ok (), { q with alteredTables := q.alteredTables.insert t target }) := by
      show ((editWrites t m >>= fun _ => _ : PendingM V R H G Unit)) q = _
      have hedit : editWrites t m q = (.ok (), q) := by rw [editWrites, hnone]
      simp only [bind, ExceptT.bind, ExceptT.mk, StateT.bind, hedit]
      rfl
    rw [hskip]
    refine kept_within hord [.alteredTable t] ?_
    exact (within_alterBase t target q).mono fun k hk => mem_singleton.mpr hk

end

end PendingTransaction

end AionDb
