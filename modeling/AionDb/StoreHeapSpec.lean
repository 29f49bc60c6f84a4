import AionDb.StoreHeap

/-!
# What publishing a row does to the heap

Publishing touches the heap at one tuple id. `Publishes` says what the tuple
becomes when a row is published under its id: another version of a live tuple,
or a new tuple of one version. `Retires` says what it becomes when its live
row is deleted. What the latest row of a tuple is follows from these alone.
-/

namespace AionDb

open Std

variable {R : Type}

namespace HeapTuple

def latest (t : HeapTuple R) : Option (HeapTupleVersion R) :=
  t.latestVisibleIndex.bind (t.versions[·]?)

@[simp]
theorem latest_single (v : HeapTupleVersion R) (h : v.isLive = true) :
    (single v h).latest = some v := rfl

@[simp]
theorem latest_replaceLatest (t : HeapTuple R) (i : Nat) (hi : t.latestVisibleIndex = some i)
    (txn : TxnId) (v : HeapTupleVersion R) (h : v.isLive = true) :
    (t.replaceLatest i hi txn v h).latest = some v := by
  simp [latest, replaceLatest, markDead]

@[simp]
theorem latest_deleteLatest (t : HeapTuple R) (i : Nat) (hi : t.latestVisibleIndex = some i)
    (txn : TxnId) : (t.deleteLatest i hi txn).latest = none := rfl

end HeapTuple

/-- The tuple under an id before and after `txn` publishes `row` there. -/
inductive Publishes (txn : TxnId) (row : R) : Option (HeapTuple R) → HeapTuple R → Prop where
  | update {t : HeapTuple R} {i : Nat} (hi : t.latestVisibleIndex = some i)
      {v : HeapTupleVersion R} (hv : v.isLive = true) (hrow : v.row = row) (hxmin : v.xmin = txn) :
      Publishes txn row (some t) (t.replaceLatest i hi txn v hv)
  | insert {old : Option (HeapTuple R)} (hold : old.bind (·.latest) = none)
      {v : HeapTupleVersion R} (hv : v.isLive = true) (hrow : v.row = row) (hxmin : v.xmin = txn) :
      Publishes txn row old (.single v hv)

/-- The tuple under an id before and after `txn` deletes its live row. -/
inductive Retires (txn : TxnId) : Option (HeapTuple R) → HeapTuple R → Prop where
  | delete {t : HeapTuple R} {i : Nat} (hi : t.latestVisibleIndex = some i) :
      Retires txn (some t) (t.deleteLatest i hi txn)

theorem Publishes.latest_row {txn : TxnId} {row : R} {old : Option (HeapTuple R)}
    {new : HeapTuple R} (h : Publishes txn row old new) : new.latest.map (·.row) = some row := by
  cases h with
  | update hi hv hrow hxmin => simp [hrow]
  | insert hold hv hrow hxmin => simp [hrow]

theorem Retires.latest {txn : TxnId} {old : Option (HeapTuple R)} {new : HeapTuple R}
    (h : Retires txn old new) : new.latest = none := by
  cases h with
  | delete hi => simp

namespace TableData

variable {t t' : TableData R} {id : TupleId} {txn : TxnId} {row : R}

theorem loadLatestRow_eq (t : TableData R) (id : TupleId) :
    t.loadLatestRow id = (t.heap[id]?.bind (·.latest)).map (·.row) := rfl

theorem loadLatestRow_of_not_mem (h : id ∉ t.heap) : t.loadLatestRow id = none := by
  simp [loadLatestRow_eq, ExtTreeMap.getElem?_eq_none h]

theorem mem_heap_of_loadLatestRow (h : t.loadLatestRow id = some row) : id ∈ t.heap := by
  by_contra hmem
  simp [loadLatestRow_of_not_mem hmem] at h

/-- `t'` is `t` with `new` under the id, up to the counters. -/
structure SetsTuple (t : TableData R) (id : TupleId) (new : HeapTuple R) (t' : TableData R) :
    Prop where
  heap : t'.heap = t.heap.insert id new
  descriptor : t'.descriptor = t.descriptor

namespace SetsTuple

variable {new : HeapTuple R}

section

variable (h : t.SetsTuple id new t') (id' : TupleId)
include h id'

theorem getElem? : t'.heap[id']? = if id' = id then some new else t.heap[id']? := by
  simp [h.heap, ExtTreeMap.getElem?_insert, @eq_comm _ id]

theorem loadLatestRow :
    t'.loadLatestRow id' =
      if id' = id then new.latest.map (·.row) else t.loadLatestRow id' := by
  simp only [loadLatestRow_eq, h.getElem?]
  split <;> rfl

theorem mem_heap : id' ∈ t'.heap ↔ id' = id ∨ id' ∈ t.heap := by
  simp [h.heap, ExtTreeMap.mem_insert, @eq_comm _ id]

end

end SetsTuple

theorem commitInsert_spec (t : TableData R) (id : TupleId) (txn : TxnId) (row : R) :
    ∃ v hv, v.row = row ∧ v.xmin = txn ∧
      t.SetsTuple id (.single v hv) (t.commitInsert id txn row) :=
  ⟨_, rfl, rfl, rfl, rfl, rfl⟩

@[simp]
theorem nextTupleId_commitInsert (t : TableData R) (id : TupleId) (txn : TxnId) (row : R) :
    (t.commitInsert id txn row).nextTupleId = t.nextTupleId := rfl

@[simp] theorem heap_skipTupleId (t : TableData R) (id : TupleId) :
    (t.skipTupleId id).heap = t.heap := by
  unfold skipTupleId; split <;> rfl

@[simp] theorem descriptor_skipTupleId (t : TableData R) (id : TupleId) :
    (t.skipTupleId id).descriptor = t.descriptor := by
  unfold skipTupleId; split <;> rfl

theorem nextTupleId_skipTupleId (t : TableData R) (id : TupleId) :
    (t.skipTupleId id).nextTupleId = max t.nextTupleId (id + 1) := by
  unfold skipTupleId
  split
  · dsimp only
    omega
  · omega

theorem hasLiveTuple_iff : t.hasLiveTuple id = true ↔
    ∃ tuple i, t.heap[id]? = some tuple ∧ tuple.latestVisibleIndex = some i := by
  constructor
  · intro h
    obtain ⟨row, hrow⟩ := Option.isSome_iff_exists.mp h
    obtain ⟨v, hv, -⟩ := Option.map_eq_some_iff.mp hrow
    obtain ⟨tuple, i, htuple, hi, -⟩ := latestLiveVersion_eq_some hv
    exact ⟨tuple, i, htuple, hi⟩
  · rintro ⟨tuple, i, htuple, hi⟩
    obtain ⟨v, hv, -⟩ := lastLiveIndex_eq_some (tuple.latest_eq ▸ hi)
    simp [hasLiveTuple, loadLatestRow_eq, htuple, HeapTuple.latest, hi, hv]

theorem commitPresent_spec (h : t.commitPresent id txn row = .ok t') :
    ∃ new, Publishes txn row t.heap[id]? new ∧ t.SetsTuple id new t' ∧
      t'.nextTupleId =
        if t.hasLiveTuple id then t.nextTupleId else max t.nextTupleId (id + 1) := by
  unfold commitPresent at h
  split at h
  case isTrue hlive =>
    obtain ⟨tuple, i, htuple, hi⟩ := hasLiveTuple_iff.mp hlive
    have hupdate : ∃ v hv, v.row = row ∧ v.xmin = txn ∧
        ∃ t1, t.commitUpdate id txn row = (.ok (), t1) ∧
          t.SetsTuple id (tuple.replaceLatest i hi txn v hv) t1 ∧
          t1.nextTupleId = t.nextTupleId := by
      unfold commitUpdate allocateHeapPosition
      simp only [htuple]
      split
      · simp_all
      · rename_i j hj
        cases hi.symm.trans hj
        exact ⟨_, rfl, rfl, rfl, _, rfl, ⟨rfl, rfl⟩, rfl⟩
    obtain ⟨v, hv, hrow, hxmin, t1, hcommit, hsets, hnext⟩ := hupdate
    rw [hcommit] at h
    cases h
    refine ⟨_, htuple ▸ .update hi hv hrow hxmin, hsets, ?_⟩
    simp [hlive, hnext]
  case isFalse hlive =>
    cases h
    obtain ⟨v, hv, hrow, hxmin, hsets⟩ := commitInsert_spec t id txn row
    refine ⟨_, .insert ?_ hv hrow hxmin, ⟨?_, ?_⟩, ?_⟩
    · simpa [hasLiveTuple, loadLatestRow_eq] using hlive
    · simp [hsets.heap]
    · simp [hsets.descriptor]
    · simp [nextTupleId_skipTupleId, hlive]

theorem commitDeleted_spec (h : t.commitDeleted id txn = .ok t') :
    ∃ new, Retires txn t.heap[id]? new ∧ t.SetsTuple id new t' ∧
      t'.nextTupleId = t.nextTupleId := by
  unfold commitDeleted commitDelete at h
  split at h
  case h_2 => cases h
  case h_1 t1 hcommit =>
    cases h
    split at hcommit
    · simp at hcommit
    rename_i tuple htuple
    split at hcommit
    · simp at hcommit
    · rename_i i hi
      simp only [Prod.mk.injEq, true_and] at hcommit
      subst hcommit
      exact ⟨_, htuple ▸ .delete hi, ⟨rfl, rfl⟩, rfl⟩

theorem exists_commitPresent (t : TableData R) (id : TupleId) (txn : TxnId) (row : R) :
    ∃ t', t.commitPresent id txn row = .ok t' := by
  unfold commitPresent
  split
  case isTrue hlive =>
    obtain ⟨tuple, i, htuple, hi⟩ := hasLiveTuple_iff.mp hlive
    unfold commitUpdate allocateHeapPosition
    simp only [htuple]
    split
    · next hnone => exact ⟨_, rfl⟩
    · next hnone => split at hnone <;> simp_all
  case isFalse => exact ⟨_, rfl⟩

theorem exists_commitDeleted (h : t.loadLatestRow id = some row) (txn : TxnId) :
    ∃ t', t.commitDeleted id txn = .ok t' := by
  obtain ⟨tuple, i, htuple, hi⟩ := hasLiveTuple_iff.mp (Option.isSome_of_mem h)
  unfold commitDeleted commitDelete
  simp only [htuple]
  split
  · exact ⟨_, rfl⟩
  · next hnone => split at hnone <;> simp_all

end TableData

end AionDb
