import AionDb.TxLifecycle

/-!
# The versioned heap of a table

A heap tuple is the list of its versions, oldest first. A version records the
transaction that wrote it (`xmin`) and the one that replaced or deleted it
(`xmax`); transaction 0 stands for autocommit. A tuple never has two versions
without `xmax`, and `latestVisibleIndex` points at the one it has: both are
fields of `HeapTuple`, so every operation on the heap proves that it keeps
them.

A value is `none` for NULL. What the other values are does not matter here, and
the heap does not look into a row: `R` is how it is stored.
-/

namespace AionDb

open Std List

abbrev Row (V : Type) := List (Option V)

def satAdd (a b : Nat) : Nat := min (a + b) u64Max

structure StorageColumn where
  columnId : ColumnId
  nullable : Bool := true
deriving DecidableEq

structure TableStorageDescriptor where
  tableId : RelationId
  columns : List StorageColumn
  primaryKey : Option (List ColumnId) := none
deriving DecidableEq

structure HeapTupleVersion (R : Type) where
  row : R
  xmin : TxnId
  xmax : Option TxnId := none
  heapPosition : Nat

variable {R : Type}

def HeapTupleVersion.isLive (v : HeapTupleVersion R) : Bool := v.xmax.isNone

def lastLiveIndex (vs : List (HeapTupleVersion R)) : Option Nat :=
  vs.zipIdx.reverse.findSome? fun (v, i) => if v.isLive then some i else none

structure HeapTuple (R : Type) where
  versions : List (HeapTupleVersion R)
  latestVisibleIndex : Option Nat
  one_live : (versions.filter (·.isLive)).length ≤ 1
  latest_eq : latestVisibleIndex = lastLiveIndex versions

variable {vs : List (HeapTupleVersion R)} {i : Nat}

theorem lastLiveIndex_eq_some (h : lastLiveIndex vs = some i) :
    ∃ v, vs[i]? = some v ∧ v.isLive = true := by
  obtain ⟨⟨v, j⟩, hmem, hv⟩ := exists_of_findSome?_eq_some h
  rw [mem_reverse, mem_zipIdx_iff_getElem?] at hmem
  by_cases hl : v.isLive
  · simp only [hl, if_true, Option.some.injEq] at hv
    subst hv
    exact ⟨v, hmem, hl⟩
  · simp [hl] at hv

theorem lastLiveIndex_eq_none : lastLiveIndex vs = none ↔ ∀ v ∈ vs, v.isLive = false := by
  simp only [lastLiveIndex, findSome?_eq_none_iff, mem_reverse]
  constructor
  · intro h v hv
    obtain ⟨i, hi⟩ := mem_iff_getElem?.mp hv
    have := h (v, i) (mem_zipIdx_iff_getElem?.mpr hi)
    simpa using this
  · rintro h ⟨v, i⟩ hvi
    have := h v (mem_of_getElem? (mem_zipIdx_iff_getElem?.mp hvi))
    simp [this]

theorem lastLiveIndex_concat (vs : List (HeapTupleVersion R)) (v : HeapTupleVersion R) :
    lastLiveIndex (vs ++ [v]) = if v.isLive then some vs.length else lastLiveIndex vs := by
  simp only [lastLiveIndex, zipIdx_append, reverse_append]
  split <;> simp_all

def markDead (vs : List (HeapTupleVersion R)) (i : Nat) (txn : TxnId) : List (HeapTupleVersion R) :=
  vs.modify i fun v => { v with xmax := some txn }

theorem not_isLive_of_mem_markDead (txn : TxnId) (hone : (vs.filter (·.isLive)).length ≤ 1)
    (hi : lastLiveIndex vs = some i) :
    ∀ v ∈ markDead vs i txn, v.isLive = false := by
  obtain ⟨v, hv, hlive⟩ := lastLiveIndex_eq_some hi
  obtain ⟨hlt, rfl⟩ := List.getElem?_eq_some_iff.mp hv
  have hsplit : vs = vs.take i ++ vs[i] :: vs.drop (i + 1) := by
    rw [← drop_eq_getElem_cons hlt, take_append_drop]
  rw [hsplit] at hone
  simp only [filter_append, filter_cons, hlive, if_true, length_append, length_cons] at hone
  have hleft : (vs.take i).filter (·.isLive) = [] := length_eq_zero_iff.mp (by omega)
  have hright : (vs.drop (i + 1)).filter (·.isLive) = [] := length_eq_zero_iff.mp (by omega)
  simp only [filter_eq_nil_iff, Bool.not_eq_true] at hleft hright
  intro w hw
  rw [markDead, modify_eq_take_cons_drop hlt, mem_append, mem_cons] at hw
  rcases hw with hw | rfl | hw
  · exact hleft w hw
  · rfl
  · exact hright w hw

namespace HeapTuple

def single (version : HeapTupleVersion R) (h : version.isLive = true) : HeapTuple R where
  versions := [version]
  latestVisibleIndex := some 0
  one_live := by simp [h]
  latest_eq := by simp [lastLiveIndex, h]

def replaceLatest (t : HeapTuple R) (i : Nat) (hi : t.latestVisibleIndex = some i) (txn : TxnId)
    (version : HeapTupleVersion R) (h : version.isLive = true) : HeapTuple R where
  versions := markDead t.versions i txn ++ [version]
  latestVisibleIndex := some t.versions.length
  one_live := by
    have hdead := not_isLive_of_mem_markDead txn t.one_live (t.latest_eq ▸ hi)
    rw [filter_append, filter_eq_nil_iff.mpr (by simpa using hdead)]
    simp [h]
  latest_eq := by simp [lastLiveIndex_concat, h, markDead]

def deleteLatest (t : HeapTuple R) (i : Nat) (hi : t.latestVisibleIndex = some i) (txn : TxnId) :
    HeapTuple R where
  versions := markDead t.versions i txn
  latestVisibleIndex := none
  one_live := by
    have hdead := not_isLive_of_mem_markDead txn t.one_live (t.latest_eq ▸ hi)
    rw [filter_eq_nil_iff.mpr (by simpa using hdead)]
    simp
  latest_eq := by
    have hdead := not_isLive_of_mem_markDead txn t.one_live (t.latest_eq ▸ hi)
    exact (lastLiveIndex_eq_none.mpr hdead).symm

def restrict (t : HeapTuple R) (keep : HeapTupleVersion R → Bool) : HeapTuple R where
  versions := t.versions.filter keep
  latestVisibleIndex := lastLiveIndex (t.versions.filter keep)
  one_live := by
    have hsub := (filter_sublist (l := t.versions) (p := keep)).filter (·.isLive)
    exact hsub.length_le.trans t.one_live
  latest_eq := rfl

end HeapTuple

structure TableData (R : Type) where
  descriptor : TableStorageDescriptor
  heap : ExtTreeMap TupleId (HeapTuple R) := ∅
  deadRowEstimate : Nat := 0
  liveRowEstimate : Nat := 0
  nextTupleId : Nat := 1
  nextHeapPosition : Nat := 1

namespace TableData

def allocateTupleId (t : TableData R) : TupleId × TableData R :=
  (t.nextTupleId, { t with nextTupleId := t.nextTupleId + 1 })

def allocateHeapPosition (t : TableData R) : Nat × TableData R :=
  (t.nextHeapPosition, { t with nextHeapPosition := satAdd t.nextHeapPosition 1 })

def latestLiveVersion (t : TableData R) (id : TupleId) : Option (HeapTupleVersion R) := do
  let tuple ← t.heap[id]?
  let index ← tuple.latestVisibleIndex
  tuple.versions[index]?

def loadLatestRow (t : TableData R) (id : TupleId) : Option R :=
  (t.latestLiveVersion id).map (·.row)

def hasLiveTuple (t : TableData R) (id : TupleId) : Bool := (t.loadLatestRow id).isSome

def containsTuple (t : TableData R) (id : TupleId) : Bool := id ∈ t.heap

/-- A new tuple of one version. Whatever the heap held under the id is replaced. -/
def commitInsert (t : TableData R) (id : TupleId) (txn : TxnId) (row : R) : TableData R :=
  let hadLiveBefore := t.hasLiveTuple id
  let (heapPosition, t) := t.allocateHeapPosition
  { t with
    heap := t.heap.insert id (.single { row, xmin := txn, heapPosition } rfl)
    liveRowEstimate :=
      if hadLiveBefore then t.liveRowEstimate else satAdd t.liveRowEstimate 1 }

/-- The position is taken before the tuple is looked up, so also by a call that fails. -/
def commitUpdate (t : TableData R) (id : TupleId) (txn : TxnId) (row : R) :
    DbResult Unit × TableData R :=
  let (heapPosition, t) := t.allocateHeapPosition
  match t.heap[id]? with
  | none => (.error (.internalMsg "tuple does not exist"), t)
  | some tuple =>
    match hi : tuple.latestVisibleIndex with
    | none => (.error (.internalMsg "tuple does not exist"), t)
    | some i =>
      let tuple := tuple.replaceLatest i hi txn { row, xmin := txn, heapPosition } rfl
      (.ok (), { t with
        heap := t.heap.insert id tuple
        deadRowEstimate := satAdd t.deadRowEstimate 1 })

def commitDelete (t : TableData R) (id : TupleId) (txn : TxnId) : DbResult Unit × TableData R :=
  match t.heap[id]? with
  | none => (.error (.internalMsg "tuple does not exist"), t)
  | some tuple =>
    match hi : tuple.latestVisibleIndex with
    | none => (.error (.internalMsg "tuple does not exist"), t)
    | some i =>
      (.ok (), { t with
        heap := t.heap.insert id (tuple.deleteLatest i hi txn)
        deadRowEstimate := satAdd t.deadRowEstimate 1
        liveRowEstimate := t.liveRowEstimate - 1 })

def skipTupleId (t : TableData R) (id : TupleId) : TableData R :=
  if t.nextTupleId ≤ id then { t with nextTupleId := id + 1 } else t

def commitPresent (t : TableData R) (id : TupleId) (txn : TxnId) (row : R) :
    DbResult (TableData R) :=
  if t.hasLiveTuple id then
    match t.commitUpdate id txn row with
    | (.ok _, t) => .ok t
    | (.error e, _) => .error e
  else .ok ((t.commitInsert id txn row).skipTupleId id)

def commitDeleted (t : TableData R) (id : TupleId) (txn : TxnId) : DbResult (TableData R) :=
  match t.commitDelete id txn with
  | (.ok _, t) => .ok t
  | (.error e, _) => .error e

def liveRows (t : TableData R) : List (TupleId × R) :=
  t.heap.keys.filterMap fun id => (t.loadLatestRow id).map (id, ·)

def rebuilt (descriptor : TableStorageDescriptor) (rows : List (TupleId × R)) : TableData R :=
  rows.foldl (fun t (id, row) => (t.commitInsert id 0 row).skipTupleId id) { descriptor }

def AllRows (P : R → Prop) (t : TableData R) : Prop :=
  ∀ (id : TupleId) (tuple : HeapTuple R), t.heap[id]? = some tuple → ∀ v ∈ tuple.versions, P v.row

theorem latestLiveVersion_eq_some {t : TableData R} {id : TupleId} {v : HeapTupleVersion R}
    (h : t.latestLiveVersion id = some v) :
    ∃ tuple i, t.heap[id]? = some tuple ∧ tuple.latestVisibleIndex = some i ∧
      tuple.versions[i]? = some v := by
  obtain ⟨tuple, htuple, h⟩ := Option.bind_eq_some_iff.mp h
  obtain ⟨i, hi, hv⟩ := Option.bind_eq_some_iff.mp h
  exact ⟨tuple, i, htuple, hi, hv⟩

theorem AllRows.latest {P : R → Prop} {t : TableData R} (h : t.AllRows P) {id : TupleId} {row : R}
    (hrow : t.loadLatestRow id = some row) : P row := by
  obtain ⟨v, hv, rfl⟩ := Option.map_eq_some_iff.mp hrow
  obtain ⟨tuple, i, htuple, -, hv⟩ := latestLiveVersion_eq_some hv
  exact h id tuple htuple v (mem_of_getElem? hv)

end TableData

/-! ## Visibility -/

def snapshotIsLatest (s : Snapshot) : Bool := s.xmin == 0 && s.xmax == 0 && s.active.isEmpty

def txnVisible (txn : TxnId) (s : Snapshot) : Bool :=
  txn == 0 || snapshotIsLatest s || (decide (txn < s.xmax) && !s.active.contains txn)

def versionVisible (v : HeapTupleVersion R) (s : Snapshot) : Bool :=
  txnVisible v.xmin s && !v.xmax.any (txnVisible · s)

def TableData.visibleVersion (t : TableData R) (id : TupleId) (s : Snapshot) :
    Option (HeapTupleVersion R) :=
  if snapshotIsLatest s then t.latestLiveVersion id
  else do
    let tuple ← t.heap[id]?
    tuple.versions.reverse.find? (versionVisible · s)

/-! ## Vacuum -/

def vacuumKeeps (horizon : TxnId) (v : HeapTupleVersion R) : Bool :=
  match v.xmax with
  | none => true
  | some xmax =>
    if xmax = 0 then horizon != 0
    else decide (0 < horizon ∧ horizon ≤ xmax)

def allBelowHorizon (horizon : TxnId) (t : HeapTuple R) : Bool :=
  t.versions.all fun v => v.xmax.all fun xmax => horizon == 0 || decide (xmax < horizon)

/-- What vacuum leaves of a tuple: `none` when it removes it. -/
def HeapTuple.vacuum (t : HeapTuple R) (horizon : TxnId) : Option (HeapTuple R) :=
  if t.versions.any (·.isLive) then some (t.restrict (vacuumKeeps horizon))
  else if allBelowHorizon horizon t then none
  else some t

def HeapTuple.vacuumDeadCount (t : HeapTuple R) (horizon : TxnId) : Nat :=
  t.versions.length - ((t.vacuum horizon).elim 0 (·.versions.length))

/-- `vacuum_collect_released_rows`, with the number of versions it removed. -/
def TableData.vacuum (t : TableData R) (horizon : TxnId) : Nat × TableData R :=
  let deadCount := (t.heap.toList.map fun p => p.2.vacuumDeadCount horizon).sum
  (deadCount, { t with
    heap := t.heap.filterMap fun _ tuple => tuple.vacuum horizon
    deadRowEstimate := t.deadRowEstimate - deadCount })

end AionDb
