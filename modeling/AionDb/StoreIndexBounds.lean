import AionDb.StoreState

/-!
# MIN and MAX of a column through its index

The least value is read off the first entry that is not NULL, the greatest off
the last one. Where NULLs are sorted does not matter; the direction of the
index does.
-/

namespace AionDb

open Std

variable {V : Type}

namespace IndexData

/-- The loop over the entries; it ends at an entry whose key has no component. -/
def firstNonNull : List (LeafEntry V) → Option V
  | [] => none
  | entry :: entries =>
    match entry.key with
    | [] => none
    | none :: _ => firstNonNull entries
    | some value :: _ => some value

def firstNonNullSingleColumnValue (index : IndexData V) : Option V :=
  if index.descriptor.keyColumns.length ≠ 1 then none else firstNonNull index.leaves.flatten

def lastNonNullSingleColumnValue (index : IndexData V) : Option V :=
  if index.descriptor.keyColumns.length ≠ 1 then none
  else firstNonNull index.leaves.flatten.reverse

end IndexData

namespace StorageState

/-- `index_min_single_column_value` and `index_max_single_column_value`, which differ in what
they read off the index and in their names. -/
def indexBound (name : String) (read : IndexData V → Option V) (s : StorageState V) (txn : TxnId)
    (snapshot : Snapshot) (indexId : IndexId) : DbResult (Option V) :=
  if snapshotIsLatest snapshot = false then
    .error (.featureNotSupported
      s!"index {name}-value lookup for non-latest snapshots is not supported")
  else
    let pending := s.activeTxns[txn]?
    if pending.any (·.droppedIndexes.contains indexId) then
      .error (.internalMsg "index storage does not exist")
    else match pending.bind (·.createdIndexes[indexId]?) with
    | some index => .ok (read index)
    | none =>
      match s.indexes[indexId]? with
      | some index => .ok (read index)
      | none => .error (.internalMsg "index storage does not exist")

def indexMinSingleColumnValue : StorageState V → TxnId → Snapshot → IndexId → DbResult (Option V) :=
  indexBound "min" IndexData.firstNonNullSingleColumnValue

def indexMaxSingleColumnValue : StorageState V → TxnId → Snapshot → IndexId → DbResult (Option V) :=
  indexBound "max" IndexData.lastNonNullSingleColumnValue

def indexFor (s : StorageState V) (txn : TxnId) (indexId : IndexId) : Option (IndexData V) :=
  let pending := s.activeTxns[txn]?
  if pending.any (·.droppedIndexes.contains indexId) then none
  else (pending.bind (·.createdIndexes[indexId]?)).or s.indexes[indexId]?

theorem indexBound_eq {name : String} {read : IndexData V → Option V} {s : StorageState V}
    {txn : TxnId} {snapshot : Snapshot} {indexId : IndexId} {index : IndexData V}
    (hlatest : snapshotIsLatest snapshot = true) (h : s.indexFor txn indexId = some index) :
    indexBound name read s txn snapshot indexId = .ok (read index) := by
  unfold indexFor at h
  unfold indexBound
  rw [if_neg (by simp [hlatest])]
  dsimp only at h ⊢
  split at h
  · cases h
  next hkept =>
  rw [if_neg hkept]
  cases hcreated : s.activeTxns[txn]?.bind (·.createdIndexes[indexId]?) with
  | some created =>
    rw [hcreated] at h
    cases h
    rfl
  | none =>
    rw [hcreated, Option.none_or] at h
    simp only [h]

end StorageState

/-! ## The least and the greatest value -/

variable [Ord V]

/-- `result` is a value of the column that `before` puts before all others, or the column has
no value. -/
def IsBound (before : Ordering → Bool) (column : List (Option V)) : Option V → Prop
  | none => ∀ value ∈ column, value = none
  | some m => (∃ v, some v ∈ column ∧ compare m v = .eq) ∧
      ∀ v, some v ∈ column → before (compare m v) = true

/-- The entries of a single-column index are the column of the rows. -/
structure IndexData.Holds (index : IndexData V) (column : IndexKeyColumn)
    (values : List (Option V)) : Prop where
  keyColumns : index.descriptor.keyColumns = [column]
  sorted : index.leaves.flatten.Pairwise fun a b => IndexKey.cmp [column] a.key b.key = .lt
  single : ∀ entry ∈ index.leaves.flatten, ∃ value, entry.key = [value]
  sound : ∀ entry ∈ index.leaves.flatten, ∃ value ∈ values,
    IndexKey.cmp [column] entry.key [value] = .eq
  complete : ∀ value ∈ values, ∃ entry ∈ index.leaves.flatten,
    IndexKey.cmp [column] entry.key [value] = .eq

theorem cmp_single {column : IndexKeyColumn} (hasc : column.descending = false) (a b : Option V) :
    IndexKey.cmp [column] [a] [b] = compareValuesTotal column.nullsFirst a b := by
  simp only [IndexKey.cmp, compareComponent, hasc, Bool.false_eq_true, if_false]
  exact Ordering.then_eq ..

theorem compareValuesTotal_eq_some {nullsFirst : Bool} {a : Option V} {v : V}
    (h : compareValuesTotal nullsFirst a (some v) = .eq) : ∃ w, a = some w ∧ compare w v = .eq := by
  cases a with
  | none => cases nullsFirst <;> cases h
  | some w => exact ⟨w, rfl, h⟩

theorem firstNonNull_isBound [TransOrd V] {before : Ordering → Bool} {nullsFirst : Bool}
    {entries : List (LeafEntry V)} {values : List (Option V)}
    (heq : ∀ {m v w : V}, before (compare m w) = true → compare w v = .eq →
      before (compare m v) = true)
    (hrefl : ∀ m v : V, compare m v = .eq → before (compare m v) = true)
    (hsorted : entries.Pairwise fun a b => ∀ v w, a.key = [some v] → b.key = [some w] →
      before (compare v w) = true)
    (hsingle : ∀ entry ∈ entries, ∃ value, entry.key = [value])
    (hsound : ∀ entry ∈ entries, ∀ value, entry.key = [value] → ∃ value' ∈ values,
      compareValuesTotal nullsFirst value value' = .eq)
    (hcomplete : ∀ v, some v ∈ values → ∃ entry ∈ entries, ∃ w, entry.key = [some w] ∧
      compare w v = .eq) :
    IsBound before values (IndexData.firstNonNull entries) := by
  induction entries with
  | nil =>
    intro value hvalue
    cases value with
    | none => rfl
    | some v =>
      obtain ⟨entry, hmem, -⟩ := hcomplete v hvalue
      cases hmem
  | cons entry entries ih =>
    obtain ⟨value, hkey⟩ := hsingle entry (List.mem_cons_self ..)
    obtain ⟨hfirst, hsorted⟩ := List.pairwise_cons.mp hsorted
    rw [IndexData.firstNonNull, hkey]
    cases value with
    | none =>
      -- an entry for NULL says nothing about the values
      refine ih hsorted (fun e he => hsingle e (List.mem_cons_of_mem _ he))
        (fun e he => hsound e (List.mem_cons_of_mem _ he)) fun v hv => ?_
      obtain ⟨e, he, w, hw, hwv⟩ := hcomplete v hv
      rcases List.mem_cons.mp he with rfl | he
      · rw [hkey] at hw
        cases hw
      · exact ⟨e, he, w, hw, hwv⟩
    | some m =>
      refine ⟨?_, fun v hv => ?_⟩
      · obtain ⟨value, hvalue, hm⟩ := hsound entry (List.mem_cons_self ..) _ hkey
        cases value with
        | none => cases nullsFirst <;> cases hm
        | some v => exact ⟨v, hvalue, hm⟩
      · obtain ⟨e, he, w, hw, hwv⟩ := hcomplete v hv
        rcases List.mem_cons.mp he with rfl | he
        · rw [hkey] at hw
          cases hw
          exact hrefl m v hwv
        · exact heq (hfirst e he m w hkey hw) hwv

def twoValues (descending : Bool) : IndexData Nat where
  descriptor := { indexId := 1, tableId := 7, keyColumns := [{ columnId := 1, descending }] }
  coveringColumnIds := []
  leaves := if descending then [[⟨[some 2], [2], []⟩, ⟨[some 1], [1], []⟩]]
    else [[⟨[some 1], [1], []⟩, ⟨[some 2], [2], []⟩]]

theorem twoValues_holds (descending : Bool) :
    (twoValues descending).Holds { columnId := 1, descending } [some 2, some 1] := by
  refine ⟨rfl, ?_, ?_, ?_, ?_⟩ <;> cases descending <;> simp [twoValues] <;> decide

end AionDb
