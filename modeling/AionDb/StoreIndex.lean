import AionDb.LibPages
import AionDb.StoreHeap
import Mathlib.Data.List.Sort

/-!
# Ordered indexes

An ordered index keeps its entries sorted by key in leaf pages. Every key of
an index is built from its descriptor, so the sort direction and the place of
NULL are read from the descriptor's columns and a key is the list of its
values. How two values that are not NULL compare is the parameter `Ord V`;
index keys are equal when they compare as equal.
-/

namespace AionDb

structure IndexKeyColumn where
  columnId : ColumnId
  descending : Bool := false
  nullsFirst : Bool := false
deriving DecidableEq

structure IndexStorageDescriptor where
  indexId : IndexId
  tableId : RelationId
  unique : Bool := false
  nullsNotDistinct : Bool := false
  keyColumns : List IndexKeyColumn
  includeColumns : List ColumnId := []
deriving DecidableEq

abbrev IndexKey (V : Type) := List (Option V)

variable {V : Type} [Ord V]

def compareValuesTotal (nullsFirst : Bool) : Option V → Option V → Ordering
  | none, none => .eq
  | none, some _ => if nullsFirst then .lt else .gt
  | some _, none => if nullsFirst then .gt else .lt
  | some a, some b => compare a b

def compareComponent (column : IndexKeyColumn) (a b : Option V) : Ordering :=
  let ordering := compareValuesTotal column.nullsFirst a b
  if column.descending then ordering.swap else ordering

def IndexKey.cmp : List IndexKeyColumn → IndexKey V → IndexKey V → Ordering
  | column :: columns, a :: as, b :: bs =>
    (compareComponent column a b).then (IndexKey.cmp columns as bs)
  | _, as, bs => compare as.length bs.length

def IndexKey.hasNull (key : IndexKey V) : Bool := key.any (·.isNone)

structure LeafEntry (V : Type) where
  key : IndexKey V
  tupleIds : List TupleId
  coveringRows : List (Row V)
deriving DecidableEq

structure IndexData (V : Type) where
  descriptor : IndexStorageDescriptor
  coveringColumnIds : List ColumnId
  leaves : List (List (LeafEntry V)) := []
  leafPageCapacity : Nat := 64
deriving DecidableEq

def pushUniqueColumnId (columnIds : List ColumnId) (columnId : ColumnId) : List ColumnId :=
  if columnId ∈ columnIds then columnIds else columnIds ++ [columnId]

def defaultCoveringColumnIds (index : IndexStorageDescriptor)
    (table : TableStorageDescriptor) : List ColumnId :=
  let keyIds := index.keyColumns.map (·.columnId)
  if table.primaryKey = some keyIds ∧ index.includeColumns = [] then
    table.columns.map (·.columnId)
  else
    let addsPayload := table.primaryKey.any fun primaryKey =>
      primaryKey.any fun c => !keyIds.contains c && !index.includeColumns.contains c
    if index.includeColumns = [] ∧ addsPayload = false then []
    else (keyIds ++ index.includeColumns ++ table.primaryKey.getD []).foldl pushUniqueColumnId []

def columnOrdinal (table : TableStorageDescriptor) (columnId : ColumnId) : Option Nat :=
  table.columns.findIdx? (·.columnId = columnId)

def resolveIndexKeyOrdinals (table : TableStorageDescriptor) (index : IndexStorageDescriptor) :
    DbResult (List Nat) :=
  index.keyColumns.mapM fun column =>
    match columnOrdinal table column.columnId with
    | some ordinal => .ok ordinal
    | none => .error (.internalMsg "index key references unknown column")

def resolveColumnOrdinals (table : TableStorageDescriptor) (columnIds : List ColumnId) :
    DbResult (List Nat) :=
  columnIds.mapM fun columnId =>
    match columnOrdinal table columnId with
    | some ordinal => .ok ordinal
    | none => .error (.internalMsg "index covering column references unknown column")

def buildIndexKeyWithOrdinals (index : IndexStorageDescriptor) (row : Row V)
    (ordinals : List Nat) : DbResult (IndexKey V) :=
  if ordinals.length ≠ index.keyColumns.length then
    .error (.internalMsg "index key ordinals do not match index descriptor columns")
  else ordinals.mapM fun ordinal =>
    match row[ordinal]? with
    | some value => .ok value
    | none => .error (.internalMsg "row is missing indexed value")

def buildIndexKeyForDescriptor (index : IndexStorageDescriptor) (table : TableStorageDescriptor)
    (row : Row V) : DbResult (IndexKey V) := do
  let ordinals ← resolveIndexKeyOrdinals table index
  buildIndexKeyWithOrdinals index row ordinals

def buildCoveringRowWithOrdinals (row : Row V) (ordinals : List Nat) : DbResult (Row V) :=
  ordinals.mapM fun ordinal =>
    match row[ordinal]? with
    | some value => .ok value
    | none => .error (.internalMsg "row is missing index covering value")

/-- The key a unique index has to keep apart; none when a NULL exempts the row. -/
def uniqueKeyForDescriptorRow (index : IndexStorageDescriptor) (table : TableStorageDescriptor)
    (row : Row V) : DbResult (Option (IndexKey V)) := do
  let key ← buildIndexKeyForDescriptor index table row
  if key.hasNull && !index.nullsNotDistinct then pure none else pure (some key)

def uniqueViolationError (indexId : IndexId) : DbError :=
  .constraint .uniqueViolation s!"duplicate key value violates unique index {indexId}"

def LeafEntry.insertTuple (entry : LeafEntry V) (id : TupleId) (row : Row V) : LeafEntry V :=
  match Pages.binarySearchBy (compare · id) entry.tupleIds with
  | .ok i => { entry with coveringRows := entry.coveringRows.set i row }
  | .error i =>
    { entry with
      tupleIds := entry.tupleIds.insertIdx i id
      coveringRows :=
        if entry.coveringRows.length = entry.tupleIds.length then
          entry.coveringRows.insertIdx i row
        else entry.coveringRows }

/-- `remove_tuple_payload_sorted`; an entry without tuples is removed. -/
def LeafEntry.removeTuple (entry : LeafEntry V) (id : TupleId) : Option (LeafEntry V) :=
  match Pages.binarySearchBy (compare · id) entry.tupleIds with
  | .error _ => some entry
  | .ok i =>
    let tupleIds := entry.tupleIds.eraseIdx i
    if tupleIds = [] then none
    else some { entry with tupleIds, coveringRows := entry.coveringRows.eraseIdx i }

namespace IndexData

def newForTable (descriptor : IndexStorageDescriptor) (table : TableStorageDescriptor) :
    IndexData V :=
  { descriptor, coveringColumnIds := defaultCoveringColumnIds descriptor table }

def probe (index : IndexData V) (key : IndexKey V) (entry : LeafEntry V) : Ordering :=
  IndexKey.cmp index.descriptor.keyColumns entry.key key

def insertPrebuiltEntryUnchecked (index : IndexData V) (key : IndexKey V) (id : TupleId)
    (coveringRow : Row V) : IndexData V :=
  { index with
    leaves := Pages.upsert index.leafPageCapacity (index.probe key)
      (·.insertTuple id coveringRow)
      { key, tupleIds := [id], coveringRows := [coveringRow] } index.leaves }

def removePrebuiltKey (index : IndexData V) (id : TupleId) (key : IndexKey V) : IndexData V :=
  { index with leaves := Pages.adjust (index.probe key) (·.removeTuple id) index.leaves }

def candidateTupleIdsForKey (index : IndexData V) (key : IndexKey V) : List TupleId :=
  (Pages.find (index.probe key) index.leaves).elim [] (·.tupleIds)

def keyIsStrictlyAfterLast (index : IndexData V) (key : IndexKey V) : Bool :=
  match index.leaves.getLast?.bind (·.getLast?) with
  | none => true
  | some entry => IndexKey.cmp index.descriptor.keyColumns key entry.key == .gt

def buildCoveringRow (index : IndexData V) (table : TableStorageDescriptor) (row : Row V) :
    DbResult (Row V) := do
  let ordinals ← resolveColumnOrdinals table index.coveringColumnIds
  buildCoveringRowWithOrdinals row ordinals

def bulkLoadLeafFill (index : IndexData V) : Nat :=
  max (index.leafPageCapacity - index.leafPageCapacity / 8) 1

/-- One row of a bulk load, in key order: it joins the last entry when it has its key. -/
def addKeyedRow (descriptor : IndexStorageDescriptor) (entries : List (LeafEntry V))
    (keyed : IndexKey V × TupleId × Row V) : DbResult (List (LeafEntry V)) :=
  let (key, tupleId, coveringRow) := keyed
  let new : LeafEntry V := { key, tupleIds := [tupleId], coveringRows := [coveringRow] }
  match entries.getLast? with
  | none => .ok [new]
  | some last =>
    if IndexKey.cmp descriptor.keyColumns last.key key = .eq then
      if descriptor.unique && (descriptor.nullsNotDistinct || !key.hasNull) &&
          last.tupleIds.any (· ≠ tupleId) then
        .error (uniqueViolationError descriptor.indexId)
      else .ok (entries.dropLast ++ [last.insertTuple tupleId coveringRow])
    else .ok (entries ++ [new])

def keyedRowLe (descriptor : IndexStorageDescriptor) (a b : IndexKey V × TupleId × Row V) : Bool :=
  ((IndexKey.cmp descriptor.keyColumns a.1 b.1).then (compare a.2.1 b.2.1)) != .gt

def fromRows (descriptor : IndexStorageDescriptor) (table : TableStorageDescriptor)
    (rows : List (TupleId × Row V)) : DbResult (IndexData V) := do
  let keyOrdinals ← resolveIndexKeyOrdinals table descriptor
  let coveringOrdinals ← resolveColumnOrdinals table (defaultCoveringColumnIds descriptor table)
  let keyedRows ← rows.mapM fun (tupleId, row) => do
    let key ← buildIndexKeyWithOrdinals descriptor row keyOrdinals
    let coveringRow ← buildCoveringRowWithOrdinals row coveringOrdinals
    pure (key, tupleId, coveringRow)
  let entries ← (keyedRows.insertionSort (keyedRowLe descriptor · ·)).foldlM
    (addKeyedRow descriptor) []
  let index : IndexData V := newForTable descriptor table
  pure { index with leaves := Pages.load index.bulkLoadLeafFill entries }

end IndexData

end AionDb
