import AionDb.LibStamped
import AionDb.StoreSystem

/-!
# The executor's caches over the concurrent storage

One executor is shared by all sessions. It keeps four caches of rows it has computed: aggregate
rows, the build sides of hash joins, the rows of simple hash joins and the rows of index lookups.
An entry is keyed by the query and stamped with the storage's cache generation, which moves when a
commit has published (`clear_index_count_caches`); it is not keyed by who computed it. What a
query computes depends on the reader: on its snapshot and on its own pending writes.

A commit has applied its rows before the generation moves, and an autocommit insert moves it
before its row is there. How rows are aggregated, hashed and joined is left to an `Evaluator`.
-/

namespace AionDb

open Stamped

variable {V A J B : Type}

/-! ## What a reader sees -/

section

variable [Ord V]

def scanTableView (view : TableView V) (snapshot : Snapshot) : List (TupleId × Row V) :=
  match view with
  | .created table => table.liveRows
  | .base table _ overlay =>
    let base := table.heap.keys.filterMap fun id =>
      (match overlay.bind (·.rows[id]?) with
      | some (.present row) => some row
      | some .deleted => none
      | none => (table.visibleVersion id snapshot).map HeapTupleVersion.row).map (id, ·)
    -- the rows the transaction has inserted
    let inserted := (overlay.elim [] (·.rows.toList)).filterMap fun (id, rowState) =>
      if table.containsTuple id then none else rowState.row?.map (id, ·)
    base ++ inserted

abbrev Tables (V : Type) := RelationId → List (TupleId × Row V)

/-- `scan_table` for a transaction. A table that does not exist has no plan that reads it. -/
def StorageState.scanTable (s : StorageState V) (txn : TxnId) (snapshot : Snapshot) : Tables V :=
  fun tableId => (s.tableView txn tableId).elim [] (scanTableView · snapshot)

def StorageState.committedRows (s : StorageState V) : Tables V :=
  fun tableId => (s.tables[tableId]?).elim [] (·.liveRows)

end

/-! ## Queries -/

structure AggregateRowsCacheKey (A : Type) where
  tableId : RelationId
  plan : A
deriving DecidableEq

structure HashJoinBuildSideCacheKey where
  tableId : RelationId
  rightKeys : List Nat
  includeOidSystemColumn : Bool
deriving DecidableEq

structure HashJoinFastRowsCacheKey where
  leftTableId : RelationId
  rightTableId : RelationId
  leftKeys : List Nat
  rightKeys : List Nat
  outputOrdinals : List Nat
  limit : Option Nat
deriving DecidableEq

structure JoinIndexLookupRowsCacheKey (V : Type) where
  tableId : RelationId
  indexId : IndexId
  valueKey : V
  includeOidSystemColumn : Bool
deriving DecidableEq

/-- What the executor computes from rows. `A` are the aggregate plans over a table, `J` what a
hash join has besides its inputs and its right keys, `B` the build sides. -/
structure Evaluator (V A J B : Type) where
  aggregate : A → List (Row V) → List (Row V)
  isSimpleGroupAggregate : A → Bool
  compatScanRow : Bool → RelationId → TupleId × Row V → Row V
  compatIncludeOid : RelationId → Bool
  buildSide : List Nat → List (Row V) → B
  hashBuildOk : B → Bool
  hashJoin : J → List (Row V) → B → List (Row V)
  hashJoinFastRows : HashJoinFastRowsCacheKey → List (Row V) → B → List (Row V)
  matchesIndexKey : IndexId → V → Row V → Bool

namespace Evaluator

variable (ev : Evaluator V A J B) (tables : Tables V)

def scanRows (tableId : RelationId) : List (Row V) :=
  (tables tableId).map (ev.compatScanRow (ev.compatIncludeOid tableId) tableId)

def aggregateRows (key : AggregateRowsCacheKey A) : List (Row V) :=
  ev.aggregate key.plan ((tables key.tableId).map (·.2))

def buildSideOf (key : HashJoinBuildSideCacheKey) : B :=
  ev.buildSide key.rightKeys
    ((tables key.tableId).map (ev.compatScanRow key.includeOidSystemColumn key.tableId))

def buildSideKey (tableId : RelationId) (rightKeys : List Nat) : HashJoinBuildSideCacheKey :=
  { tableId, rightKeys, includeOidSystemColumn := ev.compatIncludeOid tableId }

def fastRowsOf (key : HashJoinFastRowsCacheKey) : List (Row V) :=
  ev.hashJoinFastRows key (ev.scanRows tables key.leftTableId)
    (ev.buildSideOf tables (ev.buildSideKey key.rightTableId key.rightKeys))

def lookupRows (key : JoinIndexLookupRowsCacheKey V) : List (Row V) :=
  ((tables key.tableId).filter fun r => ev.matchesIndexKey key.indexId key.valueKey r.2).map
    (ev.compatScanRow key.includeOidSystemColumn key.tableId)

end Evaluator

inductive CachedQuery (V A J : Type) where
  | aggregate (key : AggregateRowsCacheKey A)
  | hashJoin (left right : RelationId) (rightKeys : List Nat) (plan : J)
  | hashJoinFast (key : HashJoinFastRowsCacheKey)
  | indexLookup (key : JoinIndexLookupRowsCacheKey V)

namespace CachedQuery

def tables : CachedQuery V A J → List RelationId
  | .aggregate key => [key.tableId]
  | .hashJoin left right _ _ => [left, right]
  | .hashJoinFast key => [key.leftTableId, key.rightTableId]
  | .indexLookup key => [key.tableId]

def evaluate (ev : Evaluator V A J B) (tables : Tables V) : CachedQuery V A J → List (Row V)
  | .aggregate key => ev.aggregateRows tables key
  | .hashJoin left right rightKeys plan =>
    ev.hashJoin plan (ev.scanRows tables left)
      (ev.buildSideOf tables (ev.buildSideKey right rightKeys))
  | .hashJoinFast key => ev.fastRowsOf tables key
  | .indexLookup key => ev.lookupRows tables key

end CachedQuery

/-! ## The system -/

structure ComputedAggregate (V A : Type) where
  key : AggregateRowsCacheKey A
  /-- Ghost: the generation at which they were computed. -/
  generation : Nat
  rows : List (Row V)

structure QueryAnswer (V : Type) where
  txn : TxnId
  rows : List (Row V)
  direct : List (Row V)
deriving DecidableEq

structure Executor (V A B : Type) where
  aggregateRowsCache : Cache (AggregateRowsCacheKey A) (List (Row V)) := {}
  hashJoinBuildSideCache : Cache HashJoinBuildSideCacheKey B := {}
  hashJoinFastRowsCache : Cache HashJoinFastRowsCacheKey (List (Row V)) := {}
  joinIndexLookupRowCache : Cache (JoinIndexLookupRowsCacheKey V) (List (Row V)) := {}

structure QuerySystem (V A B : Type) where
  store : StoreSystem V
  cacheGeneration : Nat := 0
  executor : Executor V A B := {}
  snapshots : TxnId → Snapshot := fun _ => ⟨0, 0, []⟩
  /-- The commits that have applied their rows and not moved the generation yet. -/
  applied : List TxnId := []
  computed : TxnId → Option (ComputedAggregate V A) := fun _ => none
  answers : List (QueryAnswer V) := []

inductive QueryAction (V A J : Type) where
  | store (a : StoreAction V)
  | clearIndexCountCaches (txn : TxnId)
  | takeSnapshot (txn : TxnId) (snapshot : Snapshot)
  | query (txn : TxnId) (q : CachedQuery V A J)
  | storeAggregate (txn : TxnId)

namespace Executor

variable [DecidableEq V] [DecidableEq A] (ev : Evaluator V A J B) (x : Executor V A B)

def materializeHashJoinBuildSide (generation : Nat) (tables : Tables V) (tableId : RelationId)
    (rightKeys : List Nat) : B × Executor V A B :=
  let key := ev.buildSideKey tableId rightKeys
  let (entry, cache) := x.hashJoinBuildSideCache.fetch 128 generation key
    (ev.buildSideOf tables key) ev.hashBuildOk
  (entry, { x with hashJoinBuildSideCache := cache })

/-- The simple inner join of `execute_hash_join_plan`: the build side first, then its own cache. -/
def executeHashJoinFast (generation : Nat) (tables : Tables V) (key : HashJoinFastRowsCacheKey) :
    List (Row V) × Executor V A B :=
  let (entry, x) := x.materializeHashJoinBuildSide ev generation tables key.rightTableId
    key.rightKeys
  let (rows, cache) := x.hashJoinFastRowsCache.fetch 256 generation key
    (ev.hashJoinFastRows key (ev.scanRows tables key.leftTableId) entry) fun _ => true
  (rows, { x with hashJoinFastRowsCache := cache })

def fetchJoinIndexLookupRowsCached (generation : Nat) (tables : Tables V)
    (key : JoinIndexLookupRowsCacheKey V) : List (Row V) × Executor V A B :=
  let (rows, cache) := x.joinIndexLookupRowCache.fetch 16384 generation key
    (ev.lookupRows tables key) fun _ => true
  (rows, { x with joinIndexLookupRowCache := cache })

end Executor

namespace QuerySystem

variable [Ord V] [DecidableEq V] [DecidableEq A] (ev : Evaluator V A J B) (s : QuerySystem V A B)

def view (txn : TxnId) : Tables V := s.store.engine.state.scanTable txn (s.snapshots txn)

def committed : Tables V := s.store.engine.state.committedRows

/-- Whether an autocommit insert has moved the generation and not published its row. -/
def insertDue : Bool := s.store.inserts.toList.any (·.2.logged)

def answer (txn : TxnId) (q : CachedQuery V A J) (rows : List (Row V)) (x : Executor V A B) :
    QuerySystem V A B :=
  { s with
    executor := x
    answers := s.answers ++ [{ txn, rows, direct := q.evaluate ev (s.view txn) }] }

/-- The storage's own step. A commit that has applied its rows moves the generation later, an
autocommit insert has moved it before it is logged. -/
def storeStep (a : StoreAction V) (store : StoreSystem V) : QuerySystem V A B :=
  match a with
  | .commitApply txn =>
    if store.engine.fatal then { s with store }
    else { s with store, applied := txn :: s.applied }
  | .insertLog _ => { s with store, cacheGeneration := s.cacheGeneration + 1 }
  | _ => { s with store }

def execute (txn : TxnId) (q : CachedQuery V A J) : QuerySystem V A B :=
  let generation := s.cacheGeneration
  let tables := s.view txn
  match q with
  | .aggregate key =>
    match s.executor.aggregateRowsCache.fresh generation key with
    | some rows => s.answer ev txn q rows s.executor
    | none =>
      let rows := ev.aggregateRows tables key
      let s := s.answer ev txn q rows s.executor
      if ev.isSimpleGroupAggregate key.plan then
        { s with computed := Function.update s.computed txn (some ⟨key, generation, rows⟩) }
      else s
  | .hashJoin left right rightKeys plan =>
    let (entry, x) := s.executor.materializeHashJoinBuildSide ev generation tables right rightKeys
    s.answer ev txn q (ev.hashJoin plan (ev.scanRows tables left) entry) x
  | .hashJoinFast key =>
    let (rows, x) := s.executor.executeHashJoinFast ev generation tables key
    s.answer ev txn q rows x
  | .indexLookup key =>
    let (rows, x) := s.executor.fetchJoinIndexLookupRowsCached ev generation tables key
    s.answer ev txn q rows x

def step : QueryAction V A J → Option (QuerySystem V A B)
  | .store a => (s.store.step a).map (s.storeStep a)
  | .clearIndexCountCaches txn =>
    if txn ∈ s.applied then
      some { s with
        cacheGeneration := s.cacheGeneration + 1
        applied := s.applied.erase txn }
    else none
  | .takeSnapshot txn snapshot =>
    some { s with snapshots := Function.update s.snapshots txn snapshot }
  | .query txn q => some (s.execute ev txn q)
  | .storeAggregate txn =>
    -- the generation is read again here
    (s.computed txn).map fun c =>
      { s with
        executor := { s.executor with
          aggregateRowsCache := s.executor.aggregateRowsCache.put 256
            ⟨c.key, s.cacheGeneration, c.rows⟩ }
        computed := Function.update s.computed txn none }

end QuerySystem

end AionDb
