import AionDb.ExecCache

/-!
# Answers from the executor's caches

An entry of a cache is right for a reader who sees the committed rows, as long as nobody else has
filled it: the generation moves with every publication, so a current entry was computed from the
tables as they are now. The invariant `Inv` says this of all four caches, of the aggregate rows
still to be stored, and of the answers given so far; `Current` is what a query has to meet for it
to be kept, that the reader sees the committed rows of the tables it reads and that no publication
is half done.
-/

namespace AionDb

open Std Run Stamped ExtTreeMap Function

variable {V A J B : Type}

/-! ## Evaluation depends on the tables a query reads -/

namespace Evaluator

variable {ev : Evaluator V A J B} {tables tables' : Tables V}

theorem scanRows_congr {t : RelationId} (h : tables t = tables' t) :
    ev.scanRows tables t = ev.scanRows tables' t := by
  rw [scanRows, h, scanRows]

theorem buildSideOf_congr {key : HashJoinBuildSideCacheKey}
    (h : tables key.tableId = tables' key.tableId) :
    ev.buildSideOf tables key = ev.buildSideOf tables' key := by
  rw [buildSideOf, h, buildSideOf]

theorem lookupRows_congr {key : JoinIndexLookupRowsCacheKey V}
    (h : tables key.tableId = tables' key.tableId) :
    ev.lookupRows tables key = ev.lookupRows tables' key := by
  rw [lookupRows, h, lookupRows]

end Evaluator

theorem CachedQuery.evaluate_congr {ev : Evaluator V A J B} {tables tables' : Tables V}
    {q : CachedQuery V A J} (h : ∀ t ∈ q.tables, tables t = tables' t) :
    q.evaluate ev tables = q.evaluate ev tables' := by
  cases q with
  | aggregate key => simp [evaluate, Evaluator.aggregateRows, h _ (List.mem_singleton_self _)]
  | hashJoin left right rightKeys plan =>
    have hleft : tables left = tables' left := h _ (by simp [CachedQuery.tables])
    have hright : tables right = tables' right := h _ (by simp [CachedQuery.tables])
    simp only [evaluate]
    rw [Evaluator.scanRows_congr hleft, Evaluator.buildSideOf_congr hright]
  | hashJoinFast key =>
    have hleft : tables key.leftTableId = tables' key.leftTableId :=
      h _ (by simp [CachedQuery.tables])
    have hright : tables key.rightTableId = tables' key.rightTableId :=
      h _ (by simp [CachedQuery.tables])
    simp only [evaluate, Evaluator.fastRowsOf]
    rw [Evaluator.scanRows_congr hleft, Evaluator.buildSideOf_congr hright]
  | indexLookup key => exact Evaluator.lookupRows_congr (h _ (by simp [CachedQuery.tables]))

/-! ## The caches -/

namespace Executor

variable (ev : Evaluator V A J B)

structure Sound (now : Nat) (due quiet : Prop) (tables : Tables V) (x : Executor V A B) : Prop where
  aggregateRows : x.aggregateRowsCache.All (Holds now due quiet (ev.aggregateRows tables))
  buildSides : x.hashJoinBuildSideCache.All (Holds now due quiet (ev.buildSideOf tables))
  fastRows : x.hashJoinFastRowsCache.All (Holds now due quiet (ev.fastRowsOf tables))
  lookupRows : x.joinIndexLookupRowCache.All (Holds now due quiet (ev.lookupRows tables))

variable {ev} {now now' : Nat} {due due' quiet quiet' : Prop} {tables tables' : Tables V}
  {x : Executor V A B}

theorem Sound.imp (h : x.Sound ev now due quiet tables)
    (himp : ∀ {K E : Type} (f : Tables V → K → E) (y : Entry K E),
      Holds now due quiet (f tables) y → Holds now' due' quiet' (f tables') y) :
    x.Sound ev now' due' quiet' tables' where
  aggregateRows := h.aggregateRows.imp fun y => himp ev.aggregateRows y
  buildSides := h.buildSides.imp fun y => himp ev.buildSideOf y
  fastRows := h.fastRows.imp fun y => himp ev.fastRowsOf y
  lookupRows := h.lookupRows.imp fun y => himp ev.lookupRows y

section

variable (h : x.Sound ev now False True tables)
include h

theorem materializeHashJoinBuildSide_spec {view : Tables V} {tableId : RelationId}
    (rightKeys : List Nat) (hview : view tableId = tables tableId) :
    (x.materializeHashJoinBuildSide ev now view tableId rightKeys).1 =
        ev.buildSideOf tables (ev.buildSideKey tableId rightKeys) ∧
      (x.materializeHashJoinBuildSide ev now view tableId rightKeys).2.Sound ev now False True
        tables := by
  have hcomputed : ev.buildSideOf view (ev.buildSideKey tableId rightKeys) =
      ev.buildSideOf tables (ev.buildSideKey tableId rightKeys) :=
    Evaluator.buildSideOf_congr hview
  obtain ⟨hvalue, hcache⟩ := Cache.fetch_spec 128 ev.hashBuildOk h.buildSides hcomputed
  exact ⟨hvalue, { h with buildSides := hcache }⟩

theorem executeHashJoinFast_spec {view : Tables V} (key : HashJoinFastRowsCacheKey)
    (hleft : view key.leftTableId = tables key.leftTableId)
    (hright : view key.rightTableId = tables key.rightTableId) :
    (x.executeHashJoinFast ev now view key).1 = ev.fastRowsOf tables key ∧
      (x.executeHashJoinFast ev now view key).2.Sound ev now False True tables := by
  obtain ⟨hentry, hx⟩ := materializeHashJoinBuildSide_spec h key.rightKeys hright
  have hcomputed : ev.hashJoinFastRows key (ev.scanRows view key.leftTableId)
      (x.materializeHashJoinBuildSide ev now view key.rightTableId key.rightKeys).1 =
        ev.fastRowsOf tables key := by
    rw [hentry, Evaluator.scanRows_congr hleft, Evaluator.fastRowsOf]
  obtain ⟨hvalue, hcache⟩ := Cache.fetch_spec 256 (fun _ => true) hx.fastRows hcomputed
  exact ⟨hvalue, { hx with fastRows := hcache }⟩

theorem fetchJoinIndexLookupRowsCached_spec [DecidableEq V] {view : Tables V}
    (key : JoinIndexLookupRowsCacheKey V) (hview : view key.tableId = tables key.tableId) :
    (x.fetchJoinIndexLookupRowsCached ev now view key).1 = ev.lookupRows tables key ∧
      (x.fetchJoinIndexLookupRowsCached ev now view key).2.Sound ev now False True tables := by
  obtain ⟨hvalue, hcache⟩ := Cache.fetch_spec 16384 (fun _ => true) h.lookupRows
    (Evaluator.lookupRows_congr hview)
  exact ⟨hvalue, { h with lookupRows := hcache }⟩

end

end Executor

/-! ## What the storage's steps change -/

namespace StoreSystem

variable {s s' : StoreSystem V} {a : StoreAction V}

theorem committedRows_setTable {state : StorageState V} {tableId : RelationId}
    {table : TableData (Row V)} (htable : state.tables[tableId]? = some table) :
    (state.setTable tableId table.allocateTupleId.2).committedRows = state.committedRows := by
  funext t
  simp only [StorageState.committedRows, StorageState.setTable, getElem?_insert]
  split
  · rename_i heq
    obtain rfl : tableId = t := by simpa using heq
    rw [htable]
    rfl
  · rfl

/-- The committed rows change in two steps only: when a commit applies its rows, and when an
autocommit insert does, which has been logged before. -/
theorem step_committedRows [Ord V] [DecidableEq V] (hdata : s.Data) (h : s.step a = some s') :
    s'.engine.state.committedRows = s.engine.state.committedRows ∨
      (∃ txn, a = .commitApply txn ∧ s'.engine.fatal = false) ∨
      ∃ (op : Nat) (insert : InsertInFlight V),
        a = .insertApply op ∧ s.inserts[op]? = some insert ∧ insert.logged = true := by
  have hfatal : s.engine.fatal = false := by
    unfold step at h
    split at h
    · cases h
    · rename_i hf; simpa using hf
  cases step_effect hdata h with
  | unchanged hstate hwal => exact .inl (by rw [hstate])
  | begin hnew hstate => exact .inl (by rw [hstate]; rfl)
  | insert hfree hp htable hid hq | update hfree hp htable hold hq => exact .inl rfl
  | delete hfree hp htable hold hq => exact .inl rfl
  | rollback hfree hstate => exact .inl (by rw [hstate]; rfl)
  | validate hfree hp hcheck => exact .inl rfl
  | readOnly hfree hp hread hstate => exact .inl (by rw [hstate]; rfl)
  | prepared hfree hp hcheck | commitLog hcommit hlogged => exact .inl rfl
  | commitApply hcommit hlogged hp happly => exact .inr (.inl ⟨_, rfl, hfatal⟩)
  | taken htable => exact .inl (committedRows_setTable htable)
  | allocate hfree htable hwidth hstate hcheck =>
    subst hstate
    exact .inl (committedRows_setTable htable)
  | insertLog hinsert hlogged => exact .inl rfl
  | insertApply hinsert hlogged htable hplaced hstate =>
    exact .inr (.inr ⟨_, _, rfl, hinsert, hlogged⟩)

def InsertDue (s : StoreSystem V) : Prop :=
  ∃ (op : Nat) (insert : InsertInFlight V), s.inserts[op]? = some insert ∧ insert.logged = true

theorem step_insertDue [Ord V] [DecidableEq V] (hdata : s.Data) (h : s.step a = some s') (hdue : s'.InsertDue) :
    s.InsertDue ∨ ∃ op, a = .insertLog op := by
  cases step_effect hdata h with
  | allocate hfree htable hwidth hstate hcheck =>
    obtain ⟨op', insert, hinsert, hlogged⟩ := hdue
    simp only [getElem?_insert] at hinsert
    split at hinsert
    · cases hinsert
      cases hlogged
    · exact .inl ⟨op', insert, hinsert, hlogged⟩
  | insertLog hinsert hlogged => exact .inr ⟨_, rfl⟩
  | insertApply hinsert hlogged htable hplaced hstate => exact .inl ⟨_, _, hinsert, hlogged⟩
  | _ => exact .inl hdue

end StoreSystem

/-! ## The invariant -/

def ComputedAggregate.entry (c : ComputedAggregate V A) :
    Entry (AggregateRowsCacheKey A) (List (Row V)) :=
  ⟨c.key, c.generation, c.rows⟩

namespace QuerySystem

variable (ev : Evaluator V A J B)

structure Inv (s : QuerySystem V A B) : Prop where
  data : s.store.Data
  caches : s.executor.Sound ev s.cacheGeneration s.store.InsertDue (s.applied = []) s.committed
  computed : ∀ txn c, s.computed txn = some c →
    Holds s.cacheGeneration s.store.InsertDue (s.applied = []) (ev.aggregateRows s.committed)
      c.entry
  answers : ∀ r ∈ s.answers, r.rows = r.direct

/-- The reader of a query sees the committed rows of the tables it reads, and no publication is
half done; aggregate rows are stored in the generation in which they were computed. -/
def Current (s : QuerySystem V A B) : QueryAction V A J → Prop
  | .query txn q =>
    s.applied = [] ∧ s.insertDue = false ∧ ∀ t ∈ q.tables, s.view txn t = s.committed t
  | .storeAggregate txn => (s.computed txn).all (·.generation == s.cacheGeneration) = true
  | _ => True

variable {ev} {s s' : QuerySystem V A B}

theorem insertDue_eq_true : s.insertDue = true ↔ s.store.InsertDue := by
  simp only [insertDue, List.any_eq_true, StoreSystem.InsertDue]
  constructor
  · rintro ⟨⟨op, insert⟩, hmem, hlogged⟩
    exact ⟨op, insert, mem_toList_iff_getElem?_eq_some.mp hmem, hlogged⟩
  · rintro ⟨op, insert, hinsert, hlogged⟩
    exact ⟨(op, insert), mem_toList_iff_getElem?_eq_some.mpr hinsert, hlogged⟩

section

variable (h : s.Inv ev) (hdata : s'.store.Data) (hexecutor : s'.executor = s.executor)
  (hcomputed : s'.computed = s.computed) (hanswers : s'.answers = s.answers)
include h hdata hexecutor hcomputed hanswers

theorem Inv.carry (himp : ∀ {K E : Type} (f : Tables V → K → E) (y : Entry K E),
      Holds s.cacheGeneration s.store.InsertDue (s.applied = []) (f s.committed) y →
        Holds s'.cacheGeneration s'.store.InsertDue (s'.applied = []) (f s'.committed) y) :
    s'.Inv ev where
  data := hdata
  caches := hexecutor ▸ h.caches.imp himp
  computed := fun txn c hc => himp ev.aggregateRows c.entry (h.computed txn c (hcomputed ▸ hc))
  answers := hanswers ▸ h.answers

theorem Inv.tick (hgeneration : s'.cacheGeneration = s.cacheGeneration + 1) : s'.Inv ev := by
  refine h.carry hdata hexecutor hcomputed hanswers ?_
  intro K E f y hy
  rw [hgeneration]
  exact hy.tick

theorem Inv.quietStep (hgeneration : s'.cacheGeneration = s.cacheGeneration)
    (hdue : s'.store.InsertDue → s.store.InsertDue) (happlied : s'.applied = [] → s.applied = [])
    (hcommitted : s'.applied = [] → s'.committed = s.committed) : s'.Inv ev := by
  refine h.carry hdata hexecutor hcomputed hanswers ?_
  intro K E f y hy
  rw [hgeneration]
  exact hy.mono hdue happlied fun hquiet => by rw [hcommitted hquiet]

end

/-! ## Queries -/

theorem Inv.exact (h : s.Inv ev) (hquiet : s.applied = []) :
    s.executor.Sound ev s.cacheGeneration False True s.committed := by
  refine h.caches.imp ?_
  intro K E f y hy
  exact hy.mono False.elim (fun _ => hquiet) fun _ => rfl

variable {txn : TxnId} {rows : List (Row V)} {q : CachedQuery V A J}

theorem Inv.answer (h : s.Inv ev) {x : Executor V A B} (hdue : ¬ s.store.InsertDue)
    (hx : x.Sound ev s.cacheGeneration False True s.committed)
    (hrows : rows = q.evaluate ev (s.view txn)) : (s.answer ev txn q rows x).Inv ev where
  data := h.data
  caches := hx.imp fun _ _ hy => hy.mono hdue (fun _ => trivial) fun _ => rfl
  computed := h.computed
  answers := by
    intro r hr
    rcases List.mem_append.mp hr with hr | hr
    · exact h.answers r hr
    · obtain rfl := List.mem_singleton.mp hr
      exact hrows

theorem Inv.remember (h : s.Inv ev) (hdue : ¬ s.store.InsertDue) (txn : TxnId)
    {key : AggregateRowsCacheKey A} (hrows : rows = ev.aggregateRows s.committed key) :
    ({ s with
        computed := Function.update s.computed txn (some ⟨key, s.cacheGeneration, rows⟩) } :
      QuerySystem V A B).Inv ev where
  data := h.data
  caches := h.caches
  answers := h.answers
  computed := by
    intro txn' c hc
    by_cases htxn : txn' = txn
    · subst htxn
      simp only [update_self] at hc
      cases hc
      exact .store hdue (fun _ => hrows) rfl
    · simp only [update_of_ne htxn] at hc
      exact h.computed txn' c hc

theorem Inv.execute [DecidableEq V] [DecidableEq A] (h : s.Inv ev)
    (hcurrent : s.Current (.query txn q)) : (s.execute ev txn q).Inv ev := by
  obtain ⟨hquiet, hdue, hview⟩ := hcurrent
  have hdue : ¬ s.store.InsertDue := by
    rw [← insertDue_eq_true, hdue]
    decide
  have hx := h.exact hquiet
  have hdirect : q.evaluate ev s.committed = q.evaluate ev (s.view txn) :=
    (CachedQuery.evaluate_congr hview).symm
  cases q with
  | aggregate key =>
    have hkey : ev.aggregateRows (s.view txn) key = ev.aggregateRows s.committed key :=
      hdirect.symm
    unfold QuerySystem.execute
    dsimp only
    split
    · rename_i rows hfresh
      exact h.answer hdue hx ((Cache.fresh_eq hx.aggregateRows hfresh).trans hdirect)
    · split
      · exact (h.answer hdue hx rfl).remember hdue txn hkey
      · exact h.answer hdue hx rfl
  | hashJoin left right rightKeys plan =>
    have hleft : s.view txn left = s.committed left := hview _ (by simp [CachedQuery.tables])
    have hright : s.view txn right = s.committed right :=
      hview _ (by simp [CachedQuery.tables])
    obtain ⟨hentry, hx⟩ := Executor.materializeHashJoinBuildSide_spec hx rightKeys hright
    have hrows : ev.hashJoin plan (ev.scanRows (s.view txn) left)
        (s.executor.materializeHashJoinBuildSide ev s.cacheGeneration (s.view txn) right
          rightKeys).1 = (CachedQuery.hashJoin left right rightKeys plan).evaluate ev
            s.committed := by
      rw [hentry, Evaluator.scanRows_congr hleft]
      rfl
    exact h.answer hdue hx (hrows.trans hdirect)
  | hashJoinFast key =>
    obtain ⟨hrows, hx⟩ := Executor.executeHashJoinFast_spec hx key
      (hview _ (by simp [CachedQuery.tables])) (hview _ (by simp [CachedQuery.tables]))
    exact h.answer hdue hx (hrows.trans hdirect)
  | indexLookup key =>
    obtain ⟨hrows, hx⟩ := Executor.fetchJoinIndexLookupRowsCached_spec hx key
      (hview _ (by simp [CachedQuery.tables]))
    exact h.answer hdue hx (hrows.trans hdirect)

theorem Inv.storeAggregate [DecidableEq A] (h : s.Inv ev) {c : ComputedAggregate V A}
    (hc : s.computed txn = some c) (hgeneration : c.generation = s.cacheGeneration) :
    ({ s with
        executor := { s.executor with
          aggregateRowsCache := s.executor.aggregateRowsCache.put 256
            ⟨c.key, s.cacheGeneration, c.rows⟩ }
        computed := Function.update s.computed txn none } : QuerySystem V A B).Inv ev where
  data := h.data
  answers := h.answers
  caches := { h.caches with
    aggregateRows := h.caches.aggregateRows.put (hgeneration ▸ h.computed txn c hc) 256 }
  computed := by
    intro txn' c' hc'
    by_cases htxn : txn' = txn
    · subst htxn
      simp only [update_self] at hc'
      cases hc'
    · simp only [update_of_ne htxn] at hc'
      exact h.computed txn' c' hc'

/-! ## Runs -/

def start (tables : ExtTreeMap RelationId (TableData (Row V)))
    (indexes : ExtTreeMap IndexId (IndexData V)) : QuerySystem V A B :=
  { store := { engine := { state := { tables, indexes } } } }

theorem inv_start (tables : ExtTreeMap RelationId (TableData (Row V)))
    (indexes : ExtTreeMap IndexId (IndexData V)) :
    (start tables indexes : QuerySystem V A B).Inv ev where
  data := fun txn p hp => by simp [start] at hp
  caches := ⟨by simp [start, Cache.All], by simp [start, Cache.All], by simp [start, Cache.All],
    by simp [start, Cache.All]⟩
  computed := fun txn c hc => by simp [start] at hc
  answers := by simp [start]

section

variable [Ord V] [DecidableEq V]

theorem Inv.storeStep (h : s.Inv ev) {a : StoreAction V} {store : StoreSystem V}
    (hstep : s.store.step a = some store) : (s.storeStep a store).Inv ev := by
  have hdata : store.Data := h.data.step hstep
  rcases StoreSystem.step_committedRows h.data hstep with
    hsame | ⟨txn, rfl, hfatal⟩ | ⟨op, insert, rfl, hinsert, hlogged⟩
  · by_cases hlog : ∃ op, a = .insertLog op
    · obtain ⟨op, rfl⟩ := hlog
      exact h.tick hdata rfl rfl rfl rfl
    have hdue : store.InsertDue → s.store.InsertDue := fun hd =>
      (StoreSystem.step_insertDue h.data hstep hd).resolve_right hlog
    unfold QuerySystem.storeStep
    split
    · split
      · exact h.quietStep hdata rfl rfl rfl rfl hdue id fun _ => hsame
      · exact h.quietStep hdata rfl rfl rfl rfl hdue (by simp) fun _ => hsame
    · exact absurd ⟨_, rfl⟩ hlog
    · exact h.quietStep hdata rfl rfl rfl rfl hdue id fun _ => hsame
  · have hdue : store.InsertDue → s.store.InsertDue := fun hd =>
      (StoreSystem.step_insertDue h.data hstep hd).resolve_right (by simp)
    simp only [QuerySystem.storeStep, hfatal, Bool.false_eq_true, if_false]
    -- the rows have changed, so nothing is claimed until the generation moves
    exact h.quietStep hdata rfl rfl rfl rfl hdue (by simp) (by simp)
  · refine h.carry hdata rfl rfl rfl ?_
    intro K E f y hy
    exact .of_lt (hy.lt ⟨op, insert, hinsert, hlogged⟩)

variable [DecidableEq A]

theorem Inv.step (h : s.Inv ev) {a : QueryAction V A J} (hcurrent : s.Current a)
    (hstep : s.step ev a = some s') : s'.Inv ev := by
  cases a with
  | store a =>
    obtain ⟨store, hstore, rfl⟩ := Option.map_eq_some_iff.mp hstep
    exact h.storeStep hstore
  | clearIndexCountCaches txn =>
    simp only [QuerySystem.step] at hstep
    split at hstep
    · cases hstep
      exact h.tick h.data rfl rfl rfl rfl
    · cases hstep
  | takeSnapshot txn snapshot =>
    cases hstep
    exact h.quietStep h.data rfl rfl rfl rfl id id fun _ => rfl
  | query txn q =>
    cases hstep
    exact h.execute hcurrent
  | storeAggregate txn =>
    obtain ⟨c, hc, rfl⟩ := Option.map_eq_some_iff.mp hstep
    refine h.storeAggregate hc ?_
    simpa [Current, hc] using hcurrent

end

instance Current.decidable [DecidableEq V] (s : QuerySystem V A B) (a : QueryAction V A J) :
    Decidable (s.Current a) := by
  cases a <;> unfold Current <;> infer_instance

/-! ## Two small runs -/

def firstColumn : Evaluator Nat Nat Unit (List (Row Nat)) where
  aggregate := fun column rows =>
    let values := rows.map (·.getD column none)
    values.eraseDups.map fun v => [v, some (values.count v)]
  isSimpleGroupAggregate := fun _ => true
  compatScanRow := fun _ _ r => r.2
  compatIncludeOid := fun _ => false
  buildSide := fun _ rows => rows
  hashBuildOk := fun _ => true
  hashJoin := fun _ left right =>
    left.flatMap fun l => (right.filter (·.head? = l.head?)).map (l ++ ·)
  hashJoinFastRows := fun key left right =>
    (left.flatMap fun l => (right.filter (·.head? = l.head?)).map fun r =>
      key.outputOrdinals.map ((l ++ r).getD · none)).take (key.limit.getD 100)
  matchesIndexKey := fun _ v row => row.head? = some (some v)

def twoTables : QuerySystem Nat Nat (List (Row Nat)) :=
  start ((ExtTreeMap.insert ∅ 7 { descriptor := { tableId := 7, columns := [{ columnId := 1 }] } }
    ).insert 8 (TableData.commitInsert
      { descriptor := { tableId := 8, columns := [{ columnId := 1 }] } } 1 0 [some 10])) ∅

def fourQueries (txn : TxnId) : List (QueryAction Nat Nat Unit) :=
  [.query txn (.aggregate ⟨7, 0⟩), .query txn (.hashJoin 8 7 [0] ()),
    .query txn (.hashJoinFast ⟨8, 7, [0], [0], [0, 1], none⟩),
    .query txn (.indexLookup ⟨7, 1, 10, false⟩)]

/-- A commit, then the queries of two other transactions. -/
def readCommitted : List (QueryAction Nat Nat Unit) :=
  [.store (.begin 1), .store (.insert 1 7 [some 10]), .store (.commitPrepare 1),
    .store (.commitLog 1), .store (.commitApply 1), .clearIndexCountCaches 1,
    .store (.begin 2)] ++ fourQueries 2 ++ [.storeAggregate 2, .store (.begin 3)] ++ fourQueries 3

/-- Transaction 1 queries with its own insert pending, transaction 2 asks the same. -/
def readUncommitted : List (QueryAction Nat Nat Unit) :=
  [.store (.begin 1), .store (.insert 1 7 [some 10])] ++ fourQueries 1 ++
    [.storeAggregate 1, .store (.begin 2)] ++ fourQueries 2

end QuerySystem

end AionDb
