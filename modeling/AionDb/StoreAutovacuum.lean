import AionDb.StoreVacuum
import Mathlib.Data.List.Find

/-!
# The automatic vacuum

After a commit the tables it changed are vacuumed when enough of their rows are
dead. The horizon is the smallest id of a transaction that is active in
storage. A snapshot decides by itself which transactions it sees, and a
transaction below the horizon may be one that it does not.
-/

namespace AionDb

open Std ExtTreeMap List Option

variable {R : Type}

/-! ## What a snapshot sees of a vacuumed tuple -/

def HeapTuple.visible (t : HeapTuple R) (s : Snapshot) : Option (HeapTupleVersion R) :=
  t.versions.reverse.find? (versionVisible · s)

theorem lastLiveIndex_bind (vs : List (HeapTupleVersion R)) :
    (lastLiveIndex vs).bind (vs[·]?) = vs.reverse.find? (·.isLive) := by
  induction vs using List.reverseRecOn with
  | nil => rfl
  | append_singleton vs v ih =>
    rw [lastLiveIndex_concat, reverse_append, reverse_singleton, singleton_append, find?_cons]
    cases v.isLive with
    | true => simp
    | false =>
      rw [← ih]
      refine bind_congr fun i hi => ?_
      obtain ⟨w, hw, -⟩ := lastLiveIndex_eq_some hi
      rw [getElem?_append_left (List.getElem?_eq_some_iff.mp hw).1]

theorem TableData.visibleVersion_eq (t : TableData R) (id : TupleId) (s : Snapshot) :
    t.visibleVersion id s = t.heap[id]?.bind (·.visible s) := by
  unfold visibleVersion
  split
  · rename_i hlatest
    refine bind_congr fun tuple _ => ?_
    rw [tuple.latest_eq]
    refine (lastLiveIndex_bind _).trans (find?_congr fun v _ => ?_)
    cases hx : v.xmax <;>
      simp [HeapTupleVersion.isLive, versionVisible, txnVisible, hlatest, hx]
  · rfl

/-- The transactions whose dead versions a vacuum takes for unseen by everyone. -/
def BelowHorizon (horizon xmax : TxnId) : Prop := horizon = 0 ∨ xmax < horizon

/-- The snapshot sees the end of every version of the tuple that it saw begin and that ended
below the horizon. A tuple without a live version counts only if all of it is below. -/
def HeapTuple.Ended (t : HeapTuple R) (horizon : TxnId) (s : Snapshot) : Prop :=
  t.versions.any (·.isLive) ∨ allBelowHorizon horizon t →
    ∀ v ∈ t.versions, txnVisible v.xmin s → ∀ xmax, v.xmax = some xmax → BelowHorizon horizon xmax →
      txnVisible xmax s

variable {horizon : TxnId} {s : Snapshot}

theorem HeapTuple.ended_of_sees (t : HeapTuple R)
    (hpos : horizon ≠ 0) (h : ∀ x < horizon, txnVisible x s) : t.Ended horizon s :=
  fun _ _ _ _ xmax _ hbelow => h xmax (hbelow.resolve_left hpos)

theorem below_of_not_vacuumKeeps {v : HeapTupleVersion R}
    (h : vacuumKeeps horizon v = false) : ∃ xmax, v.xmax = some xmax ∧ BelowHorizon horizon xmax := by
  unfold vacuumKeeps at h
  split at h
  · cases h
  rename_i xmax hxmax
  refine ⟨xmax, hxmax, ?_⟩
  split at h
  · exact .inl (by simpa using h)
  · have h := of_decide_eq_false h
    exact (Nat.eq_zero_or_pos _).imp_right fun hpos => Nat.lt_of_not_le fun hle => h ⟨hpos, hle⟩

theorem HeapTuple.Ended.not_visible {t : HeapTuple R}
    (h : t.Ended horizon s) (ht : t.versions.any (·.isLive) ∨ allBelowHorizon horizon t)
    {v : HeapTupleVersion R} (hv : v ∈ t.versions)
    (hbelow : ∃ xmax, v.xmax = some xmax ∧ BelowHorizon horizon xmax) : versionVisible v s = false := by
  obtain ⟨xmax, hxmax, hbelow⟩ := hbelow
  rw [versionVisible, hxmax, any_some]
  cases hmin : txnVisible v.xmin s with
  | false => rfl
  | true => simp [h ht v hv hmin xmax hxmax hbelow]

theorem HeapTuple.visible_vacuum {t : HeapTuple R}
    (h : t.Ended horizon s) : (t.vacuum horizon).bind (·.visible s) = t.visible s := by
  unfold vacuum
  split
  · rename_i hlive
    simp only [bind_some, visible, restrict, ← filter_reverse, find?_filter]
    refine find?_congr fun v hv => ?_
    cases hkeep : vacuumKeeps horizon v with
    | true => simp
    | false =>
      simp [h.not_visible (.inl hlive) (mem_reverse.mp hv) (below_of_not_vacuumKeeps hkeep)]
  · rename_i hdead
    split
    · rename_i hbelow
      refine (find?_eq_none.mpr fun v hv => ?_).symm
      have hv := mem_reverse.mp hv
      rw [h.not_visible (.inr hbelow) hv]
      · exact Bool.false_ne_true
      · have hall := all_eq_true.mp hbelow v hv
        cases hxmax : v.xmax with
        | none => exact absurd (any_eq_true.mpr ⟨v, hv, congrArg Option.isNone hxmax⟩) hdead
        | some xmax => exact ⟨xmax, rfl, by simpa [hxmax, BelowHorizon] using hall⟩
    · rfl

theorem TableData.visibleVersion_vacuum {t : TableData R}
    (h : ∀ (id : TupleId) tuple, t.heap[id]? = some tuple → tuple.Ended horizon s) (id : TupleId) :
    (t.vacuum horizon).2.visibleVersion id s = t.visibleVersion id s := by
  simp only [visibleVersion_eq, vacuum, getElem?_filterMap', bind_assoc]
  exact bind_congr fun tuple htuple => HeapTuple.visible_vacuum (h id tuple htuple)

/-! ## The automatic vacuum -/

def autovacuumMinDeadRows : Nat := 50

def autovacuumProbeDeadInterval : Nat := 512

/-- `should_autovacuum_table`: more dead rows than a fixed number and a fifth of the live ones. -/
def TableData.shouldAutovacuum (t : TableData R) : Bool :=
  decide (autovacuumMinDeadRows ≤ t.deadRowEstimate ∧
    satAdd autovacuumMinDeadRows (t.liveRowEstimate / 5) ≤ t.deadRowEstimate)

/-- `activeTxns` are the transactions that are active in storage, `lastAutovacuum` is when a table
was last vacuumed. -/
structure AutovacuumState (V G D : Type) extends VacuumState V G D where
  activeTxns : List TxnId
  lastAutovacuum : ExtTreeMap RelationId Nat := ∅

structure AutovacuumCall (V G D : Type) where
  now : Nat
  minInterval : Nat
  rebuildEnabled : Bool
  kernels : RebuildKernels V G D

namespace AutovacuumState

variable {V G D : Type}

def oldestActiveXmin (e : AutovacuumState V G D) : TxnId := e.activeTxns.min?.getD 0

def vacuums (e : AutovacuumState V G D) (call : AutovacuumCall V G D) (tableId : RelationId)
    (table : TableData (StoredRow V)) : Bool :=
  e.lastAutovacuum[tableId]?.all (fun last => decide (call.minInterval ≤ call.now - last)) &&
    decide (autovacuumMinDeadRows ≤ table.deadRowEstimate) &&
    decide (autovacuumProbeDeadInterval ∣ table.deadRowEstimate) && table.shouldAutovacuum

variable [Ord V] [LargeValue V]

/-- A vacuum that active transactions kept from removing anything is tried again at once. -/
def autovacuumTable (call : AutovacuumCall V G D) (e : AutovacuumState V G D)
    (tableId : RelationId) : AutovacuumState V G D :=
  match e.tables[tableId]? with
  | none => e
  | some table =>
    if e.vacuums call tableId table then
      let horizon := e.oldestActiveXmin
      let noted := e.lastAutovacuum.insert tableId call.now
      match e.vacuumTable call.rebuildEnabled call.kernels tableId horizon with
      | (.ok deadCount, s) => { e with
          toVacuumState := s
          lastAutovacuum := if deadCount > 0 || horizon == 0 then noted else e.lastAutovacuum }
      | (.error _, s) => { e with toVacuumState := s, lastAutovacuum := noted }
    else e

def maybeAutovacuumTables (e : AutovacuumState V G D) (call : AutovacuumCall V G D)
    (changedTables : List RelationId) : AutovacuumState V G D :=
  changedTables.dedup.mergeSort.foldl (autovacuumTable call) e

def visibleVersion (e : AutovacuumState V G D) (tableId : RelationId) (id : TupleId)
    (s : Snapshot) : Option (HeapTupleVersion (StoredRow V)) :=
  e.tables[tableId]?.bind (·.visibleVersion id s)

theorem autovacuumTable_spec (call : AutovacuumCall V G D) (e : AutovacuumState V G D)
    (tableId : RelationId) :
    let e' := autovacuumTable call e tableId
    e'.activeTxns = e.activeTxns ∧
      (∀ k ≠ tableId, e'.tables[k]? = e.tables[k]? ∧ e'.lastAutovacuum[k]? = e.lastAutovacuum[k]?) ∧
      (e'.tables[tableId]? = e.tables[tableId]? ∨
        ∃ table, e.tables[tableId]? = some table ∧ e.vacuums call tableId table ∧
          e'.tables[tableId]? = some (table.vacuum e.oldestActiveXmin).2) := by
  have hne : ∀ {X : Type} (m : ExtTreeMap RelationId X) (x : X), ∀ k ≠ tableId,
      (m.insert tableId x)[k]? = m[k]? := by
    intro X m x k hk
    simp [ExtTreeMap.getElem?_insert, hk.symm]
  intro e'
  unfold e' autovacuumTable
  split
  · exact ⟨rfl, fun _ _ => ⟨rfl, rfl⟩, .inl rfl⟩
  rename_i table htable
  split
  · rename_i hdue
    dsimp only
    split
    · rename_i deadCount s hres
      obtain ⟨table', htable', hs⟩ := VacuumState.vacuumTable_spec hres
      cases htable.symm.trans htable'
      refine ⟨rfl, fun k hk => ⟨?_, ?_⟩, .inr ⟨table, htable, hdue, ?_⟩⟩
      · rw [hs, hne _ _ k hk]
      · dsimp only
        split
        · rw [hne _ _ k hk]
        · rfl
      · simp [hs]
    · rename_i error s hres
      have hs := (VacuumState.vacuumTable_spec hres).tables
      exact ⟨rfl, fun k hk => ⟨by rw [hs], hne _ _ k hk⟩, .inl (by rw [hs])⟩
  · exact ⟨rfl, fun _ _ => ⟨rfl, rfl⟩, .inl rfl⟩

def Ended (e : AutovacuumState V G D) (call : AutovacuumCall V G D) (tables : List RelationId)
    (s : Snapshot) : Prop :=
  ∀ tableId ∈ tables, ∀ table, e.tables[tableId]? = some table → e.vacuums call tableId table →
    ∀ (id : TupleId) tuple, table.heap[id]? = some tuple → tuple.Ended e.oldestActiveXmin s

variable {call : AutovacuumCall V G D} {s : Snapshot}

theorem visibleVersion_autovacuumTable {e : AutovacuumState V G D} {tableId : RelationId}
    (h : e.Ended call [tableId] s) (k : RelationId) (id : TupleId) :
    (autovacuumTable call e tableId).visibleVersion k id s = e.visibleVersion k id s := by
  obtain ⟨-, hothers, htable⟩ := autovacuumTable_spec call e tableId
  by_cases hk : k = tableId
  · subst hk
    rcases htable with hsame | ⟨table, htable, hdue, hvacuumed⟩
    · rw [visibleVersion, visibleVersion, hsame]
    · rw [visibleVersion, visibleVersion, hvacuumed, htable]
      exact TableData.visibleVersion_vacuum (h k (mem_singleton_self k) table htable hdue) id
  · rw [visibleVersion, visibleVersion, (hothers k hk).1]

theorem visibleVersion_foldl {tables : List RelationId} (hnodup : tables.Nodup)
    {e : AutovacuumState V G D} (h : e.Ended call tables s) (k : RelationId) (id : TupleId) :
    (tables.foldl (autovacuumTable call) e).visibleVersion k id s = e.visibleVersion k id s := by
  induction tables generalizing e with
  | nil => rfl
  | cons tableId rest ih =>
    obtain ⟨hnot, hnodup⟩ := nodup_cons.mp hnodup
    obtain ⟨hactive, hothers, -⟩ := autovacuumTable_spec call e tableId
    rw [foldl_cons, ih hnodup, visibleVersion_autovacuumTable]
    · intro k hk
      exact h k (mem_cons.mpr (.inl (mem_singleton.mp hk)))
    -- a table that comes later is as it was, and so is the horizon
    intro k hk table htable hdue
    obtain ⟨hsame, hlast⟩ := hothers k (ne_of_mem_of_not_mem hk hnot)
    rw [oldestActiveXmin, hactive]
    refine h k (mem_cons_of_mem _ hk) table (hsame ▸ htable) ?_
    simpa only [vacuums, hlast] using hdue

/-- The first of 32 rows is updated by transaction 1, after 511 updates of the others.
Transaction 2 is active. -/
def hotTable : AutovacuumState Nat Unit Unit where
  tables := (∅ : ExtTreeMap RelationId _).insert 1 <|
    let row : StoredRow Nat := [.inline (some 5)]
    let t : TableData _ := (List.range 32).foldl (fun t i => t.commitInsert (i + 1) 0 row)
      { descriptor := VacuumState.oneColumn }
    let t := (List.range 511).foldl (fun t i => (t.commitUpdate (i % 31 + 2) 0 row).2) t
    (t.commitUpdate 1 1 [.inline (some 6)]).2
  overflow := .empty
  indexes := ∅
  ginIndexes := ∅
  diskOrderedIndexes := ∅
  diskVarExactIndexes := ∅
  activeTxns := [2]

def firstCall : AutovacuumCall Nat Unit Unit := ⟨0, 5000, true, VacuumState.allKernels⟩

end AutovacuumState

end AionDb
