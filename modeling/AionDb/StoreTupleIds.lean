import AionDb.StoreSystem

/-!
# Tuple ids

Two schemes give out the tuple ids of a table. An autocommit insert takes the
counter of the table; a transaction reserves an id by writing its row into its
pending writes, behind the counter and behind every other pending row. Only
the second scheme looks at the first: the counter does not skip reserved ids.

A tuple id is *held* by the heap, by a pending transaction or by an autocommit
insert in flight. As long as the counter never runs into a reserved id, every
id has at most one holder: an id is given out when it has none, and publishing
a row only passes its id on to the heap.
-/

namespace AionDb

open Std Run ExtTreeMap List Option StorageState TableData

variable {V : Type}

/-! ## Reserved ids -/

theorem le_foldl_satAdd (ids : List Nat) (start : Nat) :
    start ≤ ids.foldl (fun next id => max next (satAdd id 1)) start := by
  induction ids generalizing start with
  | nil => exact le_rfl
  | cons id ids ih => exact Nat.le_trans (Nat.le_max_left ..) (ih _)

theorem lt_foldl_satAdd {ids : List Nat} {id : Nat} (hid : id ∈ ids) (hmax : id < u64Max)
    (start : Nat) : id < ids.foldl (fun next id => max next (satAdd id 1)) start := by
  induction ids generalizing start with
  | nil => cases hid
  | cons x ids ih =>
    cases mem_cons.mp hid with
    | inl heq =>
      subst heq
      have hstep : id < max start (satAdd id 1) := by
        unfold satAdd
        omega
      exact Nat.lt_of_lt_of_le hstep (le_foldl_satAdd ids _)
    | inr hmem => exact ih hmem _

namespace StorageState

variable {s : StorageState V}

theorem mem_reservedTupleIds {tableId : RelationId} {id : TupleId} :
    id ∈ s.reservedTupleIds tableId ↔
      ∃ (txn : TxnId) (p : Pending V) (st : PendingRowState V),
        s.activeTxns[txn]? = some p ∧ p.pendingRow tableId id = some st := by
  simp only [reservedTupleIds, mem_flatMap, mem_filterMap, Prod.exists,
    mem_toList_iff_getElem?_eq_some, ExtTreeMap.mem_keys,
    PendingTransaction.pendingRow, bind_eq_some_iff]
  constructor
  · rintro ⟨w, ⟨txn, p, hp, hw⟩, hid⟩
    obtain ⟨st, hst⟩ := isSome_iff_exists.mp (mem_iff_isSome_getElem?.mp hid)
    exact ⟨txn, p, st, hp, w, hw, hst⟩
  · rintro ⟨txn, p, st, hp, w, hw, hst⟩
    exact ⟨w, ⟨txn, p, hp, hw⟩, mem_iff_isSome_getElem?.mpr (by simp [hst])⟩

end StorageState

namespace StoreSystem

variable {s s' : StoreSystem V}

/-! ## Holders -/

inductive Holder where
  | heap
  | txn (txn : TxnId)
  | op (op : Nat)
deriving DecidableEq

def Holds (s : StoreSystem V) : Holder → RelationId → TupleId → Prop
  | .heap, t, id => ∃ table, s.engine.state.tables[t]? = some table ∧ id ∈ table.heap
  | .txn x, t, id => ∃ p, s.engine.state.activeTxns[x]? = some p ∧ p.pendingRow t id ≠ none
  | .op o, t, id => ∃ i, s.inserts[o]? = some i ∧ i.op.tableId = t ∧ i.op.tupleId = id

/-- Every id has at most one holder; what the heap and the inserts in flight hold is below the
counter. -/
structure Held (s : StoreSystem V) : Prop where
  unique : ∀ h h' t id, s.Holds h t id → s.Holds h' t id → h = h'
  below : ∀ t table id, s.engine.state.tables[t]? = some table →
    (s.Holds .heap t id ∨ ∃ o, s.Holds (.op o) t id) → id < table.nextTupleId

def CountersGrow (s s' : StoreSystem V) : Prop :=
  ∀ (t : RelationId) (table' : TableData (Row V)), s'.engine.state.tables[t]? = some table' →
    ∃ table, s.engine.state.tables[t]? = some table ∧ table.nextTupleId ≤ table'.nextTupleId

section

variable (hheld : s.Held) (hgrow : CountersGrow s s')
include hheld hgrow

theorem Held.pass_on (f : Holder → Holder)
    (hholds : ∀ h t id, s'.Holds h t id → ∃ h0, s.Holds h0 t id ∧ h = f h0)
    (hbelow : ∀ t table' id x, s'.engine.state.tables[t]? = some table' → f (.txn x) ≠ .txn x →
      s.Holds (.txn x) t id → id < table'.nextTupleId)
    (hop : ∀ x o, f (.txn x) ≠ .op o) : s'.Held where
  unique h h' t id hh hh' := by
    obtain ⟨h0, hh0, rfl⟩ := hholds h t id hh
    obtain ⟨h1, hh1, rfl⟩ := hholds h' t id hh'
    rw [hheld.unique h0 h1 t id hh0 hh1]
  below t table' id htable' hid := by
    obtain ⟨table, htable, hle⟩ := hgrow t table' htable'
    have hold : ∃ h, s.Holds h t id ∧ ∀ x, h = .txn x → f (.txn x) ≠ .txn x := by
      rcases hid with hid | ⟨o, hid⟩
      · obtain ⟨h0, hh0, heq⟩ := hholds _ t id hid
        exact ⟨h0, hh0, fun x hx hf => by rw [hx, hf] at heq; cases heq⟩
      · obtain ⟨h0, hh0, heq⟩ := hholds _ t id hid
        exact ⟨h0, hh0, fun x hx hf => by rw [hx] at heq; exact hop x o heq.symm⟩
    obtain ⟨h, hh, htxn⟩ := hold
    cases h with
    | heap => exact Nat.lt_of_lt_of_le (hheld.below t table id htable (.inl hh)) hle
    | op o => exact Nat.lt_of_lt_of_le (hheld.below t table id htable (.inr ⟨o, hh⟩)) hle
    | txn x => exact hbelow t table' id x htable' (htxn x rfl) hh

theorem Held.give_out (k : Holder) (t0 : RelationId) (id0 : TupleId)
    (hfresh : ∀ h, ¬ s.Holds h t0 id0)
    (hholds : ∀ h t id, s'.Holds h t id → s.Holds h t id ∨ h = k ∧ t = t0 ∧ id = id0)
    (hbelow : ∀ table', s'.engine.state.tables[t0]? = some table' → (∀ x, k ≠ .txn x) →
      id0 < table'.nextTupleId) : s'.Held where
  unique h h' t id hh hh' := by
    rcases hholds h t id hh with hh | ⟨rfl, rfl, rfl⟩ <;>
      rcases hholds h' t id hh' with hh' | ⟨rfl, heq, heq'⟩
    · exact hheld.unique h h' t id hh hh'
    · subst heq heq'; exact absurd hh (hfresh h)
    · exact absurd hh' (hfresh h')
    · rfl
  below t table' id htable' hid := by
    obtain ⟨table, htable, hle⟩ := hgrow t table' htable'
    rcases hid with hid | ⟨o, hid⟩
    · rcases hholds _ t id hid with hh | ⟨rfl, rfl, rfl⟩
      · exact Nat.lt_of_lt_of_le (hheld.below t table id htable (.inl hh)) hle
      · exact hbelow table' htable' (by simp)
    · rcases hholds _ t id hid with hh | ⟨rfl, rfl, rfl⟩
      · exact Nat.lt_of_lt_of_le (hheld.below t table id htable (.inr ⟨o, hh⟩)) hle
      · exact hbelow table' htable' (by simp)

theorem Held.keep (hholds : ∀ h t id, s'.Holds h t id → s.Holds h t id) : s'.Held :=
  hheld.pass_on hgrow id (fun h t id hh => ⟨h, hholds h t id hh, rfl⟩)
    (fun _ _ _ _ _ hne => absurd rfl hne) (fun _ _ => nofun)

end

theorem CountersGrow.of_tables (h : s'.engine.state.tables = s.engine.state.tables) :
    CountersGrow s s' := fun t table' htable' => ⟨table', by rw [← h, htable'], le_rfl⟩

/-! ## Inserts only -/

def isInsert : StoreAction V → Bool
  | .update .. | .delete .. | .rollback .. => false
  | _ => true

/-- An autocommit insert does not take an id that a transaction has reserved, and the reserved
ids are not used up. -/
def SkipsReserved (s : StoreSystem V) : StoreAction V → Prop
  | .insertAllocate _ tableId _ =>
    ∀ table ∈ s.engine.state.tables[tableId]?,
      table.nextTupleId ∉ s.engine.state.reservedTupleIds tableId
  | .insert _ tableId _ => ∀ id ∈ s.engine.state.reservedTupleIds tableId, id < u64Max
  | _ => True

/-- Where the row of a reported insert is: committed, or pending in its transaction. -/
inductive Placed (s : StoreSystem V) (r : PlacedRow V) : Prop where
  | committed (table : TableData (Row V)) (htable : s.engine.state.tables[r.tableId]? = some table)
      (hrow : table.loadLatestRow r.tupleId = some r.row)
  | pending (x : TxnId) (p : Pending V) (hp : s.engine.state.activeTxns[x]? = some p)
      (hrow : p.pendingRow r.tableId r.tupleId = some (.present r.row))

structure InsertInv (s : StoreSystem V) : Prop where
  data : s.Data
  held : s.Held
  /-- Transactions have pending insertions into known tables, and nothing else. -/
  inserts : ∀ (x : TxnId) (p : Pending V) (t : RelationId) (id : TupleId)
    (st : PendingRowState V), s.engine.state.activeTxns[x]? = some p →
      p.pendingRow t id = some st → t ∈ s.engine.state.tables ∧ ∃ row, st = .present row
  placed : ∀ r ∈ s.reported, s.Placed r
  nodup : (s.reported.map PlacedRow.key).Nodup

variable {table : TableData (Row V)} {row : Row V} {state : StorageState V} {op : Nat}
  {t t' tableId : RelationId} {id : TupleId} {p : Pending V} {r : PlacedRow V} {txn : TxnId}
  {engine : InMemoryStorage V}

theorem Placed.holds (h : s.Placed r) : ∃ k, s.Holds k r.tableId r.tupleId ∧ ∀ o, k ≠ .op o := by
  cases h with
  | committed table htable hrow =>
    exact ⟨.heap, ⟨table, htable, mem_heap_of_loadLatestRow hrow⟩, nofun⟩
  | pending x p hp hrow => exact ⟨.txn x, ⟨p, hp, by simp [hrow]⟩, nofun⟩

theorem nodup_reported {rs : List (PlacedRow V)} (hnodup : (rs.map PlacedRow.key).Nodup)
    (r : PlacedRow V) (hnew : ∀ r' ∈ rs, r'.key ≠ r.key) :
    ((rs ++ [r]).map PlacedRow.key).Nodup := by
  rw [map_append, nodup_append]
  refine ⟨hnodup, by simp, ?_⟩
  intro k hk k' hk'
  obtain ⟨r', hr', rfl⟩ := mem_map.mp hk
  obtain rfl : k' = r.key := by simpa using hk'
  exact hnew r' hr'

theorem PlacedRow.key_ne_of_not_holds {r' : PlacedRow V} (hr' : s.Placed r')
    (hfresh : ∀ k, (∀ o, k ≠ .op o) → ¬ s.Holds k r.tableId r.tupleId) : r'.key ≠ r.key := by
  intro hkey
  obtain ⟨k, hk, hop⟩ := hr'.holds
  obtain ⟨ht, hid⟩ := Prod.mk.inj hkey
  exact hfresh k hop (ht ▸ hid ▸ hk)

theorem InsertInv.of_same_rows (hinv : s.InsertInv) (hdata : s'.Data)
    (htables : s'.engine.state.tables = s.engine.state.tables)
    (hrows : ∀ (x : TxnId) (t : RelationId) (id : TupleId) (st : PendingRowState V),
      (∃ p, s'.engine.state.activeTxns[x]? = some p ∧ p.pendingRow t id = some st) ↔
        ∃ p, s.engine.state.activeTxns[x]? = some p ∧ p.pendingRow t id = some st)
    (hinserts : ∀ (o : Nat) (i' : InsertInFlight V), s'.inserts[o]? = some i' →
      ∃ i, s.inserts[o]? = some i ∧ i'.op = i.op)
    (hreported : s'.reported = s.reported) : s'.InsertInv where
  data := hdata
  held := by
    refine hinv.held.keep (.of_tables htables) fun h t id hh => ?_
    cases h with
    | heap => simpa only [Holds, htables] using hh
    | txn x =>
      obtain ⟨p, hp, hst⟩ := hh
      obtain ⟨st, hst⟩ := ne_none_iff_exists'.mp hst
      obtain ⟨p, hp, hst⟩ := (hrows x t id st).mp ⟨p, hp, hst⟩
      exact ⟨p, hp, by simp [hst]⟩
    | op o =>
      obtain ⟨i', hi', ht, hid⟩ := hh
      obtain ⟨i, hi, hop⟩ := hinserts o i' hi'
      exact ⟨i, hi, hop ▸ ht, hop ▸ hid⟩
  inserts x p t id st hp hst := by
    obtain ⟨p, hp, hst⟩ := (hrows x t id st).mp ⟨p, hp, hst⟩
    rw [htables]
    exact hinv.inserts x p t id st hp hst
  placed r hr := by
    cases hinv.placed r (hreported ▸ hr) with
    | committed table htable hrow => exact .committed table (htables ▸ htable) hrow
    | pending x p hp hst =>
      obtain ⟨p, hp, hst⟩ := (hrows x _ _ _).mpr ⟨p, hp, hst⟩
      exact .pending x p hp hst
  nodup := hreported ▸ hinv.nodup

theorem InsertInv.unchanged (hinv : s.InsertInv) (htables : s'.engine.state.tables =
      s.engine.state.tables) (hactive : s'.engine.state.activeTxns = s.engine.state.activeTxns)
    (hinserts : ∀ (o : Nat) (i' : InsertInFlight V), s'.inserts[o]? = some i' →
      ∃ i, s.inserts[o]? = some i ∧ i'.op = i.op)
    (hreported : s'.reported = s.reported) : s'.InsertInv :=
  hinv.of_same_rows (fun x p hp => hinv.data x p (hactive ▸ hp)) htables (by simp [hactive])
    hinserts hreported

theorem InsertInv.begin (hinv : s.InsertInv) (hnew : txn ∉ s.engine.state.activeTxns)
    (hstate : engine.state = (s.engine.setPending txn {}).state) :
    { s with engine }.InsertInv := by
  refine hinv.of_same_rows (hinv.data.setPending ⟨rfl, rfl, rfl, rfl, rfl⟩ (congrArg _ hstate))
    (by rw [hstate]; rfl) (fun x t id st => ?_) (fun o i hi => ⟨i, hi, rfl⟩) rfl
  simp only [hstate, activeTxns_setPending]
  split
  case isTrue hx => simp [PendingTransaction.pendingRow, hx, ExtTreeMap.getElem?_eq_none hnew]
  case isFalse => rfl

theorem InsertInv.reserved_fresh (hinv : s.InsertInv) (htable : s.engine.state.tables[tableId]? = some table)
    (hmax : ∀ id ∈ s.engine.state.reservedTupleIds tableId, id < u64Max) (k : Holder) :
    ¬ s.Holds k tableId (s.engine.state.nextReservedTupleId table tableId) := by
  intro hk
  have hle : table.nextTupleId ≤ s.engine.state.nextReservedTupleId table tableId :=
    le_foldl_satAdd ..
  cases k with
  | heap => exact absurd (hinv.held.below tableId table _ htable (.inl hk)) (Nat.not_lt.mpr hle)
  | op o =>
    exact absurd (hinv.held.below tableId table _ htable (.inr ⟨o, hk⟩)) (Nat.not_lt.mpr hle)
  | txn x =>
    obtain ⟨p, hp, hst⟩ := hk
    obtain ⟨st, hst⟩ := ne_none_iff_exists'.mp hst
    have hmem := mem_reservedTupleIds.mpr ⟨x, p, st, hp, hst⟩
    have hlt : s.engine.state.nextReservedTupleId table tableId <
        s.engine.state.nextReservedTupleId table tableId :=
      lt_foldl_satAdd hmem (hmax _ hmem) _
    exact absurd hlt (Nat.lt_irrefl _)

theorem InsertInv.insert (hinv : s.InsertInv) {q : Pending V}
    (hp : s.engine.state.activeTxns[txn]? = some p)
    (htable : s.engine.state.tables[tableId]? = some table)
    (hid : id = s.engine.state.nextReservedTupleId table tableId)
    (hq : SetsWrites p tableId ((p.writesOf tableId).recordPresent id row table.nextHeapPosition) q)
    (hmax : ∀ id ∈ s.engine.state.reservedTupleIds tableId, id < u64Max) (record : WalRecord V) :
    { s with
      engine := (s.engine.log record).setPending txn q
      reported := s.reported ++ [({ tableId, tupleId := id, row } : PlacedRow V)] }.InsertInv := by
  have hfresh : ∀ k, ¬ s.Holds k tableId id := hid ▸ hinv.reserved_fresh htable hmax
  have hactive : ∀ x : TxnId, ((s.engine.log record).setPending txn q).state.activeTxns[x]? =
      if x = txn then some q else s.engine.state.activeTxns[x]? :=
    activeTxns_setPending (s.engine.log record) txn q
  have hrows : ∀ t id', q.pendingRow t id' =
      if t = tableId ∧ id' = id then some (.present row) else p.pendingRow t id' := by
    intro t id'
    rw [hq.pendingRow]
    by_cases ht : t = tableId
    · subst ht
      simp [TableWriteSet.recordPresent, ExtTreeMap.getElem?_insert, @eq_comm _ id,
        PendingTransaction.rows_writesOf]
    · simp [ht]
  refine ⟨hinv.data.setPending hq.dataOnly rfl, ?_, ?_, ?_, ?_⟩
  · refine hinv.held.give_out (.of_tables rfl) (.txn txn) tableId id hfresh ?_
      (fun _ _ hne => absurd rfl (hne txn))
    intro h t id' hh
    cases h with
    | heap => exact .inl hh
    | op o => exact .inl hh
    | txn x =>
      obtain ⟨p', hp', hst⟩ := hh
      rw [hactive] at hp'
      split at hp'
      case isFalse => exact .inl ⟨p', hp', hst⟩
      case isTrue hx =>
        cases hp'
        subst hx
        rw [hrows] at hst
        split at hst
        case isTrue heq => exact .inr ⟨rfl, heq⟩
        case isFalse => exact .inl ⟨p, hp, hst⟩
  · intro x p' t id' st hp' hst
    rw [hactive] at hp'
    split at hp'
    case isFalse => exact hinv.inserts x p' t id' st hp' hst
    case isTrue hx =>
      cases hp'
      rw [hrows] at hst
      split at hst
      case isTrue heq =>
        cases hst
        refine ⟨?_, row, rfl⟩
        show t ∈ s.engine.state.tables
        exact mem_iff_isSome_getElem?.mpr (by simp [heq.1, htable])
      case isFalse => exact hinv.inserts txn p t id' st hp hst
  · intro r hr
    rcases mem_append.mp hr with hr | hr
    · cases hinv.placed r hr with
      | committed table htable hrow => exact .committed table htable hrow
      | pending x p' hp' hst =>
        by_cases hx : x = txn
        · subst hx
          cases hp.symm.trans hp'
          refine .pending x q ((hactive x).trans (if_pos rfl)) ?_
          rw [hrows, if_neg ?_, hst]
          rintro ⟨ht, hid'⟩
          exact hfresh (.txn x) ⟨p, hp, by simp [← ht, ← hid', hst]⟩
        · exact .pending x p' ((hactive x).trans ((if_neg hx).trans hp')) hst
    · obtain rfl : r = _ := mem_singleton.mp hr
      refine .pending txn q ((hactive txn).trans (if_pos rfl)) ?_
      rw [hrows, if_pos ⟨rfl, rfl⟩]
  · refine nodup_reported hinv.nodup _ fun r' hr' => ?_
    exact PlacedRow.key_ne_of_not_holds (hinv.placed r' hr') fun k _ => hfresh k

section

variable {state' : StorageState V} (htables : ∀ t' : RelationId,
  state'.tables[t']? = if t' = t then some table else state.tables[t']?)
include htables

theorem holds_heap_setTable (h : ∃ table', state'.tables[t']? = some table' ∧ id ∈ table'.heap) :
    (t' = t ∧ id ∈ table.heap) ∨
      t' ≠ t ∧ ∃ table', state.tables[t']? = some table' ∧ id ∈ table'.heap := by
  obtain ⟨table', htable', hid⟩ := h
  rw [htables] at htable'
  split at htable'
  case isTrue heq =>
    cases htable'
    exact .inl ⟨heq, hid⟩
  case isFalse hne => exact .inr ⟨hne, table', htable', hid⟩

theorem mem_tables_setTable (h : t' ∈ state.tables) : t' ∈ state'.tables := by
  rw [mem_iff_isSome_getElem?] at h ⊢
  rw [htables]
  split
  · rfl
  · exact h

end

theorem CountersGrow.of_setTable {table' : TableData (Row V)}
    (htable : s.engine.state.tables[t]? = some table)
    (hnext : table.nextTupleId ≤ table'.nextTupleId)
    (htables : ∀ t' : RelationId, s'.engine.state.tables[t']? =
      if t' = t then some table' else s.engine.state.tables[t']?) : CountersGrow s s' := by
  intro t' table1 htable1
  rw [htables] at htable1
  split at htable1
  case isTrue heq =>
    cases htable1
    exact ⟨table, heq ▸ htable, hnext⟩
  case isFalse => exact ⟨table1, htable1, le_rfl⟩

def taken (s : StoreSystem V) (tableId : RelationId) (table : TableData (Row V)) : StoreSystem V :=
  { s with
    engine := { s.engine with state := s.engine.state.setTable tableId table.allocateTupleId.2 } }

theorem holds_of_taken (htable : s.engine.state.tables[tableId]? = some table) {h : Holder}
    (hh : (s.taken tableId table).Holds h t id) : s.Holds h t id := by
  cases h with
  | heap =>
    rcases holds_heap_setTable (tables_setTable _ _ _) hh with ⟨rfl, hid⟩ | ⟨-, hh⟩
    · exact ⟨table, htable, hid⟩
    · exact hh
  | txn x => exact hh
  | op o => exact hh

theorem InsertInv.taken (hinv : s.InsertInv)
    (htable : s.engine.state.tables[tableId]? = some table) :
    (s.taken tableId table).InsertInv := by
  refine ⟨hinv.data, ?_, ?_, ?_, hinv.nodup⟩
  · exact hinv.held.keep (.of_setTable htable (Nat.le_succ _) (tables_setTable _ _ _))
      fun h t id hh => holds_of_taken htable hh
  · intro x p t id st hp hst
    obtain ⟨ht, hrow⟩ := hinv.inserts x p t id st hp hst
    exact ⟨mem_tables_setTable (tables_setTable _ _ _) ht, hrow⟩
  · intro r hr
    cases hinv.placed r hr with
    | committed table' htable' hrow =>
      by_cases ht : r.tableId = tableId
      · refine .committed table.allocateTupleId.2 ((tables_setTable ..).trans (if_pos ht)) ?_
        rw [ht, htable] at htable'
        cases htable'
        exact hrow
      · exact .committed table' ((tables_setTable ..).trans ((if_neg ht).trans htable')) hrow
    | pending x p hp hst => exact .pending x p hp hst

theorem InsertInv.allocate (hinv : s.InsertInv) {prepared : List (PreparedBaseIndexInsert V)} {mark : Nat}
    (htable : s.engine.state.tables[tableId]? = some table)
    (hskip : table.nextTupleId ∉ s.engine.state.reservedTupleIds tableId) :
    { s.taken tableId table with
      inserts := s.inserts.insert op
        { op := { tableId, tupleId := table.nextTupleId, row, prepared }, mark } }.InsertInv := by
  have htaken := hinv.taken htable
  have hfresh : ∀ k, ¬ (s.taken tableId table).Holds k tableId table.nextTupleId := by
    intro k hk
    replace hk := holds_of_taken htable hk
    cases k with
    | heap => exact absurd (hinv.held.below tableId table _ htable (.inl hk)) (Nat.lt_irrefl _)
    | op o => exact absurd (hinv.held.below tableId table _ htable (.inr ⟨o, hk⟩)) (Nat.lt_irrefl _)
    | txn x =>
      obtain ⟨p, hp, hst⟩ := hk
      obtain ⟨st, hst⟩ := ne_none_iff_exists'.mp hst
      exact hskip (mem_reservedTupleIds.mpr ⟨x, p, st, hp, hst⟩)
  refine ⟨htaken.data, ?_, htaken.inserts, ?_, htaken.nodup⟩
  · refine htaken.held.give_out (.of_tables rfl) (.op op) tableId table.nextTupleId hfresh ?_ ?_
    · intro h t id hh
      cases h with
      | heap => exact .inl hh
      | txn x => exact .inl hh
      | op o =>
        obtain ⟨i, hi, ht, hid⟩ := hh
        rw [ExtTreeMap.getElem?_insert] at hi
        split at hi
        case isTrue heq =>
          cases hi
          exact .inr ⟨by rw [Std.compare_eq_iff_eq.mp heq], ht.symm, hid.symm⟩
        case isFalse => exact .inl ⟨i, hi, ht, hid⟩
    · intro table' htable' _
      have : (s.taken tableId table).engine.state.tables[tableId]? =
          some table.allocateTupleId.2 := (tables_setTable ..).trans (if_pos rfl)
      cases this.symm.trans htable'
      exact Nat.lt_succ_self _
  · intro r hr
    cases htaken.placed r hr with
    | committed table' htable' hrow => exact .committed table' htable' hrow
    | pending x p hp hst => exact .pending x p hp hst

theorem InsertInv.publish (hinv : s.InsertInv) {i : InsertInFlight V} {placed : PlacedRow V}
    (hi : s.inserts[op]? = some i) (htable : s.engine.state.tables[i.op.tableId]? = some table)
    (hplaced : placed = { tableId := i.op.tableId, tupleId := i.op.tupleId, row := i.op.row })
    (htables : ∀ t' : RelationId, state.tables[t']? = if t' = i.op.tableId then
      some (table.commitInsert i.op.tupleId 0 i.op.row) else s.engine.state.tables[t']?)
    (hactive : state.activeTxns = s.engine.state.activeTxns) (published : List (PlacedRow V)) :
    { s with
      engine := { s.engine with state }
      inserts := s.inserts.erase op
      published
      reported := s.reported ++ [placed] }.InsertInv := by
  obtain ⟨v, hv, hrow, -, hsets⟩ := table.commitInsert_spec i.op.tupleId 0 i.op.row
  have hop : s.Holds (.op op) i.op.tableId i.op.tupleId := ⟨i, hi, rfl, rfl⟩
  have hfresh : ∀ k, (∀ o, k ≠ .op o) → ¬ s.Holds k i.op.tableId i.op.tupleId :=
    fun k hk hh => hk op (hinv.held.unique k (.op op) _ _ hh hop)
  refine ⟨fun x p hp => hinv.data x p (hactive ▸ hp), ?_, ?_, ?_, ?_⟩
  · refine hinv.held.pass_on (.of_setTable htable (table.nextTupleId_commitInsert ..).ge htables)
      (fun h => if h = .op op then .heap else h) ?_ (by simp) (by simp)
    intro h t id hh
    cases h with
    | heap =>
      rcases holds_heap_setTable htables hh with ⟨heq, hid⟩ | ⟨-, hh⟩
      · rcases (hsets.mem_heap id).mp hid with rfl | hid
        · exact ⟨.op op, heq ▸ hop, by simp⟩
        · exact ⟨.heap, ⟨table, heq ▸ htable, hid⟩, by simp⟩
      · exact ⟨.heap, hh, by simp⟩
    | txn x =>
      obtain ⟨p, hp, hst⟩ := hh
      exact ⟨.txn x, ⟨p, hactive ▸ hp, hst⟩, by simp⟩
    | op o =>
      obtain ⟨i', hi', ht, hid⟩ := hh
      rw [getElem?_erase] at hi'
      split at hi'
      · cases hi'
      case isFalse hne =>
        rw [Std.compare_eq_iff_eq] at hne
        exact ⟨.op o, ⟨i', hi', ht, hid⟩, by simp [Ne.symm hne]⟩
  · intro x p t id st hp hst
    obtain ⟨ht, hpresent⟩ := hinv.inserts x p t id st (hactive ▸ hp) hst
    exact ⟨mem_tables_setTable htables ht, hpresent⟩
  · intro r hr
    rcases mem_append.mp hr with hr | hr
    · cases hinv.placed r hr with
      | committed table' htable' hrow' =>
        by_cases ht : r.tableId = i.op.tableId
        · have hne : r.tupleId ≠ i.op.tupleId := by
            intro hid
            refine hfresh .heap nofun ⟨table', ht ▸ htable', ?_⟩
            exact mem_heap_of_loadLatestRow (hid ▸ hrow')
          refine .committed _ ((htables _).trans (if_pos ht)) ?_
          rw [ht, htable] at htable'
          cases htable'
          rw [hsets.loadLatestRow, if_neg hne, hrow']
        · exact .committed table' ((htables _).trans ((if_neg ht).trans htable')) hrow'
      | pending x p hp hst => exact .pending x p (hactive ▸ hp) hst
    · obtain rfl := mem_singleton.mp hr
      subst hplaced
      refine .committed _ ((htables _).trans (if_pos rfl)) ?_
      rw [hsets.loadLatestRow, if_pos rfl]
      simp [hrow]
  · refine nodup_reported hinv.nodup _ fun r' hr' => ?_
    subst hplaced
    exact PlacedRow.key_ne_of_not_holds (hinv.placed r' hr') hfresh

theorem InsertInv.commit (hinv : s.InsertInv) (hp : s.engine.state.activeTxns[txn]? = some p)
    (hcommits : CommitsRows txn p.pendingRow (s.engine.removePending txn).state state)
    (commits : ExtTreeMap TxnId (CommitInFlight V)) (published : List (PlacedRow V)) :
    { s with engine := { s.engine with state }, commits, published }.InsertInv := by
  have hactive : ∀ x : TxnId, state.activeTxns[x]? =
      if x = txn then none else s.engine.state.activeTxns[x]? := by
    intro x
    rw [hcommits.activeTxns, activeTxns_removePending]
  -- the rows it publishes are new to the heap
  have hnew : ∀ t table id, s.engine.state.tables[t]? = some table →
      p.pendingRow t id ≠ none → id ∉ table.heap := by
    intro t table id htable hst hmem
    have := hinv.held.unique .heap (.txn txn) t id ⟨table, htable, hmem⟩ ⟨p, hp, hst⟩
    cases this
  have htables : ∀ (t : RelationId) (table' : TableData (Row V)), state.tables[t]? = some table' →
      ∃ table, s.engine.state.tables[t]? = some table ∧
        Applied txn (p.pendingRow t) table table' := by
    intro t table' htable'
    have hrel := hcommits.tables t
    rw [htable'] at hrel
    generalize hold : (s.engine.removePending txn).state.tables[t]? = old at hrel
    cases hrel with
    | some happ => exact ⟨_, hold, happ⟩
  have htables' : ∀ (t : RelationId) (table : TableData (Row V)),
      s.engine.state.tables[t]? = some table →
      ∃ table', state.tables[t]? = some table' ∧ Applied txn (p.pendingRow t) table table' := by
    intro t table htable
    have hrel := hcommits.tables t
    rw [show (s.engine.removePending txn).state.tables[t]? = some table from htable] at hrel
    generalize hnew : state.tables[t]? = new at hrel
    cases hrel with
    | some happ => exact ⟨_, rfl, happ⟩
  refine ⟨hinv.data.removePending hcommits.activeTxns, ?_, ?_, ?_, hinv.nodup⟩
  · refine hinv.held.pass_on ?_ (fun h => if h = .txn txn then .heap else h) ?_ ?_ ?_
    · intro t table' htable'
      obtain ⟨table, htable, happ⟩ := htables t table' htable'
      exact ⟨table, htable, happ.next_le⟩
    · intro h t id hh
      cases h with
      | heap =>
        obtain ⟨table', htable', hid⟩ := hh
        obtain ⟨table, htable, happ⟩ := htables t table' htable'
        cases hst : p.pendingRow t id with
        | none =>
          refine ⟨.heap, ⟨table, htable, ?_⟩, by simp⟩
          rw [mem_iff_isSome_getElem?] at hid ⊢
          rwa [happ.kept id hst] at hid
        | some st => exact ⟨.txn txn, ⟨p, hp, by simp [hst]⟩, by simp⟩
      | txn x =>
        obtain ⟨p', hp', hst⟩ := hh
        rw [hactive] at hp'
        split at hp'
        · cases hp'
        case isFalse hne => exact ⟨.txn x, ⟨p', hp', hst⟩, by simp [hne]⟩
      | op o => exact ⟨.op o, hh, by simp⟩
    · intro t table' id x htable' hf hh
      obtain rfl : x = txn := by
        by_contra hne
        exact hf (by simp [hne])
      obtain ⟨table, htable, happ⟩ := htables t table' htable'
      obtain ⟨p', hp', hst⟩ := hh
      cases hp.symm.trans hp'
      obtain ⟨st, hst'⟩ := ne_none_iff_exists'.mp hst
      obtain ⟨-, row, rfl⟩ := hinv.inserts x p t id st hp hst'
      exact happ.skipped id row hst' (loadLatestRow_of_not_mem (hnew t table id htable hst))
    · intro x o
      split <;> simp
  · intro x p' t id st hp' hst
    rw [hactive] at hp'
    split at hp'
    · cases hp'
    obtain ⟨ht, hpresent⟩ := hinv.inserts x p' t id st hp' hst
    refine ⟨?_, hpresent⟩
    show t ∈ state.tables
    obtain ⟨table, htable⟩ := isSome_iff_exists.mp (mem_iff_isSome_getElem?.mp ht)
    obtain ⟨table', htable', -⟩ := htables' t table htable
    exact mem_iff_isSome_getElem?.mpr (by simp [htable'])
  · intro r hr
    cases hinv.placed r hr with
    | committed table htable hrow =>
      obtain ⟨table', htable', happ⟩ := htables' _ table htable
      refine .committed table' htable' ?_
      have hnone : p.pendingRow r.tableId r.tupleId = none := by
        by_contra hst
        exact hnew _ table _ htable hst (mem_heap_of_loadLatestRow hrow)
      rw [happ.loadLatestRow, hnone]
      exact hrow
    | pending x p' hp' hst =>
      by_cases hx : x = txn
      · subst hx
        cases hp.symm.trans hp'
        obtain ⟨ht, -⟩ := hinv.inserts x p _ _ _ hp hst
        obtain ⟨table, htable⟩ :=
          isSome_iff_exists.mp (mem_iff_isSome_getElem?.mp ht)
        obtain ⟨table', htable', happ⟩ := htables' _ table htable
        refine .committed table' htable' ?_
        rw [happ.loadLatestRow, hst]
        rfl
      · exact .pending x p' ((hactive x).trans ((if_neg hx).trans hp')) hst

theorem pendingRow_of_readOnly (hread : pendingIsReadOnly p = true) (t : RelationId)
    (id : TupleId) : p.pendingRow t id = none := by
  have hempty : p.tableWrites = ∅ := by
    simp only [pendingIsReadOnly, Bool.and_eq_true, ExtTreeMap.isEmpty_iff] at hread
    simp_all
  simp [PendingTransaction.pendingRow, hempty]

theorem InsertInv.finish (hinv : s.InsertInv) (hp : s.engine.state.activeTxns[txn]? = some p)
    (hnone : ∀ t id, p.pendingRow t id = none)
    (hstate : engine.state = (s.engine.removePending txn).state) :
    { s with engine }.InsertInv := by
  have hactive : ∀ x : TxnId, engine.state.activeTxns[x]? =
      if x = txn then none else s.engine.state.activeTxns[x]? := by
    intro x
    rw [hstate, activeTxns_removePending]
  refine hinv.of_same_rows (hinv.data.removePending (congrArg _ hstate)) (by rw [hstate]; rfl)
    (fun x t id st => ?_) (fun o i hi => ⟨i, hi, rfl⟩) rfl
  simp only [hactive]
  split
  case isTrue hx => simp [hx, hp, hnone]
  case isFalse => rfl

section
variable [Ord V] [DecidableEq V]

theorem InsertInv.step (hinv : s.InsertInv) {a : StoreAction V} (ha : isInsert a = true)
    (hskip : s.SkipsReserved a) (h : s.step a = some s') : s'.InsertInv := by
  cases step_effect hinv.data h with
  | unchanged hstate hwal =>
    exact hinv.unchanged (congrArg _ hstate) (congrArg _ hstate) (fun o i hi => ⟨i, hi, rfl⟩) rfl
  | begin hnew hstate => exact hinv.begin hnew hstate
  | insert hfree hp htable hid hq => exact hinv.insert hp htable hid hq hskip _
  | update hfree hp htable hold hq => cases ha
  | delete hfree hp htable hold hq => cases ha
  | rollback hfree hstate => cases ha
  | validate hfree hp hcheck => exact hinv.unchanged rfl rfl (fun o i hi => ⟨i, hi, rfl⟩) rfl
  | readOnly hfree hp hread hstate => exact hinv.finish hp (pendingRow_of_readOnly hread) hstate
  | prepared hfree hp hcheck | commitLog hcommit hlogged =>
    exact hinv.unchanged rfl rfl (fun o i hi => ⟨i, hi, rfl⟩) rfl
  | commitApply hcommit hlogged hp happly =>
    exact hinv.commit hp (applyPendingTransaction_spec (hinv.data _ _ hp) happly) _ _
  | taken htable => exact hinv.taken htable
  | allocate hfree htable hwidth hstate hcheck =>
    subst hstate
    exact hinv.allocate htable (hskip _ htable)
  | insertLog hinsert hlogged =>
    refine hinv.unchanged rfl rfl (fun o i hi => ?_) rfl
    rw [ExtTreeMap.getElem?_insert] at hi
    split at hi
    case isTrue heq =>
      obtain rfl := Option.some.inj hi
      rw [Std.compare_eq_iff_eq] at heq
      subst heq
      exact ⟨_, hinsert, rfl⟩
    case isFalse => exact ⟨i, hi, rfl⟩
  | insertApply hinsert hlogged htable hplaced hstate =>
    refine hinv.publish hinsert htable hplaced (fun t' => ?_) (by rw [hstate]; rfl) _
    rw [hstate, tables_setTable]
    rfl

/-- An engine with no transaction, whose counters are behind the tuples of its tables. -/
structure Idle (e : InMemoryStorage V) : Prop where
  activeTxns : e.state.activeTxns = ∅
  below : ∀ (t : RelationId) (table : TableData (Row V)) (id : TupleId),
    e.state.tables[t]? = some table → id ∈ table.heap → id < table.nextTupleId

omit [Ord V] [DecidableEq V] in
theorem Idle.insertInv {e : InMemoryStorage V} (he : Idle e) :
    InsertInv { engine := e : StoreSystem V } := by
  have hactive : ∀ (x : TxnId) (p : Pending V), e.state.activeTxns[x]? ≠ some p := by
    simp [he.activeTxns]
  refine ⟨fun x p hp => absurd hp (hactive x p), ⟨?_, ?_⟩,
    fun x p t id st hp => absurd hp (hactive x p), by simp, by simp⟩
  · intro h h' t id hh hh'
    have hheap : ∀ k : Holder, Holds { engine := e : StoreSystem V } k t id → k = .heap := by
      intro k hk
      cases k with
      | heap => rfl
      | txn x => obtain ⟨p, hp, -⟩ := hk; exact absurd hp (hactive x p)
      | op o => obtain ⟨i, hi, -⟩ := hk; simp at hi
    rw [hheap h hh, hheap h' hh']
  · rintro t table id htable (⟨table', htable', hid⟩ | ⟨o, i, hi, -⟩)
    · cases htable.symm.trans htable'
      exact he.below t table id htable hid
    · simp at hi

end

/-! ## Two small runs -/

instance SkipsReserved.decidable (s : StoreSystem V) (a : StoreAction V) :
    Decidable (s.SkipsReserved a) := by
  cases a <;> unfold SkipsReserved <;> infer_instance

def emptyTable : TableData (Row Nat) where
  descriptor := { tableId := 7, columns := [{ columnId := 1 }] }

def oneTable : StoreSystem Nat where
  engine := { state := { tables := ExtTreeMap.insert ∅ 7 emptyTable } }

theorem oneTable_idle : Idle oneTable.engine where
  activeTxns := rfl
  below t table id htable hid := by
    simp only [oneTable, ExtTreeMap.getElem?_insert] at htable
    split at htable
    · cases htable
      simp [emptyTable] at hid
    · simp at htable

/-- A transaction reserves an id while an autocommit insert is in flight. -/
def reserveBehind : List (StoreAction Nat) :=
  [.insertAllocate 0 7 [some 20], .begin 1, .insert 1 7 [some 10], .insertLog 0, .insertApply 0,
    .commitPrepare 1, .commitLog 1, .commitApply 1]

/-- An autocommit insert comes in while a transaction has an id reserved. -/
def takeReserved : List (StoreAction Nat) :=
  [.begin 1, .insert 1 7 [some 10], .insertAllocate 0 7 [some 20], .insertLog 0, .insertApply 0,
    .commitPrepare 1, .commitLog 1, .commitApply 1]

end StoreSystem

end AionDb
