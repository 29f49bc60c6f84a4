import AionDb.StoreReplay
import AionDb.StoreSystem

/-!
# Checkpoints among autocommit inserts

A checkpoint takes the state lock, logs a checkpoint record, forces the log and
copies the committed state; the copy is saved as a base snapshot after the lock
is released, and then the log in front of the checkpoint record may be cut. An
autocommit insert is logged and applied without holding the lock in between.
So a record can be in front of the checkpoint record while its row is not yet
in the state that is copied.

One checkpoint runs at a time. Records reach the disk in the order of the log,
at any time after they were appended.
-/

namespace AionDb

open Std Effect Run ExtTreeMap List Option StorageState

variable {V : Type}

/-- Under the state lock. The snapshot is of the state at this moment, whenever it is saved. -/
def InMemoryStorage.checkpoint (e : InMemoryStorage V) :
    DbResult (BaseSnapshot V) × InMemoryStorage V :=
  if e.state.activeTxns.isEmpty then
    let lsn := e.wal.nextLsn
    (.ok (e.state.serializeSnapshot lsn), { e with wal := (e.wal.log (.checkpoint lsn)).sync })
  else (.error (.internalMsg "cannot checkpoint while transactions are active"), e)

structure CheckpointInFlight (V : Type) where
  snapshot : BaseSnapshot V
  saved : Bool := false

structure DiskSystem (V : Type) where
  store : StoreSystem V
  checkpoint : Option (CheckpointInFlight V) := none
  snapshot : Option (BaseSnapshot V) := none
  removed : Nat := 0

inductive DiskAction (V : Type) where
  | insertAllocate (op : Nat) (tableId : RelationId) (row : Row V)
  | insertLog (op : Nat)
  | insertApply (op : Nat)
  | sync (upTo : Nat)
  | capture
  | save
  | cleanup (upTo : Nat)

def StorageState.nextTupleIdOf (s : StorageState V) (tableId : RelationId) : Nat :=
  s.tables[tableId]?.elim 0 (·.nextTupleId)

def StorageState.IdsGiven (s : StorageState V) : Prop :=
  ∀ tableId tupleId row, s.rowAt tableId tupleId = some row → tupleId < s.nextTupleIdOf tableId

namespace DiskSystem

def wal (s : DiskSystem V) : Wal V := s.store.engine.wal

def state (s : DiskSystem V) : StorageState V := s.store.engine.state

def recovered [Ord V] (s : DiskSystem V) : DbResult (Replay V) :=
  recover s.snapshot (s.wal.durable.filter (s.removed < ·.1))

variable [Ord V] [DecidableEq V] (s : DiskSystem V)

def setEngine (engine : InMemoryStorage V) : DiskSystem V :=
  { s with store := { s.store with engine } }

def step : DiskAction V → Option (DiskSystem V)
  | .insertAllocate op tableId row =>
    (s.store.step (.insertAllocate op tableId row)).map ({ s with store := · })
  | .insertLog op => (s.store.step (.insertLog op)).map ({ s with store := · })
  | .insertApply op => (s.store.step (.insertApply op)).map ({ s with store := · })
  | .sync upTo =>
    if s.wal.synced ≤ upTo ∧ upTo ≤ s.wal.records.length then
      some (s.setEngine { s.store.engine with wal := { s.wal with synced := upTo } })
    else none
  | .capture =>
    if s.store.engine.fatal ∨ s.checkpoint.isSome then none
    else match s.store.engine.checkpoint with
    | (.ok snapshot, engine) => some { s.setEngine engine with checkpoint := some { snapshot } }
    | (.error _, engine) => some (s.setEngine engine)
  | .save => do
    let c ← s.checkpoint
    if c.saved then none
    else some { s with snapshot := some c.snapshot, checkpoint := some { c with saved := true } }
  | .cleanup upTo => do
    let c ← s.checkpoint
    if c.saved ∧ upTo < c.snapshot.checkpointLsn then
      some { s with removed := max s.removed upTo, checkpoint := none }
    else none

/-- No insert is between its log record and its row when a checkpoint copies the state, and no
two rows of the state are duplicates. -/
def Settled : DiskAction V → Prop
  | .capture => (∀ p ∈ s.store.inserts.toList, p.2.logged = false) ∧ s.state.UniqueKeys
  | _ => True

instance (a : DiskAction V) : Decidable (s.Settled a) := by
  cases a <;> unfold Settled <;> infer_instance

/-- Nothing is in flight, everything logged is on disk, and recovery would give back the tables
and the rows of the engine. -/
structure AtRest (s : DiskSystem V) : Prop where
  inserts : s.store.inserts = ∅
  checkpoint : s.checkpoint = none
  data : s.store.Data
  synced : s.wal.synced = s.wal.records.length
  covered : coveredLsn s.snapshot ≤ s.wal.records.length
  kept : s.removed < replayStartLsn s.snapshot
  sound : s.state.Sound
  ids : ∀ tableId tupleId row, s.state.rowAt tableId tupleId = some row →
    tupleId < s.state.nextTupleIdOf tableId
  recovers : ∃ r, s.recovered = .ok r ∧ r.state.Sound ∧ s.state.SameRows r.state

end DiskSystem

/-! ## The rows of the log -/

def WalRecord.inserted? : WalRecord V → Option (PlacedRow V)
  | .autocommitInsertRow _ tableId tupleId row => some { tableId, tupleId, row }
  | _ => none

def PlacedRow.Fits (p : PlacedRow V) (s : StorageState V) : Prop :=
  ∃ d, s.tableDef p.tableId = some d ∧ p.row.length = d.columns.length

/-- The records that inserts and checkpoints write. -/
inductive WalRecord.Known (s : StorageState V) : WalRecord V → Prop where
  | checkpoint (lsn : Nat) : Known s (.checkpoint lsn)
  | insert {p : PlacedRow V} (txn : TxnId) (hfits : p.Fits s) :
      Known s (.autocommitInsertRow txn p.tableId p.tupleId p.row)

variable {p : PlacedRow V} {s s' : StorageState V}

theorem PlacedRow.Fits.congr (h : p.Fits s)
    (hdefs : ∀ t, s'.tableDef t = s.tableDef t) : p.Fits s' := by
  obtain ⟨d, hd, hrow⟩ := h
  exact ⟨d, (hdefs _).trans hd, hrow⟩

theorem WalRecord.Known.congr {record : WalRecord V} (h : record.Known s)
    (hdefs : ∀ t, s'.tableDef t = s.tableDef t) : record.Known s' := by
  cases h with
  | checkpoint lsn => exact .checkpoint lsn
  | insert txn hfits => exact .insert txn (hfits.congr hdefs)

def StorageState.Has (s : StorageState V) (p : PlacedRow V) : Prop :=
  s.rowAt p.tableId p.tupleId = some p.row

theorem StorageState.SetsRow.has (h : SetsRow s p.tableId p.tupleId p.row s') : s'.Has p := by
  simp [Has, h.rowAt]

theorem StorageState.SetsRow.rowAt_of_ne
    (h : SetsRow s p.tableId p.tupleId p.row s') {tableId : RelationId} {tupleId : TupleId}
    (hne : (tableId, tupleId) ≠ p.key) : s'.rowAt tableId tupleId = s.rowAt tableId tupleId := by
  rw [h.rowAt, if_neg]
  rintro ⟨rfl, rfl⟩
  exact hne rfl

theorem replay_records [Ord V] (l : List (WalRecord V)) (start : Nat) {r : Replay V}
    (hr : r.state.Sound) (hl : ∀ record ∈ l, record.Known r.state)
    (hnodup : ((l.filterMap (·.inserted?)).map (·.key)).Nodup) :
    ∃ r', (numbered start l).foldlM Replay.entry r = .ok r' ∧
      (∀ p ∈ l.filterMap (·.inserted?), r'.state.Has p) ∧
      ∀ tableId tupleId, (tableId, tupleId) ∉ (l.filterMap (·.inserted?)).map (·.key) →
        r'.state.rowAt tableId tupleId = r.state.rowAt tableId tupleId := by
  induction l generalizing start r with
  | nil => exact ⟨r, rfl, by simp, fun _ _ _ => rfl⟩
  | cons record l ih =>
    cases hl record (mem_cons_self ..) with
    | checkpoint lsn =>
      obtain ⟨r', hr', hresult⟩ := ih (start + 1) hr
        (fun q hq => hl q (mem_cons_of_mem _ hq)) hnodup
      exact ⟨r', foldlM_cons_eq_ok.mpr ⟨r, rfl, hr'⟩, hresult⟩
    | @insert p txn hfits =>
      obtain ⟨d, hdef, hrow⟩ := hfits
      obtain ⟨s', hs', hset, hsound⟩ :=
        replayInsert_spec hr hdef hrow 0 p.tupleId
      obtain ⟨hnot, hrest⟩ := nodup_cons.mp hnodup
      obtain ⟨r', hr', hhas, hother⟩ := ih (start + 1) (r := { r with state := s' }) hsound
        (fun q hq => (hl q (mem_cons_of_mem _ hq)).congr hset.tableDef) hrest
      refine ⟨r', foldlM_cons_eq_ok.mpr ⟨{ r with state := s' }, ?_, hr'⟩, ?_, ?_⟩
      · exact bind_eq_ok.mpr ⟨s', hs', rfl⟩
      · intro q hq
        rcases mem_cons.mp hq with rfl | hq
        · exact (hother _ _ hnot).trans hset.has
        · exact hhas q hq
      · intro tableId tupleId hkey
        obtain ⟨hne, hkey⟩ := not_or.mp (mt mem_cons.mpr hkey)
        exact (hother _ _ hkey).trans (hset.rowAt_of_ne hne)

/-! ## The log and the inserts in flight -/

def AutocommitInsert.placed (op : AutocommitInsert V) : PlacedRow V :=
  { tableId := op.tableId, tupleId := op.tupleId, row := op.row }

def StoreAction.IsAutocommit : StoreAction V → Prop
  | .insertAllocate .. | .insertLog _ | .insertApply _ => True
  | _ => False

namespace StoreSystem

def newRecords (s₀ s : StoreSystem V) : List (WalRecord V) :=
  s.engine.wal.records.drop s₀.engine.wal.records.length

def inserted (s₀ s : StoreSystem V) : List (PlacedRow V) :=
  (newRecords s₀ s).filterMap (·.inserted?)

def Given (s₀ s : StoreSystem V) (p : PlacedRow V) : Prop :=
  s₀.engine.state.nextTupleIdOf p.tableId ≤ p.tupleId ∧
    p.tupleId < s.engine.state.nextTupleIdOf p.tableId

/-- An insert in flight: its row fits, its id was given to nobody else, and its record is in the
log when it says so. -/
structure Underway (s₀ s : StoreSystem V) (i : InsertInFlight V) : Prop where
  given : Given s₀ s i.op.placed
  fits : i.op.placed.Fits s₀.engine.state
  logged : i.logged = true → i.op.placed ∈ inserted s₀ s
  unlogged : i.logged = false → i.op.placed.key ∉ (inserted s₀ s).map (·.key)

/-- Autocommit inserts since `s₀`: every row in the log is in the state, or its insert is in
flight. -/
structure InsertLog (s₀ s : StoreSystem V) : Prop where
  data : s.Data
  log : s₀.engine.wal.records <+: s.engine.wal.records
  defs : ∀ t, s.engine.state.tableDef t = s₀.engine.state.tableDef t
  sound : s.engine.state.Sound
  known : ∀ r ∈ newRecords s₀ s, r.Known s₀.engine.state
  nodup : ((inserted s₀ s).map (·.key)).Nodup
  next_le : ∀ t, s₀.engine.state.nextTupleIdOf t ≤ s.engine.state.nextTupleIdOf t
  given : ∀ p ∈ inserted s₀ s, Given s₀ s p
  inserts : ∀ (o : Nat) (i : InsertInFlight V), s.inserts[o]? = some i → Underway s₀ s i
  apart : ∀ (o o' : Nat) (i i' : InsertInFlight V), s.inserts[o]? = some i →
    s.inserts[o']? = some i' → i.op.placed.key = i'.op.placed.key → o = o'
  live : ∀ p ∈ inserted s₀ s, s.engine.state.Has p ∨
    ∃ (o : Nat) (i : InsertInFlight V), s.inserts[o]? = some i ∧ i.logged = true ∧ i.op.placed = p
  kept : ∀ t id row, s₀.engine.state.rowAt t id = some row → s.engine.state.rowAt t id = some row

variable {s₀ s s' : StoreSystem V}

variable (s₀) in
theorem inserted_congr (h : s'.engine.wal.records = s.engine.wal.records) :
    inserted s₀ s' = inserted s₀ s := by
  simp only [inserted, newRecords, h]

theorem newRecords_log (hlog : s₀.engine.wal.records <+: s.engine.wal.records)
    {record : WalRecord V} (h : s'.engine.wal.records = s.engine.wal.records ++ [record]) :
    newRecords s₀ s' = newRecords s₀ s ++ [record] := by
  simp only [newRecords, h]
  rw [drop_append_of_le_length hlog.length_le]

theorem Given.mono (h : Given s₀ s p)
    (hnext : ∀ t, s.engine.state.nextTupleIdOf t ≤ s'.engine.state.nextTupleIdOf t) :
    Given s₀ s' p :=
  ⟨h.1, Nat.lt_of_lt_of_le h.2 (hnext _)⟩

theorem Underway.mono {i : InsertInFlight V} (h : Underway s₀ s i)
    (hins : inserted s₀ s' = inserted s₀ s)
    (hnext : ∀ t, s.engine.state.nextTupleIdOf t ≤ s'.engine.state.nextTupleIdOf t) :
    Underway s₀ s' i :=
  ⟨h.given.mono hnext, h.fits, hins ▸ h.logged, hins ▸ h.unlogged⟩

theorem Given.rowAt_eq_none (h : Given s₀ s p)
    (hids : s₀.engine.state.IdsGiven) : s₀.engine.state.rowAt p.tableId p.tupleId = none := by
  by_contra hrow
  obtain ⟨row, hrow⟩ := ne_none_iff_exists'.mp hrow
  exact absurd (hids _ _ _ hrow) (Nat.not_lt.mpr h.1)

namespace InsertLog

theorem frame (h : InsertLog s₀ s) (hdata : s'.Data)
    (hlog : s₀.engine.wal.records <+: s'.engine.wal.records)
    (hknown : ∀ r ∈ newRecords s₀ s', r.Known s₀.engine.state)
    (hins : inserted s₀ s' = inserted s₀ s)
    (hsame : s.engine.state.SameRows s'.engine.state) (hsound : s'.engine.state.Sound)
    (hnext : ∀ t, s.engine.state.nextTupleIdOf t ≤ s'.engine.state.nextTupleIdOf t)
    (hinserts : s'.inserts = s.inserts) : InsertLog s₀ s' where
  data := hdata
  log := hlog
  defs t := (hsame.tableDef t).trans (h.defs t)
  sound := hsound
  known := hknown
  nodup := hins ▸ h.nodup
  next_le t := Nat.le_trans (h.next_le t) (hnext t)
  given p hp := (h.given p (hins ▸ hp)).mono hnext
  inserts o i hi := (h.inserts o i (hinserts ▸ hi)).mono hins hnext
  apart := hinserts ▸ h.apart
  live p hp := by
    rw [hinserts]
    refine (h.live p (hins ▸ hp)).imp_left fun hhas => ?_
    exact (hsame.rowAt _ _).trans hhas
  kept t id row hrow := (hsame.rowAt t id).trans (h.kept t id row hrow)

theorem log_append (h : InsertLog s₀ s) {record : WalRecord V}
    (hrecords : s'.engine.wal.records = s.engine.wal.records ++ [record])
    (hrecord : record.Known s₀.engine.state) :
    s₀.engine.wal.records <+: s'.engine.wal.records ∧
      ∀ r ∈ newRecords s₀ s', r.Known s₀.engine.state := by
  refine ⟨hrecords ▸ h.log.trans (prefix_append ..), fun r hr => ?_⟩
  rw [newRecords_log h.log hrecords, mem_append, mem_singleton] at hr
  rcases hr with hr | rfl
  · exact h.known r hr
  · exact hrecord

theorem log_checkpoint (h : InsertLog s₀ s) {lsn : Nat}
    (hrecords : s'.engine.wal.records = s.engine.wal.records ++ [.checkpoint lsn])
    (hstate : s'.engine.state = s.engine.state) (hinserts : s'.inserts = s.inserts) :
    InsertLog s₀ s' := by
  obtain ⟨hlog, hknown⟩ := h.log_append hrecords (.checkpoint lsn)
  refine h.frame (fun txn p hp => h.data txn p (hstate ▸ hp)) hlog hknown ?_
    (hstate ▸ ⟨fun _ => rfl, fun _ _ => rfl⟩) (hstate ▸ h.sound) (fun t => by rw [hstate]) hinserts
  simp [inserted, newRecords_log h.log hrecords, WalRecord.inserted?]

variable {table : TableData (Row V)} {state state' : StorageState V} {i : InsertInFlight V}
  {op : Nat} {tableId : RelationId}

theorem add (h : InsertLog s₀ s) (hfree : op ∉ s.inserts) (hi : Underway s₀ s i)
    (happart : ∀ (o : Nat) (i' : InsertInFlight V), s.inserts[o]? = some i' →
      i'.op.placed.key ≠ i.op.placed.key) :
    InsertLog s₀ { s with inserts := s.inserts.insert op i } := by
  have hnone : s.inserts[op]? = none := getElem?_eq_none hfree
  have hlookup : ∀ o : Nat, (s.inserts.insert op i)[o]? =
      if o = op then some i else s.inserts[o]? := by
    intro o
    simp [ExtTreeMap.getElem?_insert, @eq_comm _ op]
  refine ⟨h.data, h.log, h.defs, h.sound, h.known, h.nodup, h.next_le, h.given, ?_, ?_, ?_, h.kept⟩
  · intro o i' hi'
    rw [hlookup] at hi'
    split at hi'
    · cases hi'
      exact hi.mono rfl fun _ => le_rfl
    · exact (h.inserts o i' hi').mono rfl fun _ => le_rfl
  · intro o o' i₁ i₂ h₁ h₂ hkey
    rw [hlookup] at h₁ h₂
    split at h₁ <;> split at h₂
    · simp_all
    · cases h₁
      exact absurd hkey.symm (happart o' i₂ h₂)
    · cases h₂
      exact absurd hkey (happart o i₁ h₁)
    · exact h.apart o o' i₁ i₂ h₁ h₂ hkey
  · intro p hp
    refine (h.live p hp).imp_right ?_
    rintro ⟨o, i', hi', hl, hplaced⟩
    refine ⟨o, i', ?_, hl, hplaced⟩
    rw [hlookup, if_neg]
    · exact hi'
    · rintro rfl
      rw [hnone] at hi'
      cases hi'

theorem log_insert (h : InsertLog s₀ s) {txn : TxnId} (hi : s.inserts[op]? = some i)
    (hlogged : i.logged = false)
    (hrecords : s'.engine.wal.records = s.engine.wal.records ++
      [.autocommitInsertRow txn i.op.tableId i.op.tupleId i.op.row])
    (hstate : s'.engine.state = s.engine.state)
    (hinserts : s'.inserts = s.inserts.insert op { i with logged := true }) :
    InsertLog s₀ s' := by
  have hui := h.inserts op i hi
  have hnew := newRecords_log h.log hrecords
  have hins : inserted s₀ s' = inserted s₀ s ++ [i.op.placed] := by
    simp [inserted, hnew, WalRecord.inserted?, AutocommitInsert.placed]
  have hlookup : ∀ o : Nat, s'.inserts[o]? =
      if o = op then some { i with logged := true } else s.inserts[o]? := by
    intro o
    simp [hinserts, ExtTreeMap.getElem?_insert, @eq_comm _ op]
  -- an entry of the new map is the one of the old map, with the flag set at `op`
  have hback : ∀ (o : Nat) (i' : InsertInFlight V), s'.inserts[o]? = some i' →
      ∃ i₀, s.inserts[o]? = some i₀ ∧ i'.op = i₀.op ∧
        (o = op ∧ i'.logged = true ∨ o ≠ op ∧ i' = i₀) := by
    intro o i' hi'
    rw [hlookup] at hi'
    split at hi'
    case isTrue heq =>
      cases hi'
      exact ⟨i, heq ▸ hi, rfl, .inl ⟨heq, rfl⟩⟩
    case isFalse hne => exact ⟨i', hi', rfl, .inr ⟨hne, rfl⟩⟩
  obtain ⟨hlog, hknown⟩ := h.log_append hrecords (.insert (p := i.op.placed) txn hui.fits)
  refine ⟨fun txn p hp => h.data txn p (hstate ▸ hp), hlog, hstate ▸ h.defs, hstate ▸ h.sound,
    hknown, ?_, hstate ▸ h.next_le, ?_, ?_, ?_, ?_, hstate ▸ h.kept⟩
  · rw [hins, map_append, nodup_append]
    refine ⟨h.nodup, by simp, fun a ha b hb heq => ?_⟩
    rw [map_singleton, mem_singleton] at hb
    exact hui.unlogged hlogged (hb ▸ heq ▸ ha)
  · intro p hp
    rw [hins, mem_append, mem_singleton] at hp
    have hgiven : Given s₀ s p := by
      rcases hp with hp | rfl
      · exact h.given p hp
      · exact hui.given
    exact hgiven.mono fun t => by rw [hstate]
  · intro o i' hi'
    obtain ⟨i₀, hi₀, hop, hcase⟩ := hback o i' hi'
    have hu := h.inserts o i₀ hi₀
    refine ⟨hop ▸ hu.given.mono fun t => by rw [hstate], hop ▸ hu.fits, fun hl => ?_, fun hl => ?_⟩
    · rw [hins, mem_append, mem_singleton, hop]
      rcases hcase with ⟨rfl, -⟩ | ⟨-, rfl⟩
      · cases hi.symm.trans hi₀
        exact .inr rfl
      · exact .inl (hu.logged hl)
    · rcases hcase with ⟨-, htrue⟩ | ⟨hne, rfl⟩
      · rw [htrue] at hl
        cases hl
      · rw [hins, map_append, mem_append]
        rintro (hmem | hmem)
        · exact hu.unlogged hl hmem
        · rw [map_singleton, mem_singleton] at hmem
          exact hne (h.apart o op _ i hi₀ hi hmem)
  · intro o o' i₁ i₂ h₁ h₂ hkey
    obtain ⟨j₁, hj₁, hop₁, -⟩ := hback o i₁ h₁
    obtain ⟨j₂, hj₂, hop₂, -⟩ := hback o' i₂ h₂
    exact h.apart o o' j₁ j₂ hj₁ hj₂ (hop₁ ▸ hop₂ ▸ hkey)
  · intro p hp
    rw [hins, mem_append, mem_singleton] at hp
    rw [hstate]
    rcases hp with hp | rfl
    · refine (h.live p hp).imp_right ?_
      rintro ⟨o, i', hi', hl, hplaced⟩
      refine ⟨o, i', ?_, hl, hplaced⟩
      rw [hlookup, if_neg]
      · exact hi'
      · rintro rfl
        cases hi.symm.trans hi'
        rw [hlogged] at hl
        cases hl
    · exact .inr ⟨op, { i with logged := true }, by rw [hlookup, if_pos rfl], rfl, rfl⟩

theorem apply_insert (h : InsertLog s₀ s) (hids : s₀.engine.state.IdsGiven)
    (hi : s.inserts[op]? = some i) (hlogged : i.logged = true) (hdata : s'.Data)
    (hrecords : s'.engine.wal.records = s.engine.wal.records)
    (hset : s.engine.state.SetsRow i.op.tableId i.op.tupleId i.op.row s'.engine.state)
    (hsound : s'.engine.state.Sound)
    (hnext : ∀ t, s'.engine.state.nextTupleIdOf t = s.engine.state.nextTupleIdOf t)
    (hinserts : s'.inserts = s.inserts.erase op) : InsertLog s₀ s' := by
  have hui := h.inserts op i hi
  have hset' : s.engine.state.SetsRow i.op.placed.tableId i.op.placed.tupleId i.op.placed.row
    s'.engine.state := hset
  have hins := inserted_congr s₀ hrecords
  have hlookup : ∀ o : Nat, s'.inserts[o]? = if o = op then none else s.inserts[o]? := by
    intro o
    simp [hinserts, getElem?_erase, @eq_comm _ op]
  have hback : ∀ (o : Nat) (i' : InsertInFlight V), s'.inserts[o]? = some i' →
      s.inserts[o]? = some i' := by
    intro o i' hi'
    rw [hlookup] at hi'
    split at hi'
    · cases hi'
    · exact hi'
  refine ⟨hdata, hrecords ▸ h.log, fun t => (hset.tableDef t).trans (h.defs t), hsound, ?_,
    hins ▸ h.nodup, fun t => (h.next_le t).trans (hnext t).ge, ?_, ?_, ?_, ?_, ?_⟩
  · have : newRecords s₀ s' = newRecords s₀ s := by simp only [newRecords, hrecords]
    exact this ▸ h.known
  · exact fun p hp => (h.given p (hins ▸ hp)).mono fun t => (hnext t).ge
  · exact fun o i' hi' => (h.inserts o i' (hback o i' hi')).mono hins fun t => (hnext t).ge
  · exact fun o o' i₁ i₂ h₁ h₂ => h.apart o o' i₁ i₂ (hback o i₁ h₁) (hback o' i₂ h₂)
  · intro p hp
    rw [hins] at hp
    by_cases hkey : p.key = i.op.placed.key
    · -- the record of this row is the one of this insert
      have hp' : p = i.op.placed :=
        inj_on_of_nodup_map h.nodup hp (hui.logged hlogged) hkey
      exact .inl (hp' ▸ hset'.has)
    · refine (h.live p hp).imp (fun hhas => ?_) ?_
      · exact (hset'.rowAt_of_ne hkey).trans hhas
      rintro ⟨o, i', hi', hl, rfl⟩
      refine ⟨o, i', ?_, hl, rfl⟩
      rw [hlookup, if_neg]
      · exact hi'
      · rintro rfl
        cases hi.symm.trans hi'
        exact hkey rfl
  · intro t id row hrow
    refine (hset'.rowAt_of_ne fun hkey => ?_).trans (h.kept t id row hrow)
    have hnone := hui.given.rowAt_eq_none hids
    cases hkey
    rw [hrow] at hnone
    cases hnone

theorem nextTupleIdOf_allocate (state : StorageState V) (tableId : RelationId)
    (table : TableData (Row V)) (t : RelationId) :
    (state.setTable tableId table.allocateTupleId.2).nextTupleIdOf t =
      if t = tableId then table.nextTupleId + 1 else state.nextTupleIdOf t := by
  simp only [StorageState.nextTupleIdOf, tables_setTable]
  split
  · simp [TableData.allocateTupleId]
  · rfl

theorem take (h : InsertLog s₀ s) (htable : s.engine.state.tables[tableId]? = some table) :
    InsertLog s₀ { s with engine := { s.engine with
      state := s.engine.state.setTable tableId table.allocateTupleId.2 } } := by
  have hsame : s.engine.state.SameRows (s.engine.state.setTable tableId table.allocateTupleId.2) :=
    sameRows_setTable htable rfl rfl
  refine h.frame h.data h.log h.known rfl hsame (h.sound.sameRows hsame rfl) (fun t => ?_) rfl
  refine Nat.le_trans ?_ (nextTupleIdOf_allocate _ tableId table t).ge
  split
  case isTrue heq =>
    subst heq
    simp [StorageState.nextTupleIdOf, htable]
  case isFalse => exact Nat.le_refl _

theorem allocate (h : InsertLog s₀ s) {row : Row V} {prepared : List (PreparedBaseIndexInsert V)} {mark : Nat}
    (hfree : op ∉ s.inserts) (htable : s.engine.state.tables[tableId]? = some table)
    (hwidth : validateRowWidth table.descriptor row = .ok ()) :
    InsertLog s₀ { s with
      engine := { s.engine with
        state := s.engine.state.setTable tableId table.allocateTupleId.2 }
      inserts := s.inserts.insert op
        { op := { tableId, tupleId := table.nextTupleId, row, prepared }, mark } } := by
  have hnext : s.engine.state.nextTupleIdOf tableId = table.nextTupleId := by
    simp [StorageState.nextTupleIdOf, htable]
  -- the id is behind every id of the table that was given out
  have hnew : ∀ p : PlacedRow V, Given s₀ s p → p.key ≠ (tableId, table.nextTupleId) := by
    rintro p ⟨-, hlt⟩ hkey
    obtain ⟨htableId, hid⟩ := Prod.mk.inj hkey
    rw [htableId, hid, hnext] at hlt
    exact Nat.lt_irrefl _ hlt
  refine (h.take htable).add hfree ⟨⟨?_, ?_⟩, ?_, by simp, fun _ hmem => ?_⟩ ?_
  · exact Nat.le_trans (h.next_le tableId) hnext.le
  · refine Nat.lt_of_lt_of_le (Nat.lt_succ_self table.nextTupleId) ?_
    exact ((nextTupleIdOf_allocate _ tableId table tableId).trans (if_pos rfl)).ge
  · refine ⟨table.descriptor, ?_, ?_⟩
    · exact (h.defs tableId).symm.trans (tableDef_of_table htable)
    · unfold validateRowWidth at hwidth
      split at hwidth
      case isTrue heq => exact heq
      case isFalse => cases hwidth
  · obtain ⟨p, hp, hkey⟩ := mem_map.mp hmem
    exact hnew p (h.given p hp) hkey
  · exact fun o i hi hkey => hnew i.op.placed (h.inserts o i hi).given hkey

variable [Ord V]

theorem insertApply_setsRow (hsound : state.Sound) {op : AutocommitInsert V}
    (hfits : op.placed.Fits state) (htable : state.tables[op.tableId]? = some table)
    (hstate : state' = (state.appendPreparedBaseIndexEntries op.prepared op.tupleId).setTable
      op.tableId (table.commitInsert op.tupleId 0 op.row)) :
    state.SetsRow op.tableId op.tupleId op.row state' ∧ state'.Sound ∧
      ∀ t, state'.nextTupleIdOf t = state.nextTupleIdOf t := by
  obtain ⟨v, hv, hrow, -, hsets⟩ := table.commitInsert_spec op.tupleId 0 op.row
  have hset : state.SetsRow op.tableId op.tupleId op.row state' := by
    refine setsRow_setTable htable hsets.descriptor (fun id => ?_) (by rw [hstate]; rfl)
    rw [hsets.loadLatestRow]
    simp [hrow]
  obtain ⟨d, hd, hwidth⟩ := hfits
  refine ⟨hset, hsound.setsRow hset hd hwidth ?_, fun t => ?_⟩
  · rw [hstate]
    exact appendPrepared_sameIndexDefs state op.prepared op.tupleId
  · rw [hstate, StorageState.nextTupleIdOf, tables_setTable]
    split
    case isTrue heq => simp [StorageState.nextTupleIdOf, heq, htable]
    case isFalse => rfl

theorem step_insert [DecidableEq V] (h : InsertLog s₀ s) (hids : s₀.engine.state.IdsGiven)
    {a : StoreAction V} (ha : a.IsAutocommit) (hstep : s.step a = some s') : InsertLog s₀ s' := by
  have hdata := h.data.step hstep
  cases step_effect h.data hstep with
  | unchanged hstate hwal =>
    refine h.frame hdata (hwal ▸ h.log) ?_ (inserted_congr s₀ (by rw [hwal])) ?_ ?_ ?_ rfl
    · simpa only [newRecords, hwal] using h.known
    · exact hstate ▸ ⟨fun _ => rfl, fun _ _ => rfl⟩
    · exact hstate ▸ h.sound
    · exact fun t => (congrArg (·.nextTupleIdOf t) hstate).ge
  | taken htable => exact h.take htable
  | allocate hfree htable hwidth hstate hcheck =>
    subst hstate
    exact h.allocate hfree htable hwidth
  | insertLog hinsert hlogged => exact h.log_insert hinsert hlogged rfl rfl rfl
  | insertApply hinsert hlogged htable hplaced hstate =>
    have hfits := (h.inserts _ _ hinsert).fits.congr h.defs
    obtain ⟨hset, hsound, hnext⟩ := insertApply_setsRow h.sound hfits htable hstate
    exact h.apply_insert hids hinsert hlogged hdata rfl hset hsound hnext rfl
  | _ => exact ha.elim

end InsertLog

end StoreSystem

namespace DiskSystem

/-! ## The snapshots -/

/-- The rows that the first `n` records insert, without those of the start. -/
def rowsUpTo (s₀ : DiskSystem V) (w : Wal V) (n : Nat) : List (PlacedRow V) :=
  ((w.records.take n).drop s₀.wal.records.length).filterMap (·.inserted?)

/-- A snapshot taken since the start: it has the rows of the start and of all records up to its
checkpoint record. -/
structure Covers [Ord V] (s₀ : DiskSystem V) (w : Wal V) (c : BaseSnapshot V) : Prop where
  after : s₀.wal.records.length < c.checkpointLsn
  synced : c.checkpointLsn ≤ w.synced
  source : ∃ state : StorageState V, c.entries = (state.serializeSnapshot c.checkpointLsn).entries ∧
    state.Sound ∧ state.UniqueKeys ∧ (∀ t, state.tableDef t = s₀.state.tableDef t) ∧
    (∀ p ∈ rowsUpTo s₀ w c.checkpointLsn, state.Has p) ∧
    ∀ t id row, s₀.state.rowAt t id = some row → state.rowAt t id = some row

structure DiskInv [Ord V] (s₀ s : DiskSystem V) : Prop where
  log : StoreSystem.InsertLog s₀.store s.store
  lower : s₀.wal.records.length ≤ s.wal.synced
  upper : s.wal.synced ≤ s.wal.records.length
  kept : s.removed < replayStartLsn s.snapshot
  onDisk : s.snapshot = s₀.snapshot ∨ ∃ c, s.snapshot = some c ∧ Covers s₀ s.wal c
  inFlight : ∀ c, s.checkpoint = some c → Covers s₀ s.wal c.snapshot ∧
    replayStartLsn s.snapshot ≤ c.snapshot.checkpointLsn ∧
    (c.saved = true → s.snapshot = some c.snapshot)

section
variable [Ord V] {s₀ s s' : DiskSystem V} {c : BaseSnapshot V} {state : StorageState V}

theorem Covers.mono (h : Covers s₀ s.wal c) (hupper : s.wal.synced ≤ s.wal.records.length)
    (hrecords : s.wal.records <+: s'.wal.records) (hsynced : s.wal.synced ≤ s'.wal.synced) :
    Covers s₀ s'.wal c := by
  refine ⟨h.after, h.synced.trans hsynced, ?_⟩
  have hrows : rowsUpTo s₀ s'.wal c.checkpointLsn = rowsUpTo s₀ s.wal c.checkpointLsn := by
    have hlen : c.checkpointLsn ≤ s.wal.records.length := h.synced.trans hupper
    obtain ⟨rest, hrest⟩ := hrecords
    simp only [rowsUpTo, ← hrest, take_append_of_le_length hlen]
  rw [hrows]
  exact h.source

theorem DiskInv.forward (h : DiskInv s₀ s) (hlog : StoreSystem.InsertLog s₀.store s'.store)
    (hrecords : s.wal.records <+: s'.wal.records) (hsynced : s.wal.synced ≤ s'.wal.synced)
    (hupper : s'.wal.synced ≤ s'.wal.records.length) (hcheckpoint : s'.checkpoint = s.checkpoint)
    (hsnapshot : s'.snapshot = s.snapshot) (hremoved : s'.removed = s.removed) :
    DiskInv s₀ s' where
  log := hlog
  lower := h.lower.trans hsynced
  upper := hupper
  kept := hremoved ▸ hsnapshot ▸ h.kept
  onDisk := by
    rw [hsnapshot]
    refine h.onDisk.imp_right ?_
    rintro ⟨c, hc, hcovers⟩
    exact ⟨c, hc, hcovers.mono h.upper hrecords hsynced⟩
  inFlight c hc := by
    obtain ⟨hcovers, hstart, hsaved⟩ := h.inFlight c (hcheckpoint ▸ hc)
    exact ⟨hcovers.mono h.upper hrecords hsynced, hsnapshot ▸ hstart, hsnapshot ▸ hsaved⟩

theorem DiskInv.start_le (h : DiskInv s₀ s) (hcovered : coveredLsn s₀.snapshot ≤
    s₀.wal.records.length) : replayStartLsn s.snapshot ≤ s.wal.records.length + 1 := by
  rcases h.onDisk with heq | ⟨c, hc, hcovers⟩
  · rw [heq]
    have hle := hcovered.trans (h.lower.trans h.upper)
    cases hsnap : s₀.snapshot with
    | none => simp [replayStartLsn]
    | some c =>
      rw [hsnap] at hle
      exact Nat.le_succ_of_le hle
  · rw [hc]
    exact Nat.le_succ_of_le (hcovers.synced.trans h.upper)

theorem DiskInv.covers_capture (h : DiskInv s₀ s)
    (hsettled : ∀ p ∈ s.store.inserts.toList, p.2.logged = false) (hunique : s.state.UniqueKeys)
    {wal : Wal V} (hrecords : wal.records = s.wal.records ++ [.checkpoint s.wal.nextLsn])
    (hsynced : wal.synced = wal.records.length) :
    Covers s₀ wal (s.state.serializeSnapshot s.wal.nextLsn) where
  after := Nat.lt_succ_of_le (h.lower.trans h.upper)
  synced := by
    rw [hsynced, hrecords, length_append]
    exact Nat.le_refl _
  source := by
    refine ⟨s.state, rfl, h.log.sound, hunique, h.log.defs, fun p hp => ?_, h.log.kept⟩
    have hrows : rowsUpTo s₀ wal s.wal.nextLsn = StoreSystem.inserted s₀.store s.store := by
      have hlen : (s.wal.records ++ [WalRecord.checkpoint s.wal.nextLsn]).length ≤ s.wal.nextLsn := by
        simp [Wal.nextLsn]
      simp only [rowsUpTo, hrecords]
      rw [take_of_length_le hlen, drop_append_of_le_length (h.lower.trans h.upper),
        filterMap_append]
      exact append_nil _
    have hmem : p ∈ StoreSystem.inserted s₀.store s.store := hrows ▸ hp
    rcases h.log.live p hmem with hhas | ⟨o, i, hi, hlogged, -⟩
    · exact hhas
    · have := hsettled (o, i) (mem_toList_iff_getElem?_eq_some.mpr hi)
      rw [hlogged] at this
      cases this

/-! ## Recovery -/

/-- Recovery finds the rows of the durable records and of the start. -/
def Recovers (s₀ s : DiskSystem V) : Prop :=
  ∃ r, s.recovered = .ok r ∧ (∀ p ∈ rowsUpTo s₀ s.wal s.wal.synced, r.state.Has p) ∧
    ∀ t id row, s₀.state.rowAt t id = some row → r.state.rowAt t id = some row

omit [Ord V] in
theorem newDurable_take (s₀ s : DiskSystem V) :
    (s.wal.records.take s.wal.synced).drop s₀.wal.records.length <+:
      StoreSystem.newRecords s₀.store s.store := by
  rw [drop_take]
  exact take_prefix ..

section

variable (h : DiskInv s₀ s)
include h

theorem DiskInv.nodup_rows : ((rowsUpTo s₀ s.wal s.wal.synced).map (·.key)).Nodup :=
  (((newDurable_take s₀ s).sublist.filterMap _).map _).nodup h.log.nodup

theorem DiskInv.known_rows :
    ∀ r ∈ (s.wal.records.take s.wal.synced).drop s₀.wal.records.length, r.Known s₀.state :=
  fun r hr => h.log.known r ((newDurable_take s₀ s).subset hr)

theorem DiskInv.key_not_mem
    (hids : s₀.state.IdsGiven) {t : RelationId} {id : TupleId} {row : Row V} (hrow : s₀.state.rowAt t id = some row) :
    (t, id) ∉ (rowsUpTo s₀ s.wal s.wal.synced).map (·.key) := by
  intro hmem
  obtain ⟨p, hp, hkey⟩ := mem_map.mp hmem
  have hp' : p ∈ StoreSystem.inserted s₀.store s.store :=
    ((newDurable_take s₀ s).sublist.filterMap _).subset hp
  have hnone := (h.log.given p hp').rowAt_eq_none hids
  cases hkey
  exact absurd (hnone.symm.trans hrow) (by simp)

theorem DiskInv.recovered_start (hrest : s₀.AtRest) (hsnapshot : s.snapshot = s₀.snapshot) :
    Recovers s₀ s := by
  obtain ⟨r₀, hr₀, hsound, hsame⟩ := hrest.recovers
  have hstart₀ : 0 < replayStartLsn s₀.snapshot := Nat.zero_lt_of_lt hrest.kept
  have hkept : s.removed < replayStartLsn s₀.snapshot := hsnapshot ▸ h.kept
  have htake : s₀.wal.records.take s₀.wal.synced = s₀.wal.records := by
    rw [hrest.synced, take_length]
  rw [DiskSystem.recovered, Wal.durable, htake, recover_eq hstart₀ hrest.kept] at hr₀
  obtain ⟨base, hbase, hr₀⟩ := bind_eq_ok.mp hr₀
  obtain ⟨r, hr, hhas, hother⟩ := replay_records
    ((s.wal.records.take s.wal.synced).drop s₀.wal.records.length)
    (coveredLsn s₀.snapshot + 1 + (s₀.wal.records.drop (coveredLsn s₀.snapshot)).length) hsound
    (fun record hrecord => (h.known_rows record hrecord).congr hsame.tableDef) h.nodup_rows
  refine ⟨r, ?_, hhas, fun t id row hrow => ?_⟩
  · have hfront : s.wal.records.take s.wal.synced = s₀.wal.records ++
        (s.wal.records.take s.wal.synced).drop s₀.wal.records.length := by
      obtain ⟨rest, hrest'⟩ := h.log.log
      have hrecords : s.wal.records = s₀.wal.records ++ rest := hrest'.symm
      rw [hrecords, take_append, take_of_length_le h.lower]
      simp
    rw [DiskSystem.recovered, Wal.durable, hsnapshot, recover_eq hstart₀ hkept, hfront,
      drop_append_of_le_length hrest.covered, numbered_append]
    refine bind_eq_ok.mpr ⟨base, hbase, ?_⟩
    rw [foldlM_append]
    exact bind_eq_ok.mpr ⟨r₀, hr₀, hr⟩
  · rw [hother t id (h.key_not_mem hrest.ids hrow), hsame.rowAt, hrow]

theorem DiskInv.recovered_snapshot [TransOrd V]
    (hids : s₀.state.IdsGiven) (hsnapshot : s.snapshot = some c) (hcovers : Covers s₀ s.wal c) :
    Recovers s₀ s := by
  obtain ⟨source, hentries, hsourceSound, hunique, hdefs, hrows, hbaseRows⟩ := hcovers.source
  obtain ⟨base, hbase, hsame, hsound⟩ :=
    replay_serializeSnapshot hsourceSound hunique c.checkpointLsn
  have hstart : 0 < replayStartLsn (some c) := Nat.zero_lt_of_lt hcovers.after
  have hkept : s.removed < replayStartLsn (some c) := hsnapshot ▸ h.kept
  let durable := s.wal.records.take s.wal.synced
  have hcut : durable.drop s₀.wal.records.length =
      (s.wal.records.take c.checkpointLsn).drop s₀.wal.records.length ++
        durable.drop c.checkpointLsn := by
    have hfront : s.wal.records.take c.checkpointLsn = durable.take c.checkpointLsn := by
      rw [take_take, Nat.min_eq_left hcovers.synced]
    have hlen : s₀.wal.records.length ≤ (durable.take c.checkpointLsn).length := by
      rw [← hfront, length_take]
      exact Nat.le_min.mpr ⟨hcovers.after.le, h.lower.trans h.upper⟩
    rw [hfront, ← drop_append_of_le_length hlen, take_append_drop]
  have hnodup := h.nodup_rows
  have hall : rowsUpTo s₀ s.wal s.wal.synced = rowsUpTo s₀ s.wal c.checkpointLsn ++
      (durable.drop c.checkpointLsn).filterMap (·.inserted?) := by
    show (durable.drop _).filterMap _ = _
    rw [hcut, filterMap_append]
    rfl
  rw [hall, map_append, nodup_append] at hnodup
  obtain ⟨r, hr, hhas, hother⟩ := replay_records (r := { state := base })
    (durable.drop c.checkpointLsn) (c.checkpointLsn + 1) hsound
    (fun record hrecord => (h.known_rows record
      (hcut ▸ mem_append_right _ hrecord)).congr fun t =>
        (hsame.tableDef t).trans (hdefs t)) hnodup.2.1
  refine ⟨r, ?_, fun p hp => ?_, fun t id row hrow => ?_⟩
  · rw [DiskSystem.recovered, Wal.durable, hsnapshot, recover_eq hstart hkept]
    exact bind_eq_ok.mpr ⟨base, (congrArg _ hentries).trans hbase, hr⟩
  · rw [hall, mem_append] at hp
    rcases hp with hp | hp
    · have hkey : p.key ∉ ((durable.drop c.checkpointLsn).filterMap (·.inserted?)).map (·.key) :=
        fun hmem => hnodup.2.2 _ (mem_map_of_mem hp) _ hmem rfl
      exact (hother _ _ hkey).trans ((hsame.rowAt _ _).trans (hrows p hp))
    · exact hhas p hp
  · have hkey := h.key_not_mem hids hrow
    rw [hall, map_append, mem_append, not_or] at hkey
    rw [hother t id hkey.2, hsame.rowAt]
    exact hbaseRows t id row hrow

end

/-! ## Runs -/

theorem AtRest.diskInv (h : s₀.AtRest) : DiskInv s₀ s₀ where
  log := by
    have hnone : StoreSystem.inserted s₀.store s₀.store = [] := by
      simp [StoreSystem.inserted, StoreSystem.newRecords]
    have hempty : ∀ (o : Nat) (i : InsertInFlight V), s₀.store.inserts[o]? ≠ some i := by
      simp [h.inserts]
    exact {
      data := h.data
      log := prefix_rfl
      defs := fun _ => rfl
      sound := h.sound
      known := by simp [StoreSystem.newRecords]
      nodup := by simp [hnone]
      next_le := fun _ => Nat.le_refl _
      given := by simp [hnone]
      inserts := fun o i hi => absurd hi (hempty o i)
      apart := fun o _ i _ hi => absurd hi (hempty o i)
      live := by simp [hnone]
      kept := fun _ _ _ hrow => hrow }
  lower := h.synced.ge
  upper := h.synced.le
  kept := h.kept
  onDisk := .inl rfl
  inFlight c hc := by simp [h.checkpoint] at hc

omit [Ord V] in
theorem idsGiven_of_toList
    (h : ∀ p ∈ state.tables.toList, ∀ r ∈ p.2.liveRows, r.1 < p.2.nextTupleId) :
    state.IdsGiven := by
  intro t id row hrow
  obtain ⟨table, htable, hrow⟩ := bind_eq_some_iff.mp hrow
  have hlt := h (t, table) (mem_toList_iff_getElem?_eq_some.mpr htable) _
    (TableData.mem_liveRows.mpr hrow)
  simpa [StorageState.nextTupleIdOf, htable] using hlt

theorem atRest_of_checkpoint [TransOrd V] (hsound : state.Sound) (hunique : state.UniqueKeys)
    (hactive : state.activeTxns = ∅) (hids : state.IdsGiven) :
    AtRest { store := { engine := { state, wal := { records := [.checkpoint 1], synced := 1 } } }
             snapshot := some (state.serializeSnapshot 1) } where
  inserts := rfl
  checkpoint := rfl
  data txn p hp := by
    have hp' : state.activeTxns[txn]? = some p := hp
    simp [hactive] at hp'
  synced := rfl
  covered := Nat.le_refl _
  kept := Nat.one_pos
  sound := hsound
  ids := hids
  recovers := by
    obtain ⟨base, hbase, hsame, hbaseSound⟩ := replay_serializeSnapshot hsound hunique 1
    refine ⟨{ state := base }, ?_, hbaseSound, hsame⟩
    have hstart : 0 < replayStartLsn (some (state.serializeSnapshot 1)) := Nat.one_pos
    exact (recover_eq hstart hstart [.checkpoint 1]).trans (bind_eq_ok.mpr ⟨base, hbase, rfl⟩)

variable [DecidableEq V]

theorem DiskInv.step_insert (h : DiskInv s₀ s) (hrest : s₀.AtRest) {store : StoreSystem V}
    {a : StoreAction V} (ha : a.IsAutocommit) (hstep : s.store.step a = some store) :
    DiskInv s₀ { s with store } := by
  have hlog := h.log.step_insert hrest.ids ha hstep
  have hwal : s.store.engine.wal.records <+: store.engine.wal.records ∧
      store.engine.wal.synced = s.store.engine.wal.synced := by
    cases StoreSystem.step_effect h.log.data hstep with
    | unchanged hstate hwal => exact hwal ▸ ⟨prefix_rfl, rfl⟩
    | taken | allocate | insertApply => exact ⟨prefix_rfl, rfl⟩
    | insertLog => exact ⟨prefix_append .., rfl⟩
    | _ => exact ha.elim
  refine h.forward hlog hwal.1 hwal.2.ge ?_ rfl rfl rfl
  exact hwal.2.le.trans (h.upper.trans hwal.1.length_le)

theorem DiskInv.step (h : DiskInv s₀ s) (hrest : s₀.AtRest) {a : DiskAction V}
    (hsettled : s.Settled a) (hstep : s.step a = some s') : DiskInv s₀ s' := by
  cases a with
  | insertAllocate | insertLog | insertApply =>
    obtain ⟨store, hstore, rfl⟩ := map_eq_some_iff.mp hstep
    exact h.step_insert hrest (by trivial) hstore
  | sync upTo =>
    simp only [DiskSystem.step] at hstep
    split at hstep
    case isFalse => cases hstep
    case isTrue hle =>
      cases hstep
      refine h.forward ?_ prefix_rfl hle.1 hle.2 rfl rfl rfl
      exact h.log.frame h.log.data h.log.log h.log.known rfl ⟨fun _ => rfl, fun _ _ => rfl⟩ h.log.sound
        (fun _ => Nat.le_refl _) rfl
  | capture =>
    simp only [DiskSystem.step, InMemoryStorage.checkpoint] at hstep
    split at hstep
    · cases hstep
    rename_i hfree
    split at hstep
    case h_2 engine heq =>
      cases hstep
      split at heq
      · cases heq
      · cases heq
        exact h
    case h_1 snapshot engine heq =>
      split at heq
      case isFalse => cases heq
      cases heq
      cases hstep
      have hlog : s₀.store.InsertLog { s.store with engine := { s.store.engine with
          wal := (s.wal.log (.checkpoint s.wal.nextLsn)).sync } } :=
        h.log.log_checkpoint rfl rfl rfl
      have hcovers : Covers s₀ (s.wal.log (.checkpoint s.wal.nextLsn)).sync
          (s.state.serializeSnapshot s.wal.nextLsn) :=
        h.covers_capture hsettled.1 hsettled.2 rfl rfl
      have hforward : DiskInv s₀ (s.setEngine { s.store.engine with
          wal := (s.wal.log (.checkpoint s.wal.nextLsn)).sync }) := by
        refine h.forward hlog (prefix_append ..) ?_ (Nat.le_refl _) rfl rfl rfl
        exact h.upper.trans (prefix_append ..).length_le
      refine ⟨hlog, hforward.lower, hforward.upper, h.kept, hforward.onDisk, fun c hc => ?_⟩
      cases hc
      exact ⟨hcovers, h.start_le hrest.covered, fun hsaved => by cases hsaved⟩
  | save =>
    obtain ⟨c, hc, hstep⟩ := bind_eq_some_iff.mp hstep
    split at hstep
    · cases hstep
    cases hstep
    obtain ⟨hcovers, hstart, -⟩ := h.inFlight c hc
    have hkept : s.removed < c.snapshot.checkpointLsn := Nat.lt_of_lt_of_le h.kept hstart
    refine ⟨h.log, h.lower, h.upper, hkept, .inr ⟨_, rfl, hcovers⟩, fun c' hc' => ?_⟩
    cases hc'
    exact ⟨hcovers, Nat.le_refl _, fun _ => rfl⟩
  | cleanup upTo =>
    obtain ⟨c, hc, hstep⟩ := bind_eq_some_iff.mp hstep
    split at hstep
    case isFalse => cases hstep
    case isTrue hdone =>
      cases hstep
      obtain ⟨-, -, hsaved⟩ := h.inFlight c hc
      refine ⟨h.log, h.lower, h.upper, ?_, h.onDisk, fun c' hc' => by cases hc'⟩
      refine Nat.max_lt.mpr ⟨h.kept, ?_⟩
      show upTo < replayStartLsn s.snapshot
      rw [hsaved hdone.1]
      exact hdone.2

end

def sampleState : StorageState Nat :=
  let descriptor : TableStorageDescriptor := { tableId := 1, columns := [{ columnId := 1 }] }
  let index : IndexStorageDescriptor :=
    { indexId := 1, tableId := 1, unique := true, keyColumns := [{ columnId := 1 }] }
  let data : IndexData Nat := .newForTable index descriptor
  { tables := ExtTreeMap.empty.insert 1 (.rebuilt descriptor [(1, [some 3])])
    indexes := ExtTreeMap.empty.insert 1 (data.insertPrebuiltEntryUnchecked [some 3] 1 []) }

def sampleStart : DiskSystem Nat where
  store := { engine := { state := sampleState, wal := { records := [.checkpoint 1], synced := 1 } } }
  snapshot := some (sampleState.serializeSnapshot 1)

theorem sampleStart_atRest : sampleStart.AtRest := by
  refine atRest_of_checkpoint (sound_of_toList ?_ ?_) (by decide +kernel) rfl ?_
  · decide +kernel
  · decide +kernel
  · exact idsGiven_of_toList (by decide +kernel)

/-- One insert is applied before the checkpoint, another one logged after it. -/
def sampleRun : List (DiskAction Nat) :=
  [.insertAllocate 0 1 [some 5], .insertLog 0, .insertAllocate 1 1 [some 7], .sync 2,
    .insertApply 0, .capture, .save, .insertLog 1, .cleanup 2, .sync 4]

/-- A checkpoint copies the state while an insert is logged and not yet applied. -/
def lostRun : List (DiskAction Nat) :=
  [.insertAllocate 0 1 [some 5], .insertLog 0, .sync 2, .capture, .save]

end DiskSystem

end AionDb
