import AionDb.Core
import AionDb.LibRun

/-!
# Sequences of the catalog store

`next_value` and `next_values` of `sequences.rs`, the transactions of the
catalog store that buffer them, and the replay of the catalog log. A transaction
advances a sequence on its own copy of the catalog and publishes the copy when
the revision has not moved; without a transaction the shared state is advanced
and logged at once.

Of the catalog only the sequences are kept. Revisions do not wrap around.
-/

namespace AionDb

open Function

open Std (ExtTreeMap)

abbrev SequenceId := Nat

/-- `SequenceDescriptor`, with the fields that matter when a value is drawn. -/
structure SequenceDescriptor where
  name : String
  incrementBy : Int
  minValue : Int
  maxValue : Int
  cycle : Bool
deriving DecidableEq

structure SequenceValueState where
  currentValue : Int
  isCalled : Bool

structure CatalogState where
  sequencesById : ExtTreeMap SequenceId SequenceDescriptor := ∅
  sequenceValues : ExtTreeMap SequenceId SequenceValueState := ∅
  revision : Nat := 0

def sequenceExhausted (name : String) : DbError :=
  .constraint .programLimitExceeded s!"sequence {name} has reached its limit"

def undefinedSequenceId (id : SequenceId) : DbError :=
  .bind .undefinedObject s!"sequence id {id} does not exist"

def checkedAddI64 (a b : Int) : Option Int :=
  if -(2 ^ 63) ≤ a + b ∧ a + b < 2 ^ 63 then some (a + b) else none

def nextSequenceValue (d : SequenceDescriptor) (current : Int) : DbResult Int :=
  match checkedAddI64 current d.incrementBy with
  | none => .error (sequenceExhausted d.name)
  | some candidate =>
    if d.minValue ≤ candidate ∧ candidate ≤ d.maxValue then .ok candidate
    else if d.cycle then .ok (if 0 ≤ d.incrementBy then d.minValue else d.maxValue)
    else .error (sequenceExhausted d.name)

/-- The loop of `advance_sequence_runtime_n`; a failed draw leaves the runtime where it stands. -/
def advanceRuntime (d : SequenceDescriptor) : Nat → SequenceValueState →
    DbResult (List Int) × SequenceValueState
  | 0, runtime => (.ok [], runtime)
  | count + 1, runtime =>
    if !runtime.isCalled then
      let rest := advanceRuntime d count { runtime with isCalled := true }
      (rest.1.map (runtime.currentValue :: ·), rest.2)
    else match nextSequenceValue d runtime.currentValue with
      | .error e => (.error e, runtime)
      | .ok next =>
        let rest := advanceRuntime d count { runtime with currentValue := next }
        (rest.1.map (next :: ·), rest.2)

/-- `advance_sequence_runtime_n` on a catalog; with one value it is `advance_sequence_runtime`. -/
def CatalogState.advance (c : CatalogState) (id : SequenceId) (count : Nat) :
    DbResult (List Int × SequenceValueState) × CatalogState :=
  match c.sequencesById[id]?, c.sequenceValues[id]? with
  | some d, some runtime =>
    let out := advanceRuntime d count runtime
    (out.1.map (·, out.2), { c with sequenceValues := c.sequenceValues.insert id out.2 })
  | _, _ => (.error (undefinedSequenceId id), c)

/-! ## The log -/

inductive CatalogWalRecord where
  | beginTxn (txn : TxnId)
  | commitTxn (txn : TxnId)
  | abortTxn (txn : TxnId)
  | setSequenceValue (txn : TxnId) (id : SequenceId) (runtime : SequenceValueState)

abbrev SequenceWrite := SequenceId × SequenceValueState

def replaySequenceWrite (c : CatalogState) (w : SequenceWrite) : DbResult CatalogState :=
  if c.sequencesById.contains w.1 then
    .ok { c with sequenceValues := c.sequenceValues.insert w.1 w.2 }
  else .error (.internalMsg
    s!"catalog WAL: sequence runtime update references missing sequence {w.1}")

/-- What `recover_catalog_state` carries over the log: the catalog, and the records of every open
transaction. -/
structure CatalogReplay where
  state : CatalogState
  openTxns : TxnId → List SequenceWrite

def CatalogReplay.entry (r : CatalogReplay) : CatalogWalRecord → DbResult CatalogReplay
  | .beginTxn txn => .ok { r with openTxns := update r.openTxns txn [] }
  | .commitTxn txn => do
    let state ← (r.openTxns txn).foldlM replaySequenceWrite r.state
    return ⟨state, update r.openTxns txn []⟩
  | .abortTxn txn => .ok { r with openTxns := update r.openTxns txn [] }
  | .setSequenceValue txn id runtime =>
    if txn = 0 then do
      return { r with state := ← replaySequenceWrite r.state (id, runtime) }
    else .ok { r with
      openTxns := update r.openTxns txn (r.openTxns txn ++ [(id, runtime)]) }

def recoverCatalogState (snapshot : CatalogState) (wal : List CatalogWalRecord) :
    DbResult CatalogReplay :=
  wal.foldlM CatalogReplay.entry ⟨snapshot, fun _ => []⟩

/-! ## The store -/

structure PendingCatalogTxn where
  baseRevision : Nat
  state : CatalogState
  dirty : Bool
  pendingWalRecords : List SequenceWrite
  /-- Ghost: the values the transaction was given. -/
  issued : List (SequenceId × Int)

def catalogAutoTxnBase : Nat := 2 ^ 48

structure CatalogStore where
  state : CatalogState
  activeTxns : TxnId → Option PendingCatalogTxn
  wal : List CatalogWalRecord
  autoTxnCounter : Nat
  /-- Ghost: the values given to autocommit statements, to unregistered transactions and to
  transactions that committed. -/
  granted : List (SequenceId × Int)

namespace CatalogStore

def fromRecovered (state : CatalogState) (wal : List CatalogWalRecord)
    (granted : List (SequenceId × Int)) : CatalogStore :=
  ⟨state, fun _ => none, wal, catalogAutoTxnBase, granted⟩

def autocommitRecords (s : CatalogStore) (w : SequenceWrite) : List CatalogWalRecord :=
  [.beginTxn s.autoTxnCounter, .setSequenceValue s.autoTxnCounter w.1 w.2,
    .commitTxn s.autoTxnCounter]

def commitRecords (txn : TxnId) (pending : PendingCatalogTxn) : List CatalogWalRecord :=
  pending.pendingWalRecords.map (fun w => .setSequenceValue txn w.1 w.2) ++ [.commitTxn txn]

def beginTxn (s : CatalogStore) (txn : TxnId) : CatalogStore :=
  { s with
    activeTxns := update s.activeTxns txn
      ((s.activeTxns txn).or (some ⟨s.state.revision, s.state, false, [], []⟩)) }

def nextValuesAutocommit (s : CatalogStore) (id : SequenceId) (count : Nat) : CatalogStore :=
  match s.state.advance id count with
  | (.error _, _) => s
  | (.ok (values, runtime), staged) =>
    { s with
      wal := s.wal ++ s.autocommitRecords (id, runtime)
      autoTxnCounter := s.autoTxnCounter + 1
      state := { staged with revision := s.state.revision + 1 }
      granted := s.granted ++ values.map (id, ·) }

/-- `write_catalog_state_with_record` for a registered transaction. -/
def nextValuesPending (s : CatalogStore) (txn : TxnId) (pending : PendingCatalogTxn)
    (id : SequenceId) (count : Nat) : CatalogStore :=
  match pending.state.advance id count with
  | (.error _, state) =>
    { s with activeTxns := update s.activeTxns txn (some { pending with state }) }
  | (.ok (values, runtime), state) =>
    { s with activeTxns := update s.activeTxns txn (some
        { pending with
          state := { state with revision := state.revision + 1 }
          dirty := true
          pendingWalRecords := pending.pendingWalRecords ++ [(id, runtime)]
          issued := pending.issued ++ values.map (id, ·) }) }

/-- `write_catalog_state_with_record` for a transaction the catalog does not know: the shared state
is changed, and the record logged, without a commit record. -/
def nextValuesUnregistered (s : CatalogStore) (txn : TxnId) (id : SequenceId) (count : Nat) :
    CatalogStore :=
  match s.state.advance id count with
  | (.error _, state) => { s with state }
  | (.ok (values, runtime), state) =>
    { s with
      state := { state with revision := state.revision + 1 }
      wal := s.wal ++ [.setSequenceValue txn id runtime]
      granted := s.granted ++ values.map (id, ·) }

def nextValues (s : CatalogStore) (txn : TxnId) (id : SequenceId) (count : Nat) : CatalogStore :=
  if count = 0 then s
  else if txn = 0 then s.nextValuesAutocommit id count
  else match s.activeTxns txn with
    | some pending => s.nextValuesPending txn pending id count
    | none => s.nextValuesUnregistered txn id count

/-- `commit_txn`. A transaction that drew values is not merged, so it fails and stays when the
revision has moved. -/
def commitTxn (s : CatalogStore) (txn : TxnId) : CatalogStore :=
  match s.activeTxns txn with
  | none => s
  | some pending =>
    if !pending.dirty then
      { s with activeTxns := update s.activeTxns txn none }
    else if s.state.revision = pending.baseRevision then
      { s with
        activeTxns := update s.activeTxns txn none
        wal := s.wal ++ commitRecords txn pending
        state := { pending.state with revision := s.state.revision + 1 }
        granted := s.granted ++ pending.issued }
    else s

def rollbackTxn (s : CatalogStore) (txn : TxnId) : CatalogStore :=
  match s.activeTxns txn with
  | none => s
  | some pending =>
    { s with
      activeTxns := update s.activeTxns txn none
      wal := if pending.dirty then s.wal ++ [.abortTxn txn] else s.wal }

inductive Interrupted where
  | nothing
  | autocommit (id : SequenceId) (count : Nat)
  | commit (txn : TxnId)

def inFlight (s : CatalogStore) : Interrupted → List CatalogWalRecord
  | .nothing => []
  | .autocommit id count =>
    match s.state.advance id count with
    | (.ok (_, runtime), _) => s.autocommitRecords (id, runtime)
    | (.error _, _) => []
  | .commit txn =>
    match s.activeTxns txn with
    | some pending =>
      if pending.dirty ∧ s.state.revision = pending.baseRevision then
        commitRecords txn pending
      else []
    | none => []

/-- A call, or a crash with the recovery after it: of the call it interrupts, the first `logged`
records are durable. -/
inductive Action where
  | beginTxn (txn : TxnId)
  | nextValues (txn : TxnId) (id : SequenceId) (count : Nat)
  | commitTxn (txn : TxnId)
  | rollbackTxn (txn : TxnId)
  | crash (call : Interrupted) (logged : Nat)

/-- A transaction whose commit record is durable has committed, also when the call did not return. -/
def committedBy (s : CatalogStore) (call : Interrupted) (logged : Nat) : List (SequenceId × Int) :=
  match call with
  | .commit txn =>
    match s.activeTxns txn with
    | some pending =>
      if (s.inFlight call).length ≤ logged ∧ s.inFlight call ≠ [] then pending.issued else []
    | none => []
  | _ => []

/-- The ids of transactions are below those the log gives to autocommit statements. -/
def step (snapshot : CatalogState) (s : CatalogStore) : Action → Option CatalogStore
  | .beginTxn txn => if 0 < txn ∧ txn < catalogAutoTxnBase then some (s.beginTxn txn) else none
  | .nextValues txn id count =>
    if txn < catalogAutoTxnBase then some (s.nextValues txn id count) else none
  | .commitTxn txn => some (s.commitTxn txn)
  | .rollbackTxn txn => some (s.rollbackTxn txn)
  | .crash call logged =>
    let wal := s.wal ++ (s.inFlight call).take logged
    match recoverCatalogState snapshot wal with
    | .ok r => some (fromRecovered r.state wal (s.granted ++ s.committedBy call logged))
    | .error _ => none

end CatalogStore

end AionDb
