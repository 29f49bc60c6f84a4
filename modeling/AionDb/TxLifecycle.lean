import AionDb.Core
import AionDb.LibMap

/-!
# The in-memory transaction manager

Each method of the manager runs under its mutex, so one call is one function
of the whole manager state. A method returns its result together with the
state it leaves, also when the result is an error.
-/

namespace AionDb

open Std

inductive IsolationLevel where
  | readCommitted
  | snapshotIsolation
  | serializable
deriving DecidableEq

structure Snapshot where
  xmin : TxnId
  xmax : TxnId
  active : List TxnId
deriving DecidableEq

structure ActiveTransaction where
  id : TxnId
  isolation : IsolationLevel
  startTs : Nat
  snapshot : Snapshot
deriving DecidableEq

structure CommitResult where
  txnId : TxnId
  commitTs : Nat

structure ActiveTxnState where
  isolation : IsolationLevel
  startTs : Nat
deriving DecidableEq

/-- What is recorded of a transaction for validation. `validated` is set once
`validateCommit` approved it and stays until it finishes or rolls back. -/
structure SerializableTxnState where
  startTs : Nat
  readRelations : ExtTreeSet RelationId := ∅
  writtenRelations : ExtTreeSet RelationId := ∅
  writtenTuples : ExtTreeSet TupleKey tupleKeyCmp := ∅
  validated : Bool := false
deriving DecidableEq

def SerializableTxnState.touched (t : SerializableTxnState) : List RelationId :=
  t.writtenRelations.toList ++ t.readRelations.toList

structure TransactionManager where
  nextTxnId : Nat := 1
  commitTs : Nat := 0
  activeTxns : ExtTreeMap TxnId ActiveTxnState := ∅
  trackedTxns : ExtTreeMap TxnId SerializableTxnState := ∅
  lastRelationWriteCommit : ExtTreeMap RelationId Nat := ∅
  lastTupleWriteCommit : ExtTreeMap TupleKey Nat tupleKeyCmp := ∅
deriving DecidableEq

namespace TransactionManager

def allocateTxnId (m : TransactionManager) : DbResult TxnId × TransactionManager :=
  match checkedAdd m.nextTxnId 1 with
  | none => (.error (.internalMsg "transaction id space exhausted"), m)
  | some next =>
    let m' := { m with nextTxnId := next }
    if m.nextTxnId = 0 then (.error (.internalMsg "transaction id 0 is reserved"), m')
    else (.ok m.nextTxnId, m')

def allocateCommitTs (m : TransactionManager) : DbResult Nat × TransactionManager :=
  match checkedAdd m.commitTs 1 with
  | none => (.error (.internalMsg "commit timestamp space exhausted"), m)
  | some next => (.ok next, { m with commitTs := next })

def snapshotFromState (m : TransactionManager) (selfTxn : TxnId) : Snapshot :=
  let visibleActive := m.activeTxns.keys.filter (· ≠ selfTxn)
  { xmin := visibleActive.head?.getD selfTxn
    xmax := m.nextTxnId
    active := visibleActive }

def transactionNotActiveError (txn : TxnId) : DbError :=
  .internalMsg s!"transaction TxnId({txn}) is not active in tx manager"

def transactionHandleMismatchError (txn : TxnId) : DbError :=
  .internalMsg s!"transaction handle for TxnId({txn}) does not match active tx-manager state"

/-- `tracked_state_for_active_txn` followed by a change `f` of the entry it returns:
the entry is created with the transaction's own start timestamp if there is none. -/
def trackedStateForActiveTxn (m : TransactionManager) (txn : TxnId)
    (f : SerializableTxnState → SerializableTxnState) : DbResult Unit × TransactionManager :=
  match m.activeTxns[txn]? with
  | none => (.error (transactionNotActiveError txn), m)
  | some active =>
    let entry := m.trackedTxns[txn]?.getD { startTs := active.startTs }
    (.ok (), { m with trackedTxns := m.trackedTxns.insert txn (f entry) })

def assertActiveTransaction (m : TransactionManager) (txn : ActiveTransaction) :
    DbResult ActiveTxnState :=
  match m.activeTxns[txn.id]? with
  | none => .error (transactionNotActiveError txn.id)
  | some active =>
    if active.isolation ≠ txn.isolation ∨ active.startTs ≠ txn.startTs then
      .error (transactionHandleMismatchError txn.id)
    else .ok active

def oldestStart (m : TransactionManager) : Option Nat :=
  (m.trackedTxns.toList.map fun p => p.2.startTs).min?

def pruneCommitCaches (m : TransactionManager) : TransactionManager :=
  if m.trackedTxns.isEmpty then
    { m with lastRelationWriteCommit := ∅, lastTupleWriteCommit := ∅ }
  else
    match m.oldestStart with
    | none => m
    | some oldest =>
      { m with
        lastRelationWriteCommit := m.lastRelationWriteCommit.filter fun _ ts => oldest ≤ ts
        lastTupleWriteCommit := m.lastTupleWriteCommit.filter fun _ ts => oldest ≤ ts }

def begin (m : TransactionManager) (isolation : IsolationLevel) :
    DbResult ActiveTransaction × TransactionManager :=
  match m.allocateTxnId with
  | (.error e, m) => (.error e, m)
  | (.ok txnId, m) =>
    let startTs := m.commitTs
    let snapshot := m.snapshotFromState txnId
    let m := { m with activeTxns := m.activeTxns.insert txnId ⟨isolation, startTs⟩ }
    let m :=
      if isolation ≠ .readCommitted then
        { m with trackedTxns := m.trackedTxns.insert txnId { startTs } }
      else m
    (.ok { id := txnId, isolation, startTs, snapshot }, m)

def commit (m : TransactionManager) (txn : ActiveTransaction) :
    DbResult CommitResult × TransactionManager :=
  match m.assertActiveTransaction txn with
  | .error e => (.error e, m)
  | .ok _ =>
    match m.allocateCommitTs with
    | (.error e, m) => (.error e, m)
    | (.ok commitTs, m) =>
      (.ok ⟨txn.id, commitTs⟩, { m with activeTxns := m.activeTxns.erase txn.id })

def rollback (m : TransactionManager) (txn : ActiveTransaction) :
    DbResult Unit × TransactionManager :=
  match m.assertActiveTransaction txn with
  | .error e => (.error e, m)
  | .ok _ =>
    let m :=
      { m with
        activeTxns := m.activeTxns.erase txn.id
        trackedTxns := m.trackedTxns.erase txn.id }
    (.ok (), m.pruneCommitCaches)

/-- A transaction of the first isolation level takes a new snapshot for each
statement; the others keep the one `begin` took. -/
def statementSnapshot (m : TransactionManager) (txn : ActiveTransaction) : DbResult Snapshot :=
  match m.assertActiveTransaction txn with
  | .error e => .error e
  | .ok _ =>
    match txn.isolation with
    | .readCommitted => .ok (m.snapshotFromState txn.id)
    | .snapshotIsolation | .serializable => .ok txn.snapshot

/-! ## What a transaction records -/

def recordWrite (m : TransactionManager) (txn : TxnId) (table : RelationId) (tuple : TupleId) :
    DbResult Unit × TransactionManager :=
  if txn = 0 then (.ok (), m)
  else m.trackedStateForActiveTxn txn fun t =>
    { t with writtenTuples := t.writtenTuples.insert (table, tuple) }

def recordRelationRead (m : TransactionManager) (txn : TxnId) (relation : RelationId) :
    DbResult Unit × TransactionManager :=
  if txn = 0 then (.ok (), m)
  else
    match m.activeTxns[txn]? with
    | none => (.error (transactionNotActiveError txn), m)
    | some active =>
      if active.isolation = .serializable then
        m.trackedStateForActiveTxn txn fun t =>
          { t with readRelations := t.readRelations.insert relation }
      else (.ok (), m)

def recordRelationWrite (m : TransactionManager) (txn : TxnId) (relation : RelationId) :
    DbResult Unit × TransactionManager :=
  if txn = 0 then (.ok (), m)
  else m.trackedStateForActiveTxn txn fun t =>
    { t with writtenRelations := t.writtenRelations.insert relation }

inductive Access where
  | tupleWrite (key : TupleKey)
  | relationWrite (relation : RelationId)
  | relationRead (relation : RelationId)
deriving DecidableEq

def record (m : TransactionManager) (txn : TxnId) : Access → DbResult Unit × TransactionManager
  | .tupleWrite key => m.recordWrite txn key.1 key.2
  | .relationWrite relation => m.recordRelationWrite txn relation
  | .relationRead relation => m.recordRelationRead txn relation

/-! ## Validation -/

def tupleConflictError (key : TupleKey) : DbError :=
  let relationId := key.1
  let tupleId := key.2
  .transaction .serializationFailure <|
    s!"snapshot isolation validation failed: tuple TupleId({tupleId}) in relation " ++
      s!"RelationId({relationId}) changed concurrently"

def relationConflictError (relation : RelationId) : DbError :=
  .transaction .serializationFailure
    s!"serializable validation failed: relation RelationId({relation}) changed concurrently"

/-- A tuple the transaction wrote that a finished commit wrote after its start. -/
def committedTupleConflict (m : TransactionManager) (t : SerializableTxnState) : Option DbError :=
  t.writtenTuples.toList.findSome? fun key =>
    if m.lastTupleWriteCommit[key]?.any (t.startTs < ·) then some (tupleConflictError key)
    else none

/-- A conflict with another transaction that is validated and not finished. -/
def validatedConflict (m : TransactionManager) (txn : TxnId) (t : SerializableTxnState)
    (isSerializable : Bool) : Option DbError :=
  m.trackedTxns.toList.findSome? fun (otherId, other) =>
    if otherId = txn ∨ other.validated = false then none
    else
      (t.writtenTuples.toList.findSome? fun key =>
          if key ∈ other.writtenTuples then some (tupleConflictError key) else none) <|>
        if isSerializable then
          t.touched.findSome? fun relation =>
            if relation ∈ other.writtenRelations then some (relationConflictError relation)
            else none
        else none

def committedRelationConflict (m : TransactionManager) (t : SerializableTxnState) :
    Option DbError :=
  t.touched.findSome? fun relation =>
    if m.lastRelationWriteCommit[relation]?.any (t.startTs < ·) then
      some (relationConflictError relation)
    else none

def validationConflict (m : TransactionManager) (txn : TxnId) (t : SerializableTxnState)
    (isSerializable : Bool) : Option DbError :=
  m.committedTupleConflict t <|> m.validatedConflict txn t isSerializable <|>
    if isSerializable then m.committedRelationConflict t else none

def validateCommit (m : TransactionManager) (txn : ActiveTransaction) :
    DbResult Unit × TransactionManager :=
  match m.assertActiveTransaction txn with
  | .error e => (.error e, m)
  | .ok active =>
    if txn.isolation = .readCommitted then (.ok (), m)
    else if active.isolation ≠ txn.isolation then
      (.error (transactionHandleMismatchError txn.id), m)
    else
      match m.trackedTxns[txn.id]? with
      | none =>
        let id := txn.id
        (.error (.internalMsg (s!"transaction TxnId(\n    {id},\n) is active but missing " ++
          "tracked validation state")), m)
      | some t =>
        match m.validationConflict txn.id t (txn.isolation = .serializable) with
        | some e => (.error e, m)
        | none =>
          let trackedTxns := m.trackedTxns.insert txn.id { t with validated := true }
          (.ok (), { m with trackedTxns })

/-! ## Finishing -/

def finishCommit (m : TransactionManager) (txn : TxnId) (commitTs : Nat) :
    DbResult Unit × TransactionManager :=
  if txn = 0 then (.ok (), m)
  else if txn ∈ m.activeTxns then
    (.error (.internalMsg s!"cannot finish commit for active transaction TxnId({txn})"), m)
  else
    let m :=
      match m.trackedTxns[txn]? with
      | none => m
      | some t =>
        { m with
          trackedTxns := m.trackedTxns.erase txn
          lastRelationWriteCommit :=
            OrdMap.insertAll m.lastRelationWriteCommit commitTs t.writtenRelations.toList
          lastTupleWriteCommit :=
            OrdMap.insertAll m.lastTupleWriteCommit commitTs t.writtenTuples.toList }
    (.ok (), m.pruneCommitCaches)

def rollbackTxn (m : TransactionManager) (txn : TxnId) : DbResult Unit × TransactionManager :=
  if txn = 0 then (.ok (), m)
  else
    let m := { m with trackedTxns := m.trackedTxns.erase txn }
    (.ok (), m.pruneCommitCaches)

end TransactionManager

end AionDb
