import AionDb.Core
import AionDb.LibTxnLog

/-!
# The commit of a transaction over the storage log and the catalog log

`commit_transaction_internal` with the storage's and the catalog's `commit_txn`
as it calls them. The two participants have a log each; a log call can fail or
be the last thing the process does, and then any first part of what it was
writing is durable. What the in-memory checks say is given; the changes of
rows and of the catalog are of any types.
-/

namespace AionDb

open Effect TxnLog

/-- How a call to one of the logs ends, and how many of the records it was writing are durable. -/
inductive LogOutcome where
  | done
  | failed (durable : Nat)
  | crashed (durable : Nat)

def nextOutcome (outcomes : List LogOutcome) : LogOutcome := outcomes.headD .done

inductive CommitProgress where
  | preTxManagerCommit
  | txManagerCommitted
  | storageCommitted
  | catalogCommitted

structure CommitChecks where
  commitLock : DbResult Unit := .ok ()
  validateSerializable : DbResult Unit := .ok ()
  validateCatalog : DbResult Unit := .ok ()
  validateStorage : DbResult Unit := .ok ()
  txManagerCommit : DbResult Unit := .ok ()
  storagePreflight : DbResult Unit := .ok ()
  storageApply : DbResult Unit := .ok ()
  catalogStage : Nat → DbResult Unit := fun _ => .ok ()
  finishCommit : DbResult Unit := .ok ()
  releaseTxn : DbResult Unit := .ok ()

structure CommitNode (ρ κ : Type) where
  storageLog : List (Record ρ)
  /-- Records of the transaction that were appended to the storage log and are not durable yet. -/
  storageBuffer : List (Record ρ)
  catalogLog : List (Record κ)
  /-- `pending_wal_records`; `none` when the catalog does not hold the transaction, or holds it
  unchanged. -/
  catalogPending : Option (List κ)
  outcomes : List LogOutcome
  progress : CommitProgress := .preTxManagerCommit
  crashed : Bool := false

section

variable {ρ κ : Type}

abbrev CommitM (ρ κ : Type) := Eff (CommitNode ρ κ) DbError

def writeRecords {α : Type} (save : List α → CommitNode ρ κ → CommitNode ρ κ) (records : List α) :
    CommitM ρ κ Unit := do
  let outcome := nextOutcome (← get).outcomes
  modify fun s => { s with outcomes := s.outcomes.tail }
  match outcome with
  | .done => modify (save records)
  | .failed durable => do
    modify (save (records.take durable))
    throw (.internalMsg "WAL write failed")
  | .crashed durable => do
    modify fun s => { save (records.take durable) s with crashed := true }
    throw (.internalMsg "process ended")

def logCatalog (record : Record κ) : CommitM ρ κ Unit :=
  writeRecords (fun records s => { s with catalogLog := s.catalogLog ++ records }) [record]

/-- A durable record in the storage log, after everything appended before it. -/
def logStorage (record : Record ρ) : CommitM ρ κ Unit := do
  let s ← get
  writeRecords (fun records s => { s with storageLog := s.storageLog ++ records, storageBuffer := [] })
    (s.storageBuffer ++ [record])

def attempt (m : CommitM ρ κ Unit) : CommitM ρ κ (DbResult Unit) := fun s =>
  match m s with
  | (.ok (), s') => (.ok (.ok ()), s')
  | (.error e, s') => if s'.crashed then (.error e, s') else (.ok (.error e), s')

def commitStorageTxn (checks : CommitChecks) (txn : TxnId) : CommitM ρ κ Unit := do
  liftM checks.storagePreflight
  logStorage (.commitTxn txn)
  liftM checks.storageApply

/-- The catalog's `commit_txn`; a failed call puts the transaction back. -/
def commitCatalogTxn (checks : CommitChecks) (txn : TxnId) (attemptNo : Nat) :
    CommitM ρ κ Unit := do
  match (← get).catalogPending with
  | none => pure ()
  | some changes => do
    liftM (checks.catalogStage attemptNo)
    changes.forM fun change => logCatalog (.change txn change)
    logCatalog (.commitTxn txn)
    modify fun s => { s with catalogPending := none }

def rollbackCatalogTxn (txn : TxnId) : CommitM ρ κ Unit := do
  match (← get).catalogPending with
  | none => pure ()
  | some _ => do
    logCatalog (.abortTxn txn)
    modify fun s => { s with catalogPending := none }

def rollbackStorageTxn (txn : TxnId) : CommitM ρ κ Unit := logStorage (.abortTxn txn)

def retryCatalogCommit (checks : CommitChecks) (txn : TxnId) : List Nat → DbError → CommitM ρ κ Unit
  | [], lastErr => throw lastErr
  | attemptNo :: rest, _ => do
    match ← attempt (commitCatalogTxn checks txn attemptNo) with
    | .ok () => pure ()
    | .error e => retryCatalogCommit checks txn rest e

def setProgress (progress : CommitProgress) : CommitM ρ κ Unit :=
  modify fun s => { s with progress }

/-- The body of `commit_transaction_internal`, up to the cleanup. -/
def commitParticipants (checks : CommitChecks) (txn : TxnId) (includeCatalog includeStorage : Bool) :
    CommitM ρ κ Unit := do
  liftM checks.commitLock
  liftM checks.validateSerializable
  if includeCatalog then liftM checks.validateCatalog
  if includeStorage then liftM checks.validateStorage
  liftM checks.txManagerCommit
  setProgress .txManagerCommitted
  if includeStorage then do
    commitStorageTxn checks txn
    setProgress .storageCommitted
  if includeCatalog then
    retryCatalogCommit checks txn [0, 1, 2] (.internalMsg "catalog commit failed without error")
  setProgress .catalogCommitted
  liftM checks.finishCommit

/-- What is done after a failure, by how far the commit had come. -/
def cleanupCommit (txn : TxnId) (includeCatalog includeStorage : Bool) : CommitM ρ κ Unit := do
  match (← get).progress with
  | .preTxManagerCommit => do
    if includeCatalog then discard (attempt (rollbackCatalogTxn txn))
    if includeStorage then discard (attempt (rollbackStorageTxn txn))
  | .txManagerCommitted => if includeCatalog then discard (attempt (rollbackCatalogTxn txn))
  | .storageCommitted | .catalogCommitted => pure ()

def commitTransactionInternal (checks : CommitChecks) (txn : TxnId)
    (includeCatalog includeStorage : Bool) : CommitM ρ κ Unit := do
  let result ← attempt (commitParticipants checks txn includeCatalog includeStorage)
  match result with
  | .ok () => liftM checks.releaseTxn
  | .error e => do
    cleanupCommit txn includeCatalog includeStorage
    throw e

end

/-- What a restart builds from the two logs. -/
def restart {ρ κ σ τ : Type} (applyRow : σ → ρ → DbResult σ) (applyCatalog : τ → κ → DbResult τ)
    (rows : σ) (catalog : τ) (node : CommitNode ρ κ) : DbResult (σ × τ) := do
  let storage ← recover applyRow rows node.storageLog
  let catalog ← recover applyCatalog catalog node.catalogLog
  return (storage.state, catalog.state)

end AionDb
