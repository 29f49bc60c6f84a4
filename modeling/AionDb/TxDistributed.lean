import AionDb.Core

/-!
# Records of distributed transactions

The record of a distributed transaction says whether it is under way, staged,
committed or aborted. Committed and aborted are final. The fields for
recovery (the key spans) decide nothing here and are left out.
-/

namespace AionDb

structure HlcTimestamp where
  wallTimeUs : Nat
  logical : Nat
deriving DecidableEq

namespace HlcTimestamp

def zero : HlcTimestamp := ⟨0, 0⟩

def lt (a b : HlcTimestamp) : Bool :=
  a.wallTimeUs < b.wallTimeUs ∨ a.wallTimeUs = b.wallTimeUs ∧ a.logical < b.logical

end HlcTimestamp

structure DistributedTxnId where
  coordinator : Nat
  startTs : HlcTimestamp
  seq : Nat
deriving DecidableEq

inductive DistributedTxnStatus where
  | pending
  | staging
  | committed
  | aborted
deriving DecidableEq

def DistributedTxnStatus.isFinal : DistributedTxnStatus → Bool
  | .committed | .aborted => true
  | .pending | .staging => false

structure DistributedTxnRecord where
  id : DistributedTxnId
  status : DistributedTxnStatus := .pending
  lastHeartbeat : HlcTimestamp
  commitTs : HlcTimestamp := .zero
  priority : Nat

inductive TxnTransitionError where
  | unknown
  | invalidTransition (source target : DistributedTxnStatus)

def DistributedTxnStatus.text : DistributedTxnStatus → String
  | .pending => "Pending"
  | .staging => "Staging"
  | .committed => "Committed"
  | .aborted => "Aborted"

def TxnTransitionError.intoDbError : TxnTransitionError → DbError
  | .unknown => .internalMsg "unknown transaction"
  | .invalidTransition source target =>
    .internalMsg s!"invalid transition {source.text} -> {target.text}"

def DistributedTxnId.text (id : DistributedTxnId) : String :=
  s!"txn-{id.coordinator}-{id.startTs.wallTimeUs}.{id.startTs.logical}-{id.seq}"

namespace DistributedTxnRecord

variable (record : DistributedTxnRecord)

def heartbeat (now : HlcTimestamp) : DistributedTxnRecord :=
  if !record.status.isFinal && record.lastHeartbeat.lt now then { record with lastHeartbeat := now }
  else record

def stage : Except TxnTransitionError DistributedTxnRecord :=
  match record.status with
  | .pending | .staging => .ok { record with status := .staging }
  | .committed | .aborted => .error (.invalidTransition record.status .staging)

def commit (commitTs : HlcTimestamp) : Except TxnTransitionError DistributedTxnRecord :=
  match record.status with
  | .pending | .staging => .ok { record with status := .committed, commitTs }
  | .committed =>
    if record.commitTs ≠ commitTs then .error (.invalidTransition record.status .committed)
    else .ok record
  | .aborted => .error (.invalidTransition record.status .committed)

def abort : Except TxnTransitionError DistributedTxnRecord :=
  match record.status with
  | .pending | .staging => .ok { record with status := .aborted }
  | .aborted => .ok record
  | .committed => .error (.invalidTransition record.status .aborted)

/-- A record that is not final is aborted by a pusher of higher priority, or when
its heartbeat is too old. -/
def push (expirationUs pusherPriority : Nat) (now : HlcTimestamp) : DistributedTxnRecord :=
  if record.status.isFinal then record
  else if record.priority < pusherPriority ∨
      expirationUs < now.wallTimeUs - record.lastHeartbeat.wallTimeUs then
    { record with status := .aborted }
  else record

end DistributedTxnRecord

end AionDb
