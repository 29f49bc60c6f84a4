import AionDb.HaRaftNode
import AionDb.LibMap
import AionDb.LibRun

/-!
# The replicated key-value engine

`KvEngine` keeps one shard for each Raft group and reaches the group's node
through the registry. No lock is held over a whole call: the node is behind its
own mutex, the shards behind another, and only `cas` calls exclude each other.
A call is cut here into the sections that are atomic in the source; the local
node, the shard of one group and the calls in progress make up a `KvSystem`.

Whatever else the node does (elections, replication, restarts of others) happens
between these sections as an arbitrary call on it; what the system relies on is
that such a call takes back nothing that was committed.
-/

namespace AionDb

open Std

abbrev KvKey := List UInt8
abbrev KvValue := List UInt8

structure KvShard where
  table : ExtTreeMap KvKey KvValue := ∅
  appliedIndex : Nat := 0

def RaftCommand.kv : RaftCommand → Option (KvKey × Option KvValue)
  | kvWrite key value => some (key, value)
  | _ => none

namespace KvShard

variable (shard : KvShard)

def apply (entry : RaftEntry) : KvShard :=
  { table := match entry.command with
      | .kvWrite key (some value) => shard.table.insert key value
      | .kvWrite key none => shard.table.erase key
      | _ => shard.table
    appliedIndex :=
      if shard.appliedIndex < entry.index then entry.index else shard.appliedIndex }

/-- The section of `apply_committed` under the lock of the shards. -/
def applyAll (entries : List RaftEntry) : KvShard := entries.foldl apply shard

def lastOf (entries : List RaftEntry) : Nat :=
  entries.foldl (fun last entry => max entry.index last) shard.appliedIndex

end KvShard

/-! ## Calls -/

inductive KvGoal where
  | applyCommitted
  | write (key : KvKey) (value : Option KvValue)
  | cas (key : KvKey) (expected newValue : Option KvValue)

/-- What a call does next. After its proposal a call remembers the index. -/
inductive KvPhase where
  | lock
  | read
  | propose
  | fetch (index : Option Nat)
  | apply (index : Option Nat) (entries : List RaftEntry)
  | mark (index : Option Nat) (last : Nat)
deriving DecidableEq

def KvPhase.batch : KvPhase → Option (List RaftEntry)
  | apply _ entries => some entries
  | _ => none

def KvPhase.marking : KvPhase → Option Nat
  | mark _ last => some last
  | _ => none

def KvPhase.index : KvPhase → Option Nat
  | fetch index | apply index _ | mark index _ => index
  | lock | read | propose => none

structure KvCall where
  goal : KvGoal
  phase : KvPhase

def KvGoal.command : KvGoal → RaftCommand
  | applyCommitted => .noop
  | write key value => .kvWrite key value
  | cas key _ newValue => .kvWrite key newValue

def KvGoal.start : KvGoal → KvPhase
  | applyCommitted => .fetch none
  | write _ _ => .propose
  | cas _ _ _ => .lock

structure CasSuccess where
  key : KvKey
  expected : Option KvValue
  newValue : Option KvValue
  index : Nat
deriving DecidableEq

structure KvSystem where
  host : RaftHost
  shard : KvShard := {}
  casHolder : Option Nat := none
  calls : ExtTreeMap Nat KvCall := ∅
  successes : List CasSuccess := []

inductive KvAction where
  | start (id : Nat) (goal : KvGoal)
  | advance (id : Nat)
  | raft (call : RaftCall)

/-! ## The log of the group -/

def RaftNode.committed (node : RaftNode) : List RaftEntry := node.log.entries.take node.commitIndex

/-- Nothing committed is taken back, and nobody else marks entries as applied. -/
def RaftNode.KeepsCommitted (node node' : RaftNode) : Prop :=
  node.committed <+: node'.committed ∧ node'.lastApplied = node.lastApplied
deriving Decidable

namespace KvSystem

def init (nodeId : NodeId) (clusterSize : Nat) : KvSystem :=
  { host := RaftHost.fresh nodeId clusterSize }

variable (s : KvSystem)

def setCall (id : Nat) (call : KvCall) : KvSystem := { s with calls := s.calls.insert id call }

def finish (id : Nat) : KvSystem :=
  { s with calls := s.calls.erase id
           casHolder := if s.casHolder = some id then none else s.casHolder }

def succeed (id : Nat) (goal : KvGoal) (index : Option Nat) : KvSystem :=
  match goal, index with
  | .cas key expected newValue, some index =>
    { s.finish id with successes := ⟨key, expected, newValue, index⟩ :: s.successes }
  | _, _ => s.finish id

def nextSection (id : Nat) (goal : KvGoal) : KvPhase → Option KvSystem
  | .lock =>
    if s.casHolder = none then some ({ s with casHolder := some id }.setCall id ⟨goal, .read⟩)
    else none
  | .read =>
    match goal with
    | .cas key expected _ =>
      if s.shard.table[key]? = expected then some (s.setCall id ⟨goal, .propose⟩)
      else some (s.finish id)
    | _ => none
  | .propose =>
    match RaftOp.propose goal.command s.host with
    | (.ok index, host) => some ({ s with host }.setCall id ⟨goal, .fetch (some index)⟩)
    | (.error _, host) => some ({ s with host }.finish id)
  | .fetch index =>
    match s.host.node.unappliedEntries with
    | [] => some (s.succeed id goal index)
    | entries => some (s.setCall id ⟨goal, .apply index entries⟩)
  | .apply index entries =>
    some ({ s with shard := s.shard.applyAll entries }.setCall id
      ⟨goal, .mark index (s.shard.lastOf entries)⟩)
  | .mark index last =>
    some ({ s with host := { s.host with node := s.host.node.markApplied last } }.succeed id goal
      index)

def step : KvAction → Option KvSystem
  | .start id goal =>
    match s.calls[id]? with
    | none => some (s.setCall id ⟨goal, goal.start⟩)
    | some _ => none
  | .advance id =>
    match s.calls[id]? with
    | none => none
    | some call => s.nextSection id call.goal call.phase
  | .raft call =>
    let host := (call.exec s.host).2
    if s.host.node.KeepsCommitted host.node then some { s with host } else none

end KvSystem

end AionDb
