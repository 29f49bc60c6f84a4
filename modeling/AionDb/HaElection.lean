import AionDb.Core
import AionDb.LibQuorum

/-!
# Epoch elections

`LeaderElection` counts epochs in an atomic counter, keeps the last vote behind
one mutex and the tallies of its own elections behind another, and writes epoch
and vote to a file. None of the calls holds a lock from beginning to end, so a
call is cut here into the steps that are atomic in the source: an operation on
the counter, a section under a mutex, or the write of the file.
`handle_vote_request` keeps the mutex of the vote over several of them.

An `ElectionProcess` is an instance with its file and the calls in progress.
-/

namespace AionDb

open Std

abbrev NodeId := Nat
abbrev Epoch := Nat

structure Vote where
  epoch : Epoch
  candidate : NodeId
deriving DecidableEq

structure PersistedElection where
  currentEpoch : Epoch := 0
  votedFor : Option Vote := none

structure VoteTally where
  votesGranted : Finset NodeId
  votesDenied : Finset NodeId := ∅

def VoteTally.record (tally : VoteTally) (voterId : NodeId) (granted : Bool) : VoteTally :=
  if granted then { tally with votesGranted := insert voterId tally.votesGranted }
  else { tally with votesDenied := insert voterId tally.votesDenied }

inductive ElectionResult where
  | won (epoch : Epoch)
  | lost (epoch : Epoch) (winner : Option NodeId)
  | insufficientNodes
deriving DecidableEq

structure LeaderElection where
  nodeId : NodeId
  clusterSize : Nat
  currentEpoch : Epoch := 0
  votedFor : Option Vote := none
  voteTally : ExtTreeMap Epoch VoteTally := ∅

structure VoteRequest where
  epoch : Epoch
  candidateId : NodeId
  candidateLsn : Nat
  ownLsn : Nat
deriving DecidableEq

def PersistedElection.epoch (file : PersistedElection) : Epoch :=
  file.votedFor.elim file.currentEpoch fun v => max file.currentEpoch v.epoch

namespace LeaderElection

def withPersistence (nodeId : NodeId) (clusterSize : Nat) (file : PersistedElection) :
    LeaderElection :=
  { nodeId, clusterSize, currentEpoch := file.epoch, votedFor := file.votedFor }

variable (e : LeaderElection)

def nextElectionEpoch : LeaderElection :=
  { e with currentEpoch :=
      if e.currentEpoch < u64Max then e.currentEpoch + 1 else e.currentEpoch }

def raiseEpoch (epoch : Epoch) : LeaderElection :=
  { e with currentEpoch := max e.currentEpoch epoch }

def dropTallies (epoch : Epoch) : LeaderElection :=
  { e with voteTally := e.voteTally.filter fun round _ => decide (epoch ≤ round) }

def forgetVote (epoch : Epoch) : LeaderElection :=
  { e with votedFor := e.votedFor.filter fun v => decide (epoch ≤ v.epoch) }

def grants (req : VoteRequest) (current : Epoch) : Bool :=
  if req.epoch < current then false
  else if e.votedFor.any fun v => v.epoch = req.epoch && v.candidate ≠ req.candidateId then false
  else if req.candidateLsn = u64Max then false
  else decide (req.ownLsn ≤ req.candidateLsn)

def castVote (vote : Vote) : LeaderElection := { e with votedFor := some vote }

def openTally (epoch : Epoch) : LeaderElection :=
  { e with voteTally := e.voteTally.insert epoch { votesGranted := {e.nodeId} } }

def quorumSize : Nat := Quorum.size e.clusterSize

def recordVote (epoch : Epoch) (voterId : NodeId) (granted : Bool) :
    LeaderElection × Option ElectionResult :=
  if e.clusterSize = 0 then (e, some .insufficientNodes)
  else
    match e.voteTally[epoch]? with
    | none => (e, none)
    | some tally =>
      let tally := tally.record voterId granted
      let result :=
        if e.quorumSize ≤ tally.votesGranted.card then some (.won epoch)
        else if e.clusterSize - e.quorumSize < tally.votesDenied.card then
          some (.lost epoch none)
        else none
      ({ e with voteTally := e.voteTally.insert epoch tally }, result)

end LeaderElection

/-! ## Calls in progress -/

inductive ElectionGoal where
  | started (epoch : Epoch)
  | answered (req : VoteRequest) (granted : Bool)

def ElectionGoal.vote (node : NodeId) : ElectionGoal → Option Vote
  | started epoch => some ⟨epoch, node⟩
  | answered req granted => if granted then some ⟨req.epoch, req.candidateId⟩ else none

inductive ElectionOp where
  | startElection
  | handleVoteRequest (req : VoteRequest)
  | advanceEpoch (epoch : Epoch)

/-- Where a call is: in each case what it does next. -/
inductive ElectionCall where
  | begin (op : ElectionOp)
  | selfVote (epoch : Epoch)
  | advanceTallies (epoch : Epoch)
  | handleEpoch (req : VoteRequest) (localEpoch : Epoch)
  | handleTallies (req : VoteRequest)
  | handleCurrent (req : VoteRequest)
  | handleDecide (req : VoteRequest) (current : Epoch)
  | persistVote (goal : ElectionGoal)
  | persistEpoch (goal : ElectionGoal) (votedFor : Option Vote)
  | persistWrite (goal : ElectionGoal) (snapshot : PersistedElection)
  | finish (goal : ElectionGoal)

def ElectionCall.goal? : ElectionCall → Option ElectionGoal
  | persistVote goal | persistEpoch goal _ | persistWrite goal _ | finish goal => some goal
  | _ => none

structure ElectionProcess where
  election : LeaderElection
  file : PersistedElection := {}
  /-- The call that holds the mutex of the vote across steps. -/
  voteLock : Option Nat := none
  calls : ExtTreeMap Nat ElectionCall := ∅

namespace ElectionProcess

variable (p : ElectionProcess)

def goOn (id : Nat) (e : LeaderElection) (call : ElectionCall) : ElectionProcess :=
  { p with election := e, calls := p.calls.insert id call }

def endCall (id : Nat) (e : LeaderElection) : ElectionProcess :=
  { p with election := e, calls := p.calls.erase id }

def lockVote (id : Nat) : ElectionProcess := { p with voteLock := some id }

def unlockVote : ElectionProcess := { p with voteLock := none }

def writeFile (snapshot : PersistedElection) : ElectionProcess := { p with file := snapshot }

/-- The next step of a call; with the goal it has reached when that ends it. -/
def advance (id : Nat) : ElectionCall → Option (ElectionProcess × Option ElectionGoal)
  | .begin .startElection =>
    let e := p.election.nextElectionEpoch
    some (p.goOn id e (.selfVote e.currentEpoch), none)
  | .selfVote epoch =>
    -- the vote is overwritten, whatever it was
    if p.voteLock = none then
      some (p.goOn id (p.election.castVote ⟨epoch, p.election.nodeId⟩)
        (.persistVote (.started epoch)), none)
    else none
  | .begin (.advanceEpoch epoch) =>
    if p.election.currentEpoch < epoch then
      some (p.goOn id (p.election.raiseEpoch epoch) (.advanceTallies epoch), none)
    else some (p.endCall id p.election, none)
  | .advanceTallies epoch => some (p.endCall id (p.election.dropTallies epoch), none)
  | .begin (.handleVoteRequest req) =>
    if p.voteLock = none then
      some ((p.goOn id p.election (.handleEpoch req p.election.currentEpoch)).lockVote id, none)
    else none
  | .handleEpoch req localEpoch =>
    if localEpoch < req.epoch then
      -- the vote is behind the mutex this call holds: nobody sees when it is forgotten
      let e := (p.election.raiseEpoch req.epoch).forgetVote req.epoch
      if p.election.currentEpoch < req.epoch then some (p.goOn id e (.handleTallies req), none)
      else some (p.goOn id e (.handleCurrent req), none)
    else some (p.goOn id p.election (.handleCurrent req), none)
  | .handleTallies req =>
    some (p.goOn id (p.election.dropTallies req.epoch) (.handleCurrent req), none)
  | .handleCurrent req =>
    some (p.goOn id p.election (.handleDecide req p.election.currentEpoch), none)
  | .handleDecide req current =>
    let granted := p.election.grants req current
    let e := if granted then p.election.castVote ⟨req.epoch, req.candidateId⟩ else p.election
    some ((p.goOn id e (.persistVote (.answered req granted))).unlockVote, none)
  | .persistVote goal =>
    if p.voteLock = none then
      some (p.goOn id p.election (.persistEpoch goal p.election.votedFor), none)
    else none
  | .persistEpoch goal votedFor =>
    some (p.goOn id p.election
      (.persistWrite goal { currentEpoch := p.election.currentEpoch, votedFor }), none)
  | .persistWrite goal snapshot =>
    some ((p.goOn id p.election (.finish goal)).writeFile snapshot, none)
  | .finish (.started epoch) =>
    some (p.endCall id (p.election.openTally epoch), some (.started epoch))
  | .finish (.answered req granted) => some (p.endCall id p.election, some (.answered req granted))

def restart : ElectionProcess :=
  { election := .withPersistence p.election.nodeId p.election.clusterSize p.file
    file := p.file }

end ElectionProcess

end AionDb
