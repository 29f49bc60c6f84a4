import AionDb.HaRaftLog

/-!
# A Raft node and its files

A node keeps its term, its vote and its commit index in one file and its log in
another; each is replaced as a whole. A `RaftHost` is a node with what its two
files hold and with the outcomes of the saves to come: a save that fails may
have replaced the file or not. The operations are fallible actions on the host
and keep what was changed in memory before a failure, as the source does.
-/

namespace AionDb

open Std Effect

structure PersistentState where
  currentTerm : Nat := 0
  votedFor : Option NodeId := none
  commitIndex : Nat := 0

inductive RaftRole where
  | follower
  | candidate
  | leader
deriving DecidableEq

structure FollowerProgress where
  nextIndex : Nat
  matchIndex : Nat

structure RaftNode where
  nodeId : NodeId
  role : RaftRole := .follower
  state : PersistentState := {}
  log : RaftLog := {}
  lastApplied : Nat := 0
  followers : ExtTreeMap NodeId FollowerProgress := ∅
  clusterSize : Nat

structure AppendEntriesRequest where
  term : Nat
  leaderId : NodeId
  prevLogIndex : Nat
  prevLogTerm : Nat
  entries : List RaftEntry
  leaderCommit : Nat
deriving DecidableEq

structure AppendEntriesResponse where
  term : Nat
  nodeId : NodeId
  success : Bool
  matchIndex : Nat
deriving DecidableEq

def nextTerm (term : Nat) (operation : String) : DbResult Nat :=
  match checkedAdd term 1 with
  | some next => .ok next
  | none => .error (.internalMsg s!"{operation}: term overflow")

/-! ## The host -/

structure RaftDisk where
  state : PersistentState := {}
  log : List RaftEntry := []

/-- A failed save has left the old file, or the new one. -/
inductive SaveFault where
  | lost (error : DbError)
  | late (error : DbError)

structure RaftHost where
  node : RaftNode
  disk : RaftDisk := {}
  faults : List (Option SaveFault) := []

abbrev RaftOp := Eff RaftHost DbError

namespace RaftNode

variable (node : RaftNode)

def currentTerm : Nat := node.state.currentTerm

def commitIndex : Nat := node.state.commitIndex

def respond (success : Bool) : AppendEntriesResponse :=
  { term := node.currentTerm, nodeId := node.nodeId, success, matchIndex := node.log.lastIndex }

def candidateLogIsUpToDate (candidateLastLogTerm candidateLastLogIndex : Nat) : Bool :=
  if candidateLastLogTerm ≠ node.log.lastTerm then
    decide (node.log.lastTerm < candidateLastLogTerm)
  else decide (node.log.lastIndex ≤ candidateLastLogIndex)

def logIsConsistent (req : AppendEntriesRequest) : Bool :=
  if 0 < req.prevLogIndex then
    if node.log.lastIndex < req.prevLogIndex then false
    else decide (node.log.termAt req.prevLogIndex = req.prevLogTerm)
  else true

def canCommit (n : Nat) : Bool :=
  decide (node.log.termAt n = node.currentTerm) &&
    decide (Quorum.size node.clusterSize ≤
      (node.followers.toList.filter fun p => decide (n ≤ p.2.matchIndex)).length + 1)

def buildAppendEntriesRequests : List (NodeId × AppendEntriesRequest) :=
  if node.role ≠ .leader then []
  else node.followers.toList.map fun (peerId, progress) =>
    (peerId,
      { term := node.currentTerm
        leaderId := node.nodeId
        prevLogIndex := progress.nextIndex - 1
        prevLogTerm := node.log.termAt (progress.nextIndex - 1)
        entries := node.log.entriesFrom progress.nextIndex
        leaderCommit := node.commitIndex })

def unappliedEntries : List RaftEntry :=
  match checkedAdd node.lastApplied 1 with
  | none => []
  | some start =>
    if node.commitIndex < start then []
    else (node.log.entriesFrom start).filter fun e => decide (e.index ≤ node.commitIndex)

def markApplied (index : Nat) : RaftNode :=
  if node.lastApplied < index then { node with lastApplied := index } else node

end RaftNode

namespace RaftHost

def setState (state : PersistentState) (h : RaftHost) : RaftHost :=
  { h with node := { h.node with state } }

def setLog (log : RaftLog) (h : RaftHost) : RaftHost := { h with node := { h.node with log } }

def setRole (role : RaftRole) (h : RaftHost) : RaftHost := { h with node := { h.node with role } }

def setFollowers (followers : ExtTreeMap NodeId FollowerProgress) (h : RaftHost) : RaftHost :=
  { h with node := { h.node with followers } }

def setDisk (disk : RaftDisk) (h : RaftHost) : RaftHost := { h with disk }

def dropFault (h : RaftHost) : RaftHost := { h with faults := h.faults.tail }

def stateWritten (h : RaftHost) : RaftHost := h.setDisk { h.disk with state := h.node.state }

def logWritten (h : RaftHost) : RaftHost := h.setDisk { h.disk with log := h.node.log.entries }

end RaftHost

namespace RaftOp

def saveFile (write : RaftHost → RaftHost) : RaftOp Unit := fun h =>
  match h.faults.head?.join with
  | none => (.ok (), (write h).dropFault)
  | some (.lost error) => (.error error, h.dropFault)
  | some (.late error) => (.error error, (write h).dropFault)

/-- A save goes through, is lost, or is made and reported as failed. -/
theorem spec_saveFile {write : RaftHost → RaftHost} {h : RaftHost} {Q : Unit → RaftHost → Prop}
    {E : RaftHost → Prop} (hok : h.faults.head?.join = none → Q () (write h).dropFault)
    (hlost : h.faults.head?.join ≠ none → E h.dropFault)
    (hlate : h.faults.head?.join ≠ none → E (write h).dropFault) : Spec (saveFile write) h Q E := by
  unfold Spec saveFile
  match hf : h.faults.head?.join with
  | none => exact hok hf
  | some (.lost e) => exact hlost (by simp [hf])
  | some (.late e) => exact hlate (by simp [hf])

theorem spec_lift {I : RaftHost → Prop} {h : RaftHost} {α : Type} {r : DbResult α} (hh : I h) :
    Spec (liftM r : RaftOp α) h (fun _ => I) I := spec_liftExcept (fun _ _ => hh) hh

def save : RaftOp Unit := saveFile RaftHost.stateWritten

def persist : RaftOp Unit := saveFile RaftHost.logWritten

/-! ## The persistent state -/

def advanceTerm (newTerm : Nat) : RaftOp Bool := do
  let state := (← get).node.state
  if newTerm ≤ state.currentTerm then pure false
  else do
    modify (·.setState { state with currentTerm := newTerm, votedFor := none })
    save
    pure true

def voteFor (candidate : NodeId) : RaftOp Unit := do
  let state := (← get).node.state
  modify (·.setState { state with votedFor := some candidate })
  save

def setCommitIndex (index : Nat) : RaftOp Unit := do
  let state := (← get).node.state
  if state.commitIndex < index then do
    modify (·.setState { state with commitIndex := index })
    save
  else pure ()

/-! ## Roles -/

def tryAdvanceCommitIndex : RaftOp Unit := do
  let node := (← get).node
  if node.log.lastIndex ≤ node.commitIndex then pure ()
  else do
    let start ← nextLogIndex node.commitIndex "Raft commit advancement"
    (List.range' start (node.log.lastIndex + 1 - start)).forM fun n =>
      if node.canCommit n then setCommitIndex n else pure ()

def becomeLeader (peerIds : List NodeId) : RaftOp Unit := do
  let next ← nextLogIndex (← get).node.log.lastIndex "Raft leader initialization"
  modify (·.setRole .leader)
  modify (·.setFollowers (peerIds.foldl (fun m peer => m.insert peer ⟨next, 0⟩) ∅))
  tryAdvanceCommitIndex

def becomeFollower (newTerm : Nat) : RaftOp Unit := do
  let _ ← advanceTerm newTerm
  modify (·.setRole .follower)
  modify (·.setFollowers ∅)

def becomeCandidate : RaftOp Nat := do
  let newTerm ← nextTerm (← get).node.currentTerm "Raft election"
  let _ ← advanceTerm newTerm
  voteFor (← get).node.nodeId
  modify (·.setRole .candidate)
  pure newTerm

def becomeFollowerIf (due : Bool) (newTerm : Nat) : RaftOp Unit :=
  if due then becomeFollower newTerm else pure ()

/-! ## Messages -/

def handleVoteRequest (candidateTerm : Nat) (candidateId : NodeId)
    (candidateLastLogIndex candidateLastLogTerm : Nat) : RaftOp (Bool × Nat) := do
  becomeFollowerIf ((← get).node.currentTerm < candidateTerm) candidateTerm
  let node := (← get).node
  if candidateTerm < node.currentTerm then pure (false, node.currentTerm)
  else if node.state.votedFor.any (· ≠ candidateId) then pure (false, node.currentTerm)
  else if !node.candidateLogIsUpToDate candidateLastLogTerm candidateLastLogIndex then
    pure (false, node.currentTerm)
  else do
    voteFor candidateId
    pure (true, (← get).node.currentTerm)

def appendEntries (req : AppendEntriesRequest) : RaftOp Unit :=
  if req.entries.isEmpty then pure ()
  else do
    let log ← (← get).node.log.appendEntriesChecked req.prevLogIndex req.entries
    modify (·.setLog log)
    persist

def followCommit (leaderCommit : Nat) : RaftOp Unit := do
  let node := (← get).node
  if node.commitIndex < leaderCommit then setCommitIndex (min leaderCommit node.log.lastIndex)
  else pure ()

def handleAppendEntries (req : AppendEntriesRequest) : RaftOp AppendEntriesResponse := do
  let node := (← get).node
  becomeFollowerIf
    (node.currentTerm < req.term || (req.term = node.currentTerm && node.role ≠ .follower)) req.term
  let node := (← get).node
  if req.term < node.currentTerm then pure (node.respond false)
  else if !node.logIsConsistent req then pure (node.respond false)
  else do
    appendEntries req
    followCommit req.leaderCommit
    pure ((← get).node.respond true)

def noteMatch (peer : NodeId) (progress : FollowerProgress) (matchIndex : Nat) : RaftOp Unit :=
  if progress.matchIndex < matchIndex then do
    let nextIndex ← nextLogIndex matchIndex "Raft follower progress"
    modify fun h => h.setFollowers (h.node.followers.insert peer { nextIndex, matchIndex })
  else pure ()

def handleAppendEntriesResponse (resp : AppendEntriesResponse) : RaftOp Unit := do
  let node := (← get).node
  if node.currentTerm < resp.term then becomeFollower resp.term
  else if node.role ≠ .leader then pure ()
  else
    match node.followers[resp.nodeId]? with
    | none => pure ()
    | some progress =>
      if resp.success then do
        noteMatch resp.nodeId progress resp.matchIndex
        tryAdvanceCommitIndex
      else
        modify (·.setFollowers (node.followers.insert resp.nodeId
          { progress with nextIndex := max (progress.nextIndex - 1) 1 }))

def append (term : Nat) (command : RaftCommand) : RaftOp Nat := do
  let (index, log) ← (← get).node.log.push term command
  modify (·.setLog log)
  persist
  pure index

def propose (command : RaftCommand) : RaftOp Nat := do
  let node := (← get).node
  if node.role ≠ .leader then
    throw (.internalMsg "only the Raft leader can propose commands")
  else do
    let index ← append node.currentTerm command
    tryAdvanceCommitIndex
    pure index

end RaftOp

/-! ## What is kept -/

/-- Kept by a new term, by a higher commit index and by the write of the state file; roles,
followers and faults do not matter. -/
structure RaftHost.Stable (I : RaftHost → Prop) : Prop where
  same : ∀ {h h' : RaftHost}, I h → h'.node.nodeId = h.node.nodeId → h'.node.state = h.node.state →
    h'.node.log = h.node.log → h'.node.lastApplied = h.node.lastApplied → h'.disk = h.disk → I h'
  term : ∀ {h t}, I h → h.node.currentTerm < t →
    I (h.setState { h.node.state with currentTerm := t, votedFor := none })
  commit : ∀ {h k}, I h → h.node.commitIndex < k →
    I (h.setState { h.node.state with commitIndex := k })
  written : ∀ {h}, I h → I h.stateWritten

namespace RaftHost.Stable

open RaftOp

variable {I : RaftHost → Prop} (hI : Stable I) {h : RaftHost} (hh : I h)
include hI hh

theorem save : Spec save h (fun _ => I) I := by
  have hdrop {h : RaftHost} (hh : I h) : I h.dropFault := hI.same hh rfl rfl rfl rfl rfl
  exact spec_saveFile (fun _ => hdrop (hI.written hh)) (fun _ => hdrop hh)
    fun _ => hdrop (hI.written hh)

theorem advanceTerm (t : Nat) : Spec (advanceTerm t) h (fun _ => I) I :=
  spec_get_bind (spec_ite (fun _ => spec_pure hh) fun hlt => spec_modify_bind (spec_bind
    (hI.save (hI.term hh (Nat.not_le.mp hlt))) fun _ _ hh' => spec_pure hh'))

theorem setCommitIndex (k : Nat) : Spec (setCommitIndex k) h (fun _ => I) I :=
  spec_get_bind (spec_ite (fun hlt => spec_modify_bind (hI.save (hI.commit hh hlt)))
    fun _ => spec_pure hh)

theorem tryAdvanceCommitIndex : Spec tryAdvanceCommitIndex h (fun _ => I) I := by
  refine spec_get_bind (spec_ite (fun _ => spec_pure hh) fun _ => spec_bind (spec_lift hh) ?_)
  refine fun start h' hh' => spec_forM _ (fun n _ h'' hh'' => ?_) hh'
  exact spec_ite (fun _ => hI.setCommitIndex hh'' n) fun _ => spec_pure hh''

theorem becomeFollower (t : Nat) : Spec (becomeFollower t) h (fun _ => I) I :=
  spec_bind (hI.advanceTerm hh t) fun _ _ hh' =>
    spec_modify_bind (spec_modify (hI.same hh' rfl rfl rfl rfl rfl))

theorem becomeFollowerIf (due : Bool) (t : Nat) : Spec (becomeFollowerIf due t) h (fun _ => I) I :=
  spec_ite (fun _ => hI.becomeFollower hh t) fun _ => spec_pure hh

theorem becomeLeader (peerIds : List NodeId) : Spec (becomeLeader peerIds) h (fun _ => I) I :=
  spec_get_bind (spec_bind (spec_lift hh) fun _ _ hh' => spec_modify_bind (spec_modify_bind
    (hI.tryAdvanceCommitIndex (hI.same hh' rfl rfl rfl rfl rfl))))

theorem followCommit (leaderCommit : Nat) : Spec (followCommit leaderCommit) h (fun _ => I) I :=
  spec_get_bind (spec_ite (fun _ => hI.setCommitIndex hh _) fun _ => spec_pure hh)

theorem handleAppendEntriesResponse (resp : AppendEntriesResponse) :
    Spec (handleAppendEntriesResponse resp) h (fun _ => I) I := by
  refine spec_get_bind (spec_ite (fun _ => hI.becomeFollower hh _) fun _ => ?_)
  refine spec_ite (fun _ => spec_pure hh) fun _ => ?_
  cases h.node.followers[resp.nodeId]? with
  | none => exact spec_pure hh
  | some progress =>
    refine spec_ite (fun _ => ?_) fun _ => spec_modify (hI.same hh rfl rfl rfl rfl rfl)
    refine spec_bind (Q := fun _ => I) ?_ fun _ _ hh' => hI.tryAdvanceCommitIndex hh'
    refine spec_ite (fun _ => ?_) fun _ => spec_pure hh
    exact spec_bind (spec_lift hh) fun _ _ hh' => spec_modify (hI.same hh' rfl rfl rfl rfl rfl)

end RaftHost.Stable

/-! ## Start -/

def RaftHost.openDir (nodeId : NodeId) (clusterSize : Nat) (disk : RaftDisk) : DbResult RaftHost := do
  let log ← RaftLog.openFile disk.log
  if log.lastIndex < disk.state.commitIndex then
    .error (.internalMsg
      s!"Raft state commit index {disk.state.commitIndex} is beyond local log end {log.lastIndex}")
  else pure { node := { nodeId, clusterSize, state := disk.state, log }, disk }

def RaftHost.fresh (nodeId : NodeId) (clusterSize : Nat) : RaftHost :=
  { node := { nodeId, clusterSize } }

/-! ## Calls -/

inductive RaftCall where
  | becomeCandidate
  | becomeFollower (newTerm : Nat)
  | becomeLeader (peerIds : List NodeId)
  | handleVoteRequest (candidateTerm : Nat) (candidateId : NodeId)
      (candidateLastLogIndex candidateLastLogTerm : Nat)
  | handleAppendEntries (req : AppendEntriesRequest)
  | handleAppendEntriesResponse (resp : AppendEntriesResponse)
  | propose (command : RaftCommand)
  | markApplied (index : Nat)

inductive RaftReply where
  | done
  | standing (term : Nat)
  | vote (granted : Bool) (term : Nat)
  | appended (resp : AppendEntriesResponse)
  | proposed (index : Nat)

def RaftCall.exec : RaftCall → RaftOp RaftReply
  | becomeCandidate => do
    let term ← RaftOp.becomeCandidate
    pure (.standing term)
  | becomeFollower newTerm => do
    RaftOp.becomeFollower newTerm
    pure .done
  | becomeLeader peerIds => do
    RaftOp.becomeLeader peerIds
    pure .done
  | handleVoteRequest candidateTerm candidateId lastLogIndex lastLogTerm => do
    let (granted, term) ←
      RaftOp.handleVoteRequest candidateTerm candidateId lastLogIndex lastLogTerm
    pure (.vote granted term)
  | handleAppendEntries req => do
    let resp ← RaftOp.handleAppendEntries req
    pure (.appended resp)
  | handleAppendEntriesResponse resp => do
    RaftOp.handleAppendEntriesResponse resp
    pure .done
  | propose command => do
    let index ← RaftOp.propose command
    pure (.proposed index)
  | markApplied index => do
    modify fun h => { h with node := h.node.markApplied index }
    pure .done

end AionDb
