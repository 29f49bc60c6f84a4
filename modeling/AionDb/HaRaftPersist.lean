import AionDb.HaRaftNode

/-!
# What a failed save leaves in memory

Every operation changes the node in memory first and saves then, and none of
them undoes the change when the save fails. So a failed save leaves no trace
only where the file would have been given what memory already held.
-/

namespace AionDb

open Effect

def RaftHost.SameMemory (h h' : RaftHost) : Prop :=
  h'.node.state = h.node.state ∧ h'.node.log = h.node.log

/-- Before its first save that fails, the call puts nothing new into memory. -/
def RaftCall.Idle (h : RaftHost) : RaftCall → Prop
  | handleVoteRequest candidateTerm _ lastLogIndex lastLogTerm =>
    candidateTerm ≤ h.node.currentTerm ∧ (candidateTerm = h.node.currentTerm →
      h.node.state.votedFor ≠ none ∨ h.node.candidateLogIsUpToDate lastLogTerm lastLogIndex = false)
  | handleAppendEntries req =>
    req.term ≤ h.node.currentTerm ∧ (req.term = h.node.currentTerm →
      h.node.logIsConsistent req = false ∨
        (∀ log, h.node.log.appendEntriesChecked req.prevLogIndex req.entries = .ok log →
          log = h.node.log) ∧
        (min req.leaderCommit h.node.log.lastIndex ≤ h.node.commitIndex ∨
          req.entries ≠ [] ∧ h.faults.head?.join ≠ none))
  | propose _ => h.node.role ≠ .leader
  -- the new term of a candidate is in memory before the first save
  | _ => False

namespace RaftOp

open RaftHost (SameMemory)

variable {h₀ h : RaftHost}

theorem saveFile_sameMemory {write : RaftHost → RaftHost} (hs : SameMemory h₀ h)
    (hw : (write h).node = h.node) :
    Spec (saveFile write) h (fun _ h' => SameMemory h₀ h' ∧ h.faults.head?.join = none)
      (SameMemory h₀) := by
  have hs' : SameMemory h₀ (write h).dropFault := by
    unfold SameMemory RaftHost.dropFault
    rw [hw]
    exact hs
  exact spec_saveFile (fun hok => ⟨hs', hok⟩) (fun _ => hs) fun _ => hs'

theorem becomeFollowerIf_sameMemory {due : Bool} {t : Nat} (ht : t ≤ h.node.currentTerm) :
    Spec (becomeFollowerIf due t) h
      (fun _ h' => SameMemory h h' ∧ h'.faults = h.faults) (SameMemory h) := by
  have hterm : Spec (advanceTerm t) h (fun _ h' => h' = h) (SameMemory h) :=
    spec_get_bind (spec_ite (fun _ => spec_pure rfl) fun hlt => absurd ht hlt)
  refine spec_ite (fun _ => spec_bind hterm ?_) fun _ => spec_pure ⟨⟨rfl, rfl⟩, rfl⟩
  rintro _ _ rfl
  exact ⟨⟨rfl, rfl⟩, rfl⟩

theorem voteFor_sameMemory {candidate : NodeId} (hv : h.node.state.votedFor = some candidate) :
    Spec (voteFor candidate) h (fun _ _ => True) (SameMemory h) := by
  have hs : SameMemory h (h.setState { h.node.state with votedFor := some candidate }) :=
    ⟨by rw [← hv]; rfl, rfl⟩
  exact spec_get_bind (spec_modify_bind (spec_mono (saveFile_sameMemory hs rfl)
    (fun _ _ _ => trivial) fun _ hs' => hs'))

theorem handleVoteRequest_sameMemory {t lastIndex lastTerm : Nat} {candidate : NodeId}
    (hidle : (RaftCall.handleVoteRequest t candidate lastIndex lastTerm).Idle h) :
    Spec (handleVoteRequest t candidate lastIndex lastTerm) h (fun _ _ => True) (SameMemory h) := by
  obtain ⟨hle, hidle⟩ := hidle
  refine spec_get_bind (spec_bind (becomeFollowerIf_sameMemory hle) ?_)
  rintro _ h1 ⟨hs1, -⟩
  have hterm : h1.node.currentTerm = h.node.currentTerm := congrArg PersistentState.currentTerm hs1.1
  refine spec_get_bind (spec_ite (fun _ => trivial) fun hge => spec_ite (fun _ => trivial)
    fun hother => spec_ite (fun _ => trivial) fun hfresh => spec_bind (Q := fun _ _ => True) ?_
      fun _ _ _ => trivial)
  rcases hidle (by omega) with hvoted | hold
  · -- the vote is the one in memory, as any other would have been refused
    obtain ⟨c, hc⟩ := Option.ne_none_iff_exists'.mp hvoted
    rw [← hs1.1] at hc
    rw [hc] at hother
    obtain rfl : c = candidate := by simpa using hother
    refine spec_mono (voteFor_sameMemory hc) (fun _ _ _ => trivial) fun h2 hs2 => ?_
    exact ⟨hs2.1.trans hs1.1, hs2.2.trans hs1.2⟩
  · unfold RaftNode.candidateLogIsUpToDate at hold hfresh
    rw [hs1.2, hold] at hfresh
    exact absurd rfl hfresh

theorem appendEntries_sameMemory {req : AppendEntriesRequest} (hs : SameMemory h₀ h)
    (hlog : ∀ log, h.node.log.appendEntriesChecked req.prevLogIndex req.entries = .ok log →
      log = h.node.log) :
    Spec (appendEntries req) h
      (fun _ h' => SameMemory h₀ h' ∧ (req.entries = [] ∨ h.faults.head?.join = none))
      (SameMemory h₀) := by
  refine spec_ite (fun hnil => spec_pure ⟨hs, Or.inl (List.isEmpty_iff.mp hnil)⟩) fun _ => ?_
  refine spec_get_bind (spec_bind (spec_liftExcept (Q := fun log h' => h' = h ∧ log = h.node.log)
    (fun log hok => ⟨rfl, hlog log hok⟩) hs) ?_)
  rintro log h' ⟨rfl, rfl⟩
  exact spec_modify_bind (spec_mono (saveFile_sameMemory hs rfl)
    (fun _ _ hs' => ⟨hs'.1, Or.inr hs'.2⟩) fun _ hs' => hs')

theorem followCommit_sameMemory {leaderCommit : Nat}
    (hle : min leaderCommit h.node.log.lastIndex ≤ h.node.commitIndex) :
    Spec (followCommit leaderCommit) h (fun _ _ => True) (SameMemory h) :=
  spec_get_bind (spec_ite (fun _ => spec_get_bind (spec_ite
    (fun hlt => absurd hle (Nat.not_le_of_lt hlt)) fun _ => trivial)) fun _ => trivial)

theorem handleAppendEntries_sameMemory {req : AppendEntriesRequest}
    (hidle : (RaftCall.handleAppendEntries req).Idle h) :
    Spec (handleAppendEntries req) h (fun _ _ => True) (SameMemory h) := by
  obtain ⟨hle, hidle⟩ := hidle
  refine spec_get_bind (spec_bind (becomeFollowerIf_sameMemory hle) ?_)
  rintro _ h1 ⟨hs1, hfaults⟩
  have hterm : h1.node.currentTerm = h.node.currentTerm := congrArg PersistentState.currentTerm hs1.1
  refine spec_get_bind (spec_ite (fun _ => trivial) fun hge => spec_ite (fun _ => trivial)
    fun hcons => ?_)
  rcases hidle (by omega) with hno | ⟨hheld, hcommit⟩
  · unfold RaftNode.logIsConsistent at hno hcons
    rw [hs1.2, hno] at hcons
    exact absurd rfl hcons
  · refine spec_bind (appendEntries_sameMemory hs1 (hs1.2 ▸ hheld)) ?_
    rintro _ h2 ⟨hs2, hsaved⟩
    -- the log was saved, so the commit index is not to move
    have hstay : min req.leaderCommit h.node.log.lastIndex ≤ h.node.commitIndex := by
      rcases hcommit with hstay | ⟨hne, hfault⟩
      · exact hstay
      · rcases hsaved with hnil | hok
        · exact absurd hnil hne
        · exact absurd (hfaults ▸ hok) hfault
    have hstay2 : min req.leaderCommit h2.node.log.lastIndex ≤ h2.node.commitIndex := by
      unfold RaftNode.commitIndex
      rw [hs2.1, hs2.2]
      exact hstay
    refine spec_bind (spec_mono (followCommit_sameMemory hstay2) (fun _ _ _ => trivial)
      fun h3 hs3 => ?_) fun _ _ _ => trivial
    exact ⟨hs3.1.trans hs2.1, hs3.2.trans hs2.2⟩

end RaftOp

def RaftHost.failing (node : RaftNode) : RaftHost :=
  { node, faults := [some (.lost (.internalMsg "disk full"))] }

end AionDb
