import AionDb.HaRaftNode
import AionDb.LibRun

/-!
# One winner for every Raft term

Every call on a host, with any outcome of its saves, takes term and vote
forward: `Ahead a b` says that `b` is of a later term than `a`, or of the same
term with the vote of `a` still in place. What is on disk is behind what is in
memory, so a restart does not go back beyond what was saved; and a vote is
handed out only after it is on disk.
-/

namespace AionDb

open Effect

namespace PersistentState

def Ahead (a b : PersistentState) : Prop :=
  a.currentTerm < b.currentTerm ∨
    a.currentTerm = b.currentTerm ∧ (a.votedFor = none ∨ a.votedFor = b.votedFor)

theorem Ahead.refl (a : PersistentState) : Ahead a a := Or.inr ⟨rfl, Or.inr rfl⟩

theorem Ahead.trans {a b c : PersistentState} (h1 : Ahead a b) (h2 : Ahead b c) : Ahead a c := by
  rcases h1 with h1 | ⟨h1, v1⟩ <;> rcases h2 with h2 | ⟨h2, v2⟩
  · exact Or.inl (h1.trans h2)
  · exact Or.inl (h2 ▸ h1)
  · exact Or.inl (h1 ▸ h2)
  · refine Or.inr ⟨h1.trans h2, ?_⟩
    rcases v1 with v1 | v1
    · exact Or.inl v1
    · rcases v2 with v2 | v2
      · exact Or.inl (v1.trans v2)
      · exact Or.inr (v1.trans v2)

theorem ahead_commit (a : PersistentState) (index : Nat) :
    Ahead a { a with commitIndex := index } := Ahead.refl a

theorem ahead_vote {a : PersistentState} {candidate : NodeId}
    (h : a.votedFor.any (· ≠ candidate) = false) : Ahead a { a with votedFor := some candidate } := by
  refine Or.inr ⟨rfl, ?_⟩
  cases hv : a.votedFor with
  | none => exact Or.inl rfl
  | some c =>
    rw [hv] at h
    simp only [Option.any_some, decide_eq_false_iff_not, not_not] at h
    exact Or.inr (h ▸ rfl)

end PersistentState

/-! ## Calls on a host -/

structure RaftHost.Forward (nodeId : NodeId) (saved : PersistentState) (h : RaftHost) : Prop where
  node : h.node.nodeId = nodeId
  disk : saved.Ahead h.disk.state
  memory : h.disk.state.Ahead h.node.state

def RaftHost.Recorded (term : Nat) (candidate : NodeId) (h : RaftHost) : Prop :=
  h.disk.state.currentTerm = term ∧ h.disk.state.votedFor = some candidate

namespace RaftHost.Forward

variable {nodeId : NodeId} {saved : PersistentState} {h : RaftHost}

section

variable (hf : Forward nodeId saved h)
include hf

theorem of_eq {h' : RaftHost} (hid : h'.node.nodeId = h.node.nodeId)
    (hdisk : h'.disk.state = h.disk.state) (hstate : h'.node.state = h.node.state) :
    Forward nodeId saved h' :=
  ⟨hid.trans hf.node, hdisk ▸ hf.disk, by rw [hdisk, hstate]; exact hf.memory⟩

theorem setState {state : PersistentState} (hs : h.node.state.Ahead state) :
    Forward nodeId saved (h.setState state) :=
  ⟨hf.node, hf.disk, hf.memory.trans hs⟩

theorem dropFault : Forward nodeId saved h.dropFault :=
  hf.of_eq rfl rfl rfl

theorem stateWritten : Forward nodeId saved h.stateWritten :=
  ⟨hf.node, hf.disk.trans hf.memory, .refl _⟩

end

theorem stable : Stable (Forward nodeId saved) where
  same hf hid hstate _ _ hdisk := hf.of_eq hid (by rw [hdisk]) hstate
  term hf hlt := hf.setState (.inl hlt)
  commit hf _ := hf.setState (PersistentState.ahead_commit ..)
  written := stateWritten

end RaftHost.Forward

namespace RaftOp

open RaftHost (Forward Recorded)

variable {nodeId : NodeId} {saved : PersistentState} {h : RaftHost}

theorem save_spec (hf : Forward nodeId saved h) :
    Spec save h (fun _ h' => Forward nodeId saved h' ∧ h'.disk.state = h.node.state ∧
      h'.node = h.node) (Forward nodeId saved) :=
  spec_saveFile (fun _ => ⟨hf.stateWritten.dropFault, rfl, rfl⟩) (fun _ => hf.dropFault)
    fun _ => hf.stateWritten.dropFault

theorem persist_forward (hf : Forward nodeId saved h) :
    Spec persist h (fun _ => Forward nodeId saved) (Forward nodeId saved) := by
  have hw : Forward nodeId saved h.logWritten := hf.of_eq rfl rfl rfl
  exact spec_saveFile (fun _ => hw.dropFault) (fun _ => hf.dropFault) fun _ => hw.dropFault

variable {candidate : NodeId} {term : Nat}

section

variable (hf : Forward nodeId saved h)
include hf

theorem advanceTerm_spec :
    Spec (advanceTerm term) h
      (fun _ h' => Forward nodeId saved h' ∧ (h.node.currentTerm < term →
        h'.node.currentTerm = term ∧ h'.node.state.votedFor = none))
      (Forward nodeId saved) := by
  refine spec_get_bind (spec_ite (fun hle => ?_) fun hlt => ?_)
  · exact spec_pure ⟨hf, fun hlt => absurd hle (Nat.not_le.mpr hlt)⟩
  have hset : Forward nodeId saved (h.setState
      { h.node.state with currentTerm := term, votedFor := none }) :=
    hf.setState (Or.inl (Nat.not_le.mp hlt))
  refine spec_modify_bind (spec_bind (save_spec hset) fun _ h' hsaved => spec_pure ?_)
  obtain ⟨hf', -, hnode⟩ := hsaved
  exact ⟨hf', fun _ => by rw [hnode]; exact ⟨rfl, rfl⟩⟩

theorem voteFor_spec (hfree : h.node.state.votedFor.any (· ≠ candidate) = false) :
    Spec (voteFor candidate) h
      (fun _ h' => Forward nodeId saved h' ∧ h'.Recorded h.node.currentTerm candidate ∧
        h'.node.currentTerm = h.node.currentTerm)
      (Forward nodeId saved) := by
  have hset : Forward nodeId saved (h.setState { h.node.state with votedFor := some candidate }) :=
    hf.setState (PersistentState.ahead_vote hfree)
  refine spec_get_bind (spec_modify_bind (spec_mono (save_spec hset) (fun _ h' hsaved => ?_)
    fun _ hf' => hf'))
  obtain ⟨hf', hdisk, hnode⟩ := hsaved
  refine ⟨hf', ?_, by rw [hnode]; rfl⟩
  rw [Recorded, hdisk]
  exact ⟨rfl, rfl⟩

theorem becomeCandidate_spec :
    Spec becomeCandidate h (fun term h' => Forward nodeId saved h' ∧ h'.Recorded term nodeId)
      (Forward nodeId saved) := by
  refine spec_get_bind (spec_bind
    (spec_liftExcept (Q := fun term h' => h' = h ∧ h.node.currentTerm < term) ?_ hf) ?_)
  · intro term hterm
    unfold nextTerm at hterm
    split at hterm
    · next next hnext =>
      cases hterm
      obtain ⟨-, rfl⟩ := checkedAdd_eq_some.mp hnext
      exact ⟨rfl, Nat.lt_succ_self _⟩
    · cases hterm
  · rintro term h' ⟨rfl, hlt⟩
    refine spec_bind (advanceTerm_spec hf) fun _ h1 hadv => ?_
    obtain ⟨hf1, hnew⟩ := hadv
    obtain ⟨hterm, hvote⟩ := hnew hlt
    refine spec_get_bind (spec_bind (voteFor_spec hf1 (by rw [hvote]; rfl)) fun _ h2 hvoted => ?_)
    obtain ⟨hf2, hrec, -⟩ := hvoted
    rw [hterm, hf1.node] at hrec
    exact spec_modify_bind (spec_pure ⟨hf2.of_eq rfl rfl rfl, hrec⟩)

theorem handleVoteRequest_spec {lastIndex lastTerm : Nat} :
    Spec (handleVoteRequest term candidate lastIndex lastTerm) h
      (fun reply h' => Forward nodeId saved h' ∧ (reply.1 = true → h'.Recorded term candidate))
      (Forward nodeId saved) := by
  refine spec_get_bind (spec_bind
    (Q := fun _ h' => Forward nodeId saved h' ∧ term ≤ h'.node.currentTerm) ?_ ?_)
  · refine spec_ite (fun hlt => spec_bind (advanceTerm_spec hf) fun _ h1 hadv => ?_) fun hle => ?_
    · obtain ⟨hf1, hnew⟩ := hadv
      obtain ⟨hterm, -⟩ := hnew (of_decide_eq_true hlt)
      exact spec_modify_bind (spec_modify ⟨hf1.of_eq rfl rfl rfl, Nat.le_of_eq hterm.symm⟩)
    · exact spec_pure ⟨hf, Nat.not_lt.mp fun hlt => hle (decide_eq_true hlt)⟩
  · rintro _ h1 ⟨hf1, hle⟩
    refine spec_get_bind (spec_ite (fun _ => spec_pure ⟨hf1, nofun⟩) fun hge => ?_)
    refine spec_ite (fun _ => spec_pure ⟨hf1, nofun⟩) fun hfree => ?_
    refine spec_ite (fun _ => spec_pure ⟨hf1, nofun⟩) fun _ => ?_
    refine spec_bind (voteFor_spec hf1 (Bool.not_eq_true _ ▸ hfree)) fun _ h2 hvoted => ?_
    obtain ⟨hf2, hrec, -⟩ := hvoted
    rw [Nat.le_antisymm (Nat.not_lt.mp hge) hle] at hrec
    exact spec_get_bind (spec_pure ⟨hf2, fun _ => hrec⟩)

theorem handleAppendEntries_spec {req : AppendEntriesRequest} :
    Spec (handleAppendEntries req) h (fun _ => Forward nodeId saved) (Forward nodeId saved) := by
  refine spec_get_bind (spec_bind (Forward.stable.becomeFollowerIf hf _ _) fun _ h1 hf1 => spec_get_bind ?_)
  refine spec_ite (fun _ => spec_pure hf1) fun _ => spec_ite (fun _ => spec_pure hf1) fun _ => ?_
  have happend : Spec (appendEntries req) h1 (fun _ => Forward nodeId saved)
      (Forward nodeId saved) :=
    spec_ite (fun _ => spec_pure hf1) fun _ => spec_get_bind (spec_bind (spec_lift hf1)
      fun log h2 hf2 => spec_modify_bind (persist_forward (hf2.of_eq rfl rfl rfl)))
  refine spec_bind happend fun _ h2 hf2 => spec_bind (Forward.stable.followCommit hf2 _) ?_
  exact fun _ h3 hf3 => spec_get_bind (spec_pure hf3)

theorem propose_spec {command : RaftCommand} :
    Spec (propose command) h (fun _ => Forward nodeId saved) (Forward nodeId saved) := by
  refine spec_get_bind (spec_ite (fun _ => hf) fun _ => ?_)
  have happend : Spec (append h.node.currentTerm command) h (fun _ => Forward nodeId saved)
      (Forward nodeId saved) := by
    refine spec_get_bind (spec_bind (spec_lift hf) ?_)
    rintro ⟨index, log⟩ h1 hf1
    exact spec_modify_bind (spec_bind (persist_forward (hf1.of_eq rfl rfl rfl))
      fun _ _ hf2 => spec_pure hf2)
  refine spec_bind happend fun _ h1 hf1 => ?_
  exact spec_bind (Forward.stable.tryAdvanceCommitIndex hf1) fun _ _ hf2 => spec_pure hf2

end

end RaftOp

/-! ## Votes handed out -/

structure Ballot where
  voter : NodeId
  term : Nat
  candidate : NodeId
deriving DecidableEq

def RaftCall.ballot (nodeId : NodeId) : RaftCall → RaftReply → Option Ballot
  | becomeCandidate, .standing term => some ⟨nodeId, term, nodeId⟩
  | handleVoteRequest candidateTerm candidateId _ _, .vote true _ =>
    some ⟨nodeId, candidateTerm, candidateId⟩
  | _, _ => none

variable {h : RaftHost}

theorem RaftCall.exec_spec {nodeId : NodeId} {saved : PersistentState}
    (hf : h.Forward nodeId saved) (call : RaftCall) :
    Spec call.exec h
      (fun reply h' => h'.Forward nodeId saved ∧
        ∀ b ∈ call.ballot nodeId reply, b.voter = nodeId ∧ h'.Recorded b.term b.candidate)
      (RaftHost.Forward nodeId saved) := by
  cases call with
  | becomeCandidate =>
    refine spec_bind (RaftOp.becomeCandidate_spec hf) fun term h' hres => spec_pure ⟨hres.1, ?_⟩
    rintro b ⟨⟩
    exact ⟨rfl, hres.2⟩
  | becomeFollower term =>
    exact spec_bind (RaftHost.Forward.stable.becomeFollower hf _) fun _ _ hf' => spec_pure ⟨hf', nofun⟩
  | becomeLeader peerIds =>
    exact spec_bind (RaftHost.Forward.stable.becomeLeader hf _) fun _ _ hf' => spec_pure ⟨hf', nofun⟩
  | handleVoteRequest term candidate lastIndex lastTerm =>
    refine spec_bind (RaftOp.handleVoteRequest_spec hf) ?_
    rintro ⟨granted, t⟩ h' ⟨hf', hrec⟩
    refine spec_pure ⟨hf', ?_⟩
    cases granted with
    | false => nofun
    | true =>
      rintro b ⟨⟩
      exact ⟨rfl, hrec rfl⟩
  | handleAppendEntries req =>
    exact spec_bind (RaftOp.handleAppendEntries_spec hf) fun _ _ hf' => spec_pure ⟨hf', nofun⟩
  | handleAppendEntriesResponse resp =>
    exact spec_bind (RaftHost.Forward.stable.handleAppendEntriesResponse hf _)
      fun _ _ hf' => spec_pure ⟨hf', nofun⟩
  | propose command =>
    exact spec_bind (RaftOp.propose_spec hf) fun _ _ hf' => spec_pure ⟨hf', nofun⟩
  | markApplied index =>
    refine spec_modify_bind (spec_pure ⟨?_, nofun⟩)
    refine hf.of_eq ?_ rfl ?_ <;> (unfold RaftNode.markApplied; split <;> rfl)

/-! ## The nodes of a cluster -/

structure RaftElectorate where
  hosts : NodeId → RaftHost
  ballots : List Ballot := []

/-- A call with any arguments and any outcomes of its saves, or a restart. -/
inductive ElectorateAction where
  | call (nodeId : NodeId) (call : RaftCall) (faults : List (Option SaveFault))
  | restart (nodeId : NodeId)

namespace RaftElectorate

def init (clusterSize : Nat) : RaftElectorate := { hosts := (RaftHost.fresh · clusterSize) }

def step (s : RaftElectorate) : ElectorateAction → Option RaftElectorate
  | .call n call faults =>
    match call.exec { s.hosts n with faults } with
    | (.ok reply, h) => some
        { hosts := Function.update s.hosts n h
          ballots := (call.ballot n reply).toList ++ s.ballots }
    | (.error _, h) => some { s with hosts := Function.update s.hosts n h }
  | .restart n =>
    match RaftHost.openDir n (s.hosts n).node.clusterSize (s.hosts n).disk with
    | .ok h => some { s with hosts := Function.update s.hosts n h }
    | .error _ => none

def HasMajority (s : RaftElectorate) (members : Finset NodeId) (term : Nat) (candidate : NodeId) :
    Prop :=
  Quorum.size members.card ≤ (members.filter fun v => ⟨v, term, candidate⟩ ∈ s.ballots).card
deriving Decidable

/-- A vote handed out is on the disk of its voter, or the voter is past its term. -/
def Kept (b : Ballot) (state : PersistentState) : Prop :=
  PersistentState.Ahead { currentTerm := b.term, votedFor := some b.candidate } state

structure Inv (s : RaftElectorate) : Prop where
  forward : ∀ n, (s.hosts n).Forward n {}
  kept : ∀ b ∈ s.ballots, Kept b (s.hosts b.voter).disk.state
  once : ∀ b ∈ s.ballots, ∀ b' ∈ s.ballots, b.voter = b'.voter → b.term = b'.term →
    b.candidate = b'.candidate

variable {b : Ballot} {s : RaftElectorate}

theorem Kept.of_recorded (hr : h.Recorded b.term b.candidate) :
    Kept b h.disk.state := Or.inr ⟨hr.1.symm, Or.inr hr.2.symm⟩

theorem Kept.candidate_eq {candidate : NodeId} (hk : Kept b h.disk.state)
    (hr : h.Recorded b.term candidate) : b.candidate = candidate := by
  rcases hk with hlt | ⟨-, hnone | heq⟩
  · exact absurd hr.1 (Nat.ne_of_gt hlt)
  · cases hnone
  · rw [hr.2] at heq
    exact Option.some.inj heq

theorem inv_init (clusterSize : Nat) : Inv (init clusterSize) where
  forward _ := ⟨rfl, .refl _, .refl _⟩
  kept := nofun
  once := nofun

theorem Inv.update (hi : s.Inv) {n : NodeId}
    (hf : h.Forward n (s.hosts n).disk.state) : Inv { s with hosts := Function.update s.hosts n h } where
  forward := (Function.forall_update_iff s.hosts fun m => RaftHost.Forward m {}).mpr
    ⟨⟨hf.node, (hi.forward n).disk.trans hf.disk, hf.memory⟩, fun m _ => hi.forward m⟩
  kept b hb := by
    show Kept b (Function.update s.hosts n h b.voter).disk.state
    by_cases hv : b.voter = n
    · rw [hv, Function.update_self]
      exact PersistentState.Ahead.trans (hi.kept b hb) (hv ▸ hf.disk)
    · rw [Function.update_of_ne hv]
      exact hi.kept b hb
  once := hi.once

theorem Inv.cast (hi : s.Inv) (hr : (s.hosts b.voter).Recorded b.term b.candidate) :
    Inv { s with ballots := b :: s.ballots } where
  forward := hi.forward
  kept := by
    rintro b' hb'
    rcases List.mem_cons.mp hb' with rfl | hb'
    · exact .of_recorded hr
    · exact hi.kept b' hb'
  once := by
    have hold : ∀ b' ∈ s.ballots, b'.voter = b.voter → b'.term = b.term →
        b'.candidate = b.candidate := fun b' hb' hv ht =>
      (hi.kept b' hb').candidate_eq (by rw [hv, ht]; exact hr)
    intro b1 h1 b2 h2 hv ht
    rcases List.mem_cons.mp h1 with e1 | o1 <;> rcases List.mem_cons.mp h2 with e2 | o2
    · rw [e1, e2]
    · subst e1
      exact (hold b2 o2 hv.symm ht.symm).symm
    · subst e2
      exact hold b1 o1 hv ht
    · exact hi.once b1 o1 b2 o2 hv ht

theorem openDir_forward {n size : Nat} {disk : RaftDisk}
    (ho : RaftHost.openDir n size disk = .ok h) : h.Forward n disk.state := by
  unfold RaftHost.openDir at ho
  obtain ⟨log, -, hrest⟩ := bind_eq_ok.mp ho
  split at hrest
  · cases hrest
  · cases hrest
    exact ⟨rfl, .refl _, .refl _⟩

theorem inv_step {s' : RaftElectorate} {a : ElectorateAction} (hi : s.Inv)
    (hstep : s.step a = some s') : s'.Inv := by
  cases a with
  | restart n =>
    unfold step at hstep
    dsimp only at hstep
    split at hstep
    · next h ho =>
      cases hstep
      exact hi.update (openDir_forward ho)
    · cases hstep
  | call n call faults =>
    have hf : RaftHost.Forward n (s.hosts n).disk.state { s.hosts n with faults } :=
      ⟨(hi.forward n).node, .refl _, (hi.forward n).memory⟩
    have hspec := call.exec_spec hf
    unfold Spec at hspec
    unfold step at hstep
    dsimp only at hstep
    split at hstep
    · next reply h hexec =>
      rw [hexec] at hspec
      cases hstep
      obtain ⟨hf', hballot⟩ := hspec
      have hupd := hi.update hf'
      cases hb : call.ballot n reply with
      | none => exact hupd
      | some b =>
        obtain ⟨hv, hrec⟩ := hballot b hb
        refine hupd.cast (b := b) ?_
        rw [hv]
        show RaftHost.Recorded _ _ (Function.update s.hosts n h n)
        rwa [Function.update_self]
    · next e h hexec =>
      rw [hexec] at hspec
      cases hstep
      exact hi.update hspec

/-- In every run of calls and restarts, with any arguments of the calls and any
failures of the saves, no two candidates of a term have a majority. -/
theorem one_majority_per_term (clusterSize : Nat) (members : Finset NodeId)
    (as : List ElectorateAction) (s : RaftElectorate)
    (hrun : Run.run step (init clusterSize) as = some s) (term : Nat) (c d : NodeId) (hne : c ≠ d) :
    ¬(s.HasMajority members term c ∧ s.HasMajority members term d) := by
  rintro ⟨hc, hd⟩
  have hi : s.Inv := Run.run_preserves inv_step (inv_init clusterSize) hrun
  refine hne (Quorum.unique_winner (fun v c => (⟨v, term, c⟩ : Ballot) ∈ s.ballots) (Nat.le_refl _)
    (Finset.filter_subset _ _) (Finset.filter_subset _ _) hc hd
    (fun v a b ha hb => hi.once _ ha _ hb rfl rfl) ?_ ?_)
  · exact fun v hv => (Finset.mem_filter.mp hv).2
  · exact fun v hv => (Finset.mem_filter.mp hv).2

/-- Node 1 stands, node 2 grants and restarts, node 3 stands for the same term
and is turned away by node 2. -/
def contest : List ElectorateAction :=
  [.call 1 .becomeCandidate [], .call 2 (.handleVoteRequest 1 1 0 0) [], .restart 2,
    .call 3 .becomeCandidate [], .call 2 (.handleVoteRequest 1 3 0 0) []]

theorem one_majority_per_term_contest :
    (Run.after step (init 3) contest).HasMajority {1, 2, 3} 1 1 ∧
      ¬((Run.after step (init 3) contest).HasMajority {1, 2, 3} 1 1 ∧
        (Run.after step (init 3) contest).HasMajority {1, 2, 3} 1 3) :=
  ⟨by decide +kernel, one_majority_per_term 3 {1, 2, 3} contest _
    (Run.run_eq_some_after (by decide +kernel)) 1 1 3 (by decide)⟩

end RaftElectorate

end AionDb
