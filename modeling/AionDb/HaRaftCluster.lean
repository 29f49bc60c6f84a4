import AionDb.HaRaftLink
import AionDb.HaRaftVotes

/-!
# A Raft cluster

The hosts of a fixed membership, the votes they have handed out and all
messages ever sent. A message stays in the pool, so it may be delivered late,
again, out of order or never. A call may also be cut short by a crash at any of
its saves; the node then starts again from its files.

`Refines` ties the hosts and all messages to one history, and a step of the
cluster is a path of steps in it. Log matching of the nodes follows from that
of the history.
-/

namespace AionDb

open Effect Consensus ReplicatedLog Function List

structure VoteMessage where
  term : Nat
  candidateId : NodeId
  lastLogIndex : Nat
  lastLogTerm : Nat
deriving DecidableEq

structure RaftCluster where
  hosts : NodeId → RaftHost
  ballots : List Ballot := []
  canvass : List VoteMessage := []
  requests : List (NodeId × AppendEntriesRequest) := []
  responses : List (NodeId × AppendEntriesResponse) := []

inductive ClusterAction where
  | call (nodeId : NodeId) (call : RaftCall)
  | crash (nodeId : NodeId) (call : RaftCall) (faults : List (Option SaveFault))
  | restart (nodeId : NodeId)
  | send (nodeId : NodeId)

namespace RaftCluster

def init (members : Finset NodeId) : RaftCluster :=
  { hosts := (RaftHost.fresh · members.card) }

variable (members : Finset NodeId) (c : RaftCluster)

def votersFor (term : Nat) (candidate : NodeId) : Finset NodeId :=
  members.filter fun v => ⟨v, term, candidate⟩ ∈ c.ballots

/-- The calls that may be made: messages are delivered to whom they were sent
to, and only a candidate with a majority is made leader. -/
def Offered (n : NodeId) : RaftCall → Prop
  | .becomeLeader peerIds =>
    peerIds.toFinset = members.erase n ∧ n ∈ c.votersFor members (c.hosts n).node.currentTerm n ∧
      Quorum.size members.card ≤ (c.votersFor members (c.hosts n).node.currentTerm n).card
  | .handleVoteRequest term candidateId lastLogIndex lastLogTerm =>
    ⟨term, candidateId, lastLogIndex, lastLogTerm⟩ ∈ c.canvass
  | .handleAppendEntries req => (n, req) ∈ c.requests
  | .handleAppendEntriesResponse resp => (n, resp) ∈ c.responses
  | .becomeCandidate | .becomeFollower _ | .propose _ | .markApplied _ => True

instance (n : NodeId) (call : RaftCall) : Decidable (c.Offered members n call) := by
  cases call <;> unfold Offered <;> infer_instance

def setHost (n : NodeId) (h : RaftHost) : RaftCluster :=
  { c with hosts := Function.update c.hosts n h }

def publish (n : NodeId) (h : RaftHost) (call : RaftCall) (reply : RaftReply) : RaftCluster :=
  { c with
    ballots := (call.ballot n reply).toList ++ c.ballots
    canvass := match call, reply with
      | .becomeCandidate, .standing term =>
        ⟨term, n, h.node.log.lastIndex, h.node.log.lastTerm⟩ :: c.canvass
      | _, _ => c.canvass
    responses := match call, reply with
      | .handleAppendEntries req, .appended resp => (req.leaderId, resp) :: c.responses
      | _, _ => c.responses }

def step (c : RaftCluster) : ClusterAction → Option RaftCluster
  | .call n call =>
    if n ∈ members ∧ c.Offered members n call then
      match call.exec { c.hosts n with faults := [] } with
      | (.ok reply, h) => some ((c.setHost n h).publish n h call reply)
      | (.error _, h) => some (c.setHost n h)
    else none
  | .crash n call faults =>
    if n ∈ members ∧ c.Offered members n call then
      match RaftHost.openDir n members.card (call.exec { c.hosts n with faults }).2.disk with
      | .ok h => some (c.setHost n h)
      | .error _ => none
    else none
  | .restart n =>
    match RaftHost.openDir n members.card (c.hosts n).disk with
    | .ok h => some (c.setHost n h)
    | .error _ => none
  | .send n => some { c with requests := (c.hosts n).node.buildAppendEntriesRequests ++ c.requests }

end RaftCluster

/-! ## The history behind a cluster -/

open RaftHost RaftOp

structure RaftCluster.Refines (strict : Prop) (members : Finset NodeId) (c : RaftCluster)
    (a : RaftHistory) : Prop where
  inv : RaftInv members a
  acks : strict → RaftAcks members a
  link : ∀ n, Link strict True members n a (c.hosts n)
  ballots : ∀ b ∈ c.ballots, ∃ l, a.ballot b.voter b.term = some (b.candidate, l)
  canvass : ∀ m ∈ c.canvass, ∃ l, a.ballot m.candidateId m.term = some (m.candidateId, l) ∧
    m.lastLogIndex = l.length ∧ m.lastLogTerm = lastTerm RaftEntry.term l
  requests : ∀ r ∈ c.requests, GoodRequest strict members a r.2
  responses : strict → ∀ r ∈ c.responses, r.2.success = true →
    a.acked r.2.nodeId r.2.term r.2.matchIndex

/-- What a call has to meet for the commit indexes to be right. -/
def RaftCall.Fits (node : RaftNode) : RaftCall → Prop
  | handleAppendEntries req => Reaches req node
  | handleAppendEntriesResponse resp => Timely resp node
  | _ => True

instance RaftCall.decidableFits (node : RaftNode) (call : RaftCall) : Decidable (call.Fits node) := by
  cases call <;> unfold RaftCall.Fits <;> infer_instance

def RaftCluster.Fits (c : RaftCluster) : ClusterAction → Prop
  | .call n call | .crash n call _ => call.Fits (c.hosts n).node
  | .restart _ | .send _ => True

instance RaftCluster.decidableFits (c : RaftCluster) (action : ClusterAction) :
    Decidable (c.Fits action) := by
  cases action <;> unfold RaftCluster.Fits <;> infer_instance

namespace RaftHost

variable {strict sure : Prop} {members : Finset NodeId} {n m : NodeId} {a a' : RaftHistory}
  {h : RaftHost}

theorem Link.of_frame (hl : Link strict sure members m a h) (hne : m ≠ n) (hf : Frame n a a')
    (hg : Grows a a') : Link strict sure members m a' h where
  nodeId := hl.nodeId
  size := hl.size
  saved := {
    term := hl.saved.term.trans (hf.term m hne).symm
    vote := by rw [hf.term m hne, hf.ballot m hne]; exact hl.saved.vote
    commit := fun hstrict => (hl.saved.commit hstrict).trans (hf.commit m hne).symm
    log := hl.saved.log.trans (hf.log m hne).symm
    numbered := hl.saved.numbered }
  state := hl.state
  log := hl.log
  faults := hl.faults
  leads := hl.leads.mono rfl rfl (hf.term m hne) hg

theorem link_of_openDir {disk : RaftDisk} (hs : disk.Saved strict n a)
    (ho : openDir n members.card disk = .ok h) : Link strict sure members n a h := by
  unfold openDir at ho
  obtain ⟨log, hlog, hrest⟩ := bind_eq_ok.mp ho
  obtain ⟨u, -, hpure⟩ := bind_eq_ok.mp hlog
  cases hpure
  split at hrest
  · cases hrest
  · cases hrest
    exact ⟨⟨rfl, rfl, hs, rfl, rfl, fun _ => rfl⟩, .of_ne_leader nofun⟩

theorem link_fresh : Link strict sure members n (State.init NodeId RaftEntry) (fresh n members.card)
    where
  nodeId := rfl
  size := rfl
  saved := ⟨rfl, rfl, fun _ => rfl, rfl, .nil⟩
  state := rfl
  log := rfl
  faults _ := rfl
  leads := .of_ne_leader nofun

end RaftHost

namespace RaftCluster

variable {strict : Prop} {members : Finset NodeId} {c c' : RaftCluster} {a a' : RaftHistory}
  {n : NodeId}

theorem refines_init : Refines strict members (init members) (State.init NodeId RaftEntry) where
  inv := inv_init
  acks _ := acks_init
  link _ := link_fresh
  ballots := nofun
  canvass := nofun
  requests := nofun
  responses _ := nofun

theorem Refines.setHost (hr : Refines strict members c a) (hp : RaftPath members n a a')
    {h : RaftHost} (hl : Link strict True members n a' h) :
    Refines strict members (c.setHost n h) a' := by
  have hg := hp.grows hr.inv
  exact {
    inv := hp.inv hr.inv
    acks := fun hstrict => hp.acks hr.inv (hr.acks hstrict)
    link := (forall_update_iff c.hosts fun m => Link strict True members m a').mpr
      ⟨hl, fun m hm => (hr.link m).of_frame hm hp.frame hg⟩
    ballots := fun b hb => by
      obtain ⟨l, hl⟩ := hr.ballots b hb
      exact ⟨l, hg.ballot _ _ _ hl⟩
    canvass := fun m hm => by
      obtain ⟨l, hl, h⟩ := hr.canvass m hm
      exact ⟨l, hg.ballot _ _ _ hl, h⟩
    requests := fun r hreq => (hr.requests r hreq).mono hg
    responses := fun hstrict r hresp hs => hg.acked _ _ _ (hr.responses hstrict r hresp hs) }

structure Backed (strict : Prop) (n : NodeId) (a : RaftHistory) (call : RaftCall)
    (reply : RaftReply) : Prop where
  ballot : ∀ b ∈ call.ballot n reply, ∃ l, a.ballot b.voter b.term = some (b.candidate, l)
  stood : ∀ term, call = .becomeCandidate → reply = .standing term →
    a.ballot n term = some (n, a.log n)
  appended : strict → ∀ req resp, call = .handleAppendEntries req → reply = .appended resp →
    resp.success = true → a.acked resp.nodeId resp.term resp.matchIndex

section

variable (hr : Refines strict members c a)
include hr

theorem Refines.publish {call : RaftCall} {reply : RaftReply} (hb : Backed strict n a call reply) :
    Refines strict members (c.publish n (c.hosts n) call reply) a := by
  refine { hr with ballots := ?_, canvass := ?_, responses := ?_ }
  · intro b hmem
    rcases mem_append.mp hmem with hnew | hold
    · exact hb.ballot b (Option.mem_toList.mp hnew)
    · exact hr.ballots b hold
  · intro m hmem
    unfold RaftCluster.publish at hmem
    dsimp only at hmem
    split at hmem
    · next term =>
      rcases mem_cons.mp hmem with rfl | hold
      · have hl := (hr.link n).toSynced
        refine ⟨a.log n, hb.stood term rfl rfl, hl.lastIndex, ?_⟩
        show (c.hosts n).node.log.lastTerm = _
        rw [RaftLog.lastTerm_eq, hl.entries]
      · exact hr.canvass m hold
    · exact hr.canvass m hmem
  · intro hstrict r hmem hsuccess
    unfold RaftCluster.publish at hmem
    dsimp only at hmem
    split at hmem
    · next req resp =>
      rcases mem_cons.mp hmem with rfl | hold
      · exact hb.appended hstrict req resp rfl rfl hsuccess
      · exact hr.responses hstrict r hold hsuccess
    · exact hr.responses hstrict r hmem hsuccess

theorem Refines.exec (hn : n ∈ members) {call : RaftCall} (hoff : c.Offered members n call)
    (hfits : strict → call.Fits (c.hosts n).node) (sure : Prop) (faults : List (Option SaveFault))
    (hsure : sure → faults = []) :
    Spec call.exec { c.hosts n with faults }
      (fun reply h' => ∃ a', RaftPath members n a a' ∧ Link strict sure members n a' h' ∧
        Backed strict n a' call reply)
      (Cut strict sure members n a) := by
  have hl : Link strict sure members n a { c.hosts n with faults } :=
    { hr.link n with faults := hsure }
  cases call with
  | becomeCandidate =>
    refine spec_bind (becomeCandidate_link hr.inv hl) fun term h' hres => ?_
    obtain ⟨a', hp, hl', hstood⟩ := hres
    refine spec_pure ⟨a', hp, hl', ?_, ?_, nofun⟩
    · rintro b ⟨⟩
      exact ⟨_, hstood⟩
    · rintro t - ⟨⟩
      exact hstood
  | becomeFollower newTerm =>
    refine spec_bind (becomeFollower_link hr.inv .refl hl.toSynced) fun _ h' hres => ?_
    obtain ⟨a', hp, hl', -⟩ := hres
    exact spec_pure ⟨a', hp, hl', nofun, nofun, nofun⟩
  | becomeLeader peerIds =>
    obtain ⟨hpeers, hown, hmaj⟩ := hoff
    have hvotes : ∀ v ∈ c.votersFor members (c.hosts n).node.currentTerm n,
        ∃ l, a.ballot v (a.term n) = some (n, l) := by
      intro v hv
      obtain ⟨l, hl⟩ := hr.ballots _ (Finset.mem_filter.mp hv).2
      rw [(hr.link n).toSynced.term] at hl
      exact ⟨l, hl⟩
    obtain ⟨l, hstood⟩ := hvotes n hown
    refine spec_bind (becomeLeader_link hr.inv hl hn (fun p hp => ?_) hstood
      ⟨Finset.filter_subset _ _, hmaj⟩ hvotes) fun _ h' hres => ?_
    · have h := mem_toFinset.mpr hp
      rw [hpeers, Finset.mem_erase] at h
      exact ⟨h.2, h.1⟩
    · obtain ⟨a', hp, hl'⟩ := hres
      exact spec_pure ⟨a', hp, hl', nofun, nofun, nofun⟩
  | handleVoteRequest term candidate lastLogIndex lastLogTerm =>
    obtain ⟨l, hstood, hidx, hterm⟩ := hr.canvass _ hoff
    cases hidx
    cases hterm
    refine spec_bind (handleVoteRequest_link hr.inv hl hstood) ?_
    rintro ⟨granted, t⟩ h' ⟨a', hp, hl', hvote⟩
    refine spec_pure ⟨a', hp, hl', ?_, nofun, nofun⟩
    cases granted with
    | false => nofun
    | true =>
      rintro b ⟨⟩
      exact hvote rfl
  | handleAppendEntries req =>
    refine spec_bind (handleAppendEntries_link hr.inv hl (hr.requests _ hoff) hfits)
      fun resp h' hres => ?_
    obtain ⟨a', hp, hl', hacked⟩ := hres
    refine spec_pure ⟨a', hp, hl', nofun, nofun, ?_⟩
    rintro hstrict _ _ - ⟨⟩
    exact hacked hstrict
  | handleAppendEntriesResponse resp =>
    refine spec_bind (handleAppendEntriesResponse_link hr.inv hl hn
      (fun hstrict => hr.responses hstrict _ hoff) hfits) fun _ h' hres => ?_
    obtain ⟨a', hp, hl'⟩ := hres
    exact spec_pure ⟨a', hp, hl', nofun, nofun, nofun⟩
  | propose command =>
    refine spec_bind (propose_link hr.inv hl hn) fun _ h' hres => ?_
    obtain ⟨a', hp, hl'⟩ := hres
    exact spec_pure ⟨a', hp, hl', nofun, nofun, nofun⟩
  | markApplied index =>
    refine spec_modify_bind (spec_pure ⟨a, .refl, ?_, nofun, nofun, nofun⟩)
    have hnode : ∀ node : RaftNode, node.markApplied index = node ∨
        node.markApplied index = { node with lastApplied := index } := by
      intro node
      unfold RaftNode.markApplied
      split
      · exact Or.inr rfl
      · exact Or.inl rfl
    rcases hnode (c.hosts n).node with h | h <;> rw [h]
    · exact hl
    · exact ⟨hl.toSynced.of_eq rfl rfl rfl rfl rfl rfl, hl.leads.mono rfl rfl rfl (.refl a)⟩

theorem Refines.send (n : NodeId) :
    ∀ r ∈ (c.hosts n).node.buildAppendEntriesRequests, GoodRequest strict members a r.2 := by
  intro r hmem
  have hl := hr.link n
  unfold RaftNode.buildAppendEntriesRequests at hmem
  split at hmem
  · cases hmem
  next hrole =>
  have hrole : (c.hosts n).node.role = .leader := not_not.mp hrole
  obtain ⟨⟨p, g⟩, -, rfl⟩ := mem_map.mp hmem
  obtain ⟨E, hE, hlead⟩ := hl.leads.elected hrole
  have hown := hr.inv.log_leader hE hlead
  refine ⟨⟨E, hl.term ▸ hE⟩, ?_, fun hstrict => ?_⟩
  · dsimp only
    rw [hl.term, ← hown]
    cases hg : g.nextIndex with
    | zero =>
      refine Or.inr ⟨[], rfl, ?_, RaftLog.termAt_zero⟩
      unfold RaftLog.entriesFrom
      split
      · exact nil_prefix
      · exact nil_prefix
    | succ k =>
      rw [RaftLog.entriesFrom_succ hl.numbered, hl.entries, Nat.add_sub_cancel]
      rcases Nat.lt_or_ge (a.log n).length k with hlt | hge
      · refine Or.inl ⟨drop_eq_nil_iff.mpr (Nat.le_of_lt hlt), by omega, ?_⟩
        obtain ⟨j, rfl⟩ : ∃ j, k = j + 1 := ⟨k - 1, by omega⟩
        rw [RaftLog.termAt_succ hl.numbered, hl.entries, getElem?_eq_none (by omega)]
        rfl
      · refine Or.inr ⟨(a.log n).take k, by rw [length_take, Nat.min_eq_left hge], ?_, ?_⟩
        · rw [take_append_drop]
        · cases k with
          | zero => exact RaftLog.termAt_zero
          | succ j =>
            rw [RaftLog.termAt_succ hl.numbered, hl.entries, lastTerm, getLast?_take]
            simp [getElem?_eq_getElem (show j < (a.log n).length by omega)]
  · have hcommit := hl.commit hstrict
    dsimp only
    rw [hl.term, hcommit]
    rcases ((hr.acks hstrict).committed n).2 with h0 | ⟨T, k, hT, hk, hch, -⟩
    · exact Or.inl h0
    · exact Or.inr ⟨T, k, hT, hk, hch⟩

theorem Refines.step {action : ClusterAction} (hfits : strict → c.Fits action)
    (hstep : c.step members action = some c') :
    ∃ n a', RaftPath members n a a' ∧ Refines strict members c' a' := by
  cases action with (unfold RaftCluster.step at hstep)
  | call n call =>
    dsimp only at hstep
    split at hstep
    · next hoff =>
      have hspec := hr.exec hoff.1 hoff.2 hfits True [] (fun _ => rfl)
      unfold Spec at hspec
      split at hstep
      · next reply h hexec =>
        rw [hexec] at hspec
        cases hstep
        obtain ⟨a', hp, hl, hb⟩ := hspec
        refine ⟨n, a', hp, ?_⟩
        have hpub := (hr.setHost hp hl).publish hb
        rwa [show (c.setHost n h).hosts n = h from update_self ..] at hpub
      · next e h hexec =>
        rw [hexec] at hspec
        cases hstep
        obtain ⟨a', hp, -, hl⟩ := hspec
        exact ⟨n, a', hp, hr.setHost hp (hl trivial)⟩
    · cases hstep
  | crash n call faults =>
    dsimp only at hstep
    split at hstep
    · next hoff =>
      have hspec := hr.exec hoff.1 hoff.2 hfits False faults nofun
      have hsaved : ∃ a', RaftPath members n a a' ∧
          (call.exec { c.hosts n with faults }).2.disk.Saved strict n a' := by
        unfold Spec at hspec
        split at hspec
        · next reply h hexec =>
          obtain ⟨a', hp, hl, -⟩ := hspec
          exact ⟨a', hp, by rw [hexec]; exact hl.saved⟩
        · next e h hexec =>
          obtain ⟨a', hp, hs, -⟩ := hspec
          exact ⟨a', hp, by rw [hexec]; exact hs⟩
      obtain ⟨a', hp, hs⟩ := hsaved
      split at hstep
      · next h ho =>
        cases hstep
        exact ⟨n, a', hp, hr.setHost hp (link_of_openDir hs ho)⟩
      · cases hstep
    · cases hstep
  | restart n =>
    dsimp only at hstep
    split at hstep
    · next h ho =>
      cases hstep
      exact ⟨n, a, .refl, hr.setHost .refl (link_of_openDir (hr.link n).saved ho)⟩
    · cases hstep
  | send n =>
    cases hstep
    refine ⟨n, a, .refl, { hr with requests := fun r hmem => ?_ }⟩
    rcases mem_append.mp hmem with hnew | hold
    · exact hr.send n r hnew
    · exact hr.requests r hold

end

/-! ## Log matching -/

theorem exists_refines {as : List ClusterAction}
    (hrun : Run.run (RaftCluster.step members) (init members) as = some c) :
    ∃ a, Refines False members c a := by
  refine Run.run_preserves (I := fun c => ∃ a, Refines False members c a) ?_ ⟨_, refines_init⟩ hrun
  rintro c action c' ⟨a, hr⟩ hstep
  obtain ⟨-, a', -, hr'⟩ := hr.step nofun hstep
  exact ⟨a', hr'⟩

/-- In every run, the indexes of a log are contiguous, and two logs that hold
an entry of one index and term are the same up to that index. -/
theorem log_matching (members : Finset NodeId) (as : List ClusterAction) (c : RaftCluster)
    (hrun : Run.run (RaftCluster.step members) (init members) as = some c) :
    (∀ n i e e', (c.hosts n).node.log.entries[i]? = some e →
        (c.hosts n).node.log.entries[i + 1]? = some e' → e'.index = e.index + 1) ∧
      ∀ n m, ∀ e ∈ (c.hosts n).node.log.entries, ∀ e' ∈ (c.hosts m).node.log.entries,
        e.index = e'.index → e.term = e'.term →
        (c.hosts n).node.log.entries.filter (·.index ≤ e.index) =
          (c.hosts m).node.log.entries.filter (·.index ≤ e.index) := by
  obtain ⟨a, hr⟩ := exists_refines hrun
  refine ⟨fun n i e e' he he' => ?_, fun n m e he e' he' hindex hterm => ?_⟩
  · have hnum := (hr.link n).toSynced.numbered
    have h1 := hnum i e he
    have h2 := hnum (i + 1) e' he'
    omega
  · have hn := (hr.link n).toSynced
    have hm := (hr.link m).toSynced
    obtain ⟨i, hi⟩ := getElem?_of_mem he
    obtain ⟨j, hj⟩ := getElem?_of_mem he'
    have h1 := hn.numbered i e hi
    have h2 := hm.numbered j e' hj
    obtain rfl : i = j := by omega
    rw [hn.numbered.filter_le, hm.numbered.filter_le, h1, Nat.sub_zero, Nat.zero_add]
    rw [hn.entries] at hi ⊢
    rw [hm.entries] at hj ⊢
    exact hr.inv.matching n m i e e' hi hj hterm

def replicated : List ClusterAction :=
  [.call 1 .becomeCandidate, .call 2 (.handleVoteRequest 1 1 0 0), .call 1 (.becomeLeader [2, 3]),
    .call 1 (.propose .noop), .call 1 (.propose (.removeNode 3)), .send 1,
    .call 2 (.handleAppendEntries ⟨1, 1, 0, 0, [⟨1, 1, .noop⟩, ⟨2, 1, .removeNode 3⟩], 0⟩)]

def afterReplication : RaftCluster :=
  Run.after (RaftCluster.step {1, 2, 3}) (init {1, 2, 3}) replicated

theorem log_matching_replicated :
    (afterReplication.hosts 2).node.log.entries = [⟨1, 1, .noop⟩, ⟨2, 1, .removeNode 3⟩] ∧
      ∀ e ∈ (afterReplication.hosts 1).node.log.entries,
        ∀ e' ∈ (afterReplication.hosts 2).node.log.entries, e.index = e'.index → e.term = e'.term →
          (afterReplication.hosts 1).node.log.entries.filter (·.index ≤ e.index) =
            (afterReplication.hosts 2).node.log.entries.filter (·.index ≤ e.index) :=
  ⟨by decide +kernel, (log_matching {1, 2, 3} replicated _
    (Run.run_eq_some_after (by decide +kernel))).2 1 2⟩

end RaftCluster

end AionDb
