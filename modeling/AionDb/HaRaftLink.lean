import AionDb.HaRaftNode
import AionDb.LibConsensusCommit
import AionDb.LibMap

/-!
# What a Raft node does to the history of its cluster

`RaftHost.Link n a h` ties the host of node `n` to a consensus state `a`: node
and files have the term, the vote, the log and the commit index that `a` has
for `n`, and a leader is the one elected in `a`. Each operation of the node is
then a path of steps of `n` in `a`. An operation that a save cuts short leaves
files that some path explains (`Cut`).

Two parameters spare a second copy of everything. Commit index and
acknowledgements are tied only if `strict` holds, which asks for the conditions
under which they can be; `sure` says that no save fails.
-/

namespace AionDb

open Effect Consensus ReplicatedLog Function List

abbrev RaftHistory := Consensus.State NodeId RaftEntry

abbrev RaftPath (members : Finset NodeId) (n : NodeId) : RaftHistory → RaftHistory → Prop :=
  Consensus.Path RaftEntry.term members n

abbrev RaftInv (members : Finset NodeId) : RaftHistory → Prop :=
  Consensus.Inv RaftEntry.term members

abbrev RaftAcks (members : Finset NodeId) : RaftHistory → Prop :=
  Consensus.Acks RaftEntry.term members

/-! ## The link -/

/-- The files hold what the history has for the node. -/
structure RaftDisk.Saved (strict : Prop) (n : NodeId) (a : RaftHistory) (disk : RaftDisk) : Prop where
  term : disk.state.currentTerm = a.term n
  vote : disk.state.votedFor = (a.ballot n (a.term n)).map Prod.fst
  commit : strict → disk.state.commitIndex = a.commit n
  log : disk.log = a.log n
  numbered : NumberedFrom 0 disk.log

namespace RaftHost

structure Synced (strict sure : Prop) (members : Finset NodeId) (n : NodeId) (a : RaftHistory)
    (h : RaftHost) : Prop where
  nodeId : h.node.nodeId = n
  size : h.node.clusterSize = members.card
  saved : h.disk.Saved strict n a
  state : h.node.state = h.disk.state
  log : h.node.log.entries = h.disk.log
  faults : sure → h.faults = []

/-- A node in the role of the leader has been elected, and what it takes as
replicated has been acknowledged. -/
structure Leads (strict : Prop) (members : Finset NodeId) (n : NodeId) (a : RaftHistory)
    (node : RaftNode) : Prop where
  elected : node.role = .leader → ∃ E, a.elect (a.term n) = some E ∧ E.leader = n
  peers : node.role = .leader → ∀ p ∈ node.followers, p ∈ members ∧ p ≠ n
  matched : strict → node.role = .leader → ∀ p, ∀ g : FollowerProgress,
    node.followers[p]? = some g → g.matchIndex = 0 ∨ a.acked p (a.term n) g.matchIndex

structure Link (strict sure : Prop) (members : Finset NodeId) (n : NodeId) (a : RaftHistory)
    (h : RaftHost) : Prop extends Synced strict sure members n a h where
  leads : Leads strict members n a h.node

def Cut (strict sure : Prop) (members : Finset NodeId) (n : NodeId) (a : RaftHistory)
    (h : RaftHost) : Prop :=
  ∃ a', RaftPath members n a a' ∧ h.disk.Saved strict n a' ∧ (sure → Link strict sure members n a' h)

/-- The operation takes the node from `a` to a history that `Q` holds of, or is cut. -/
abbrev Steers {α : Type} (strict sure : Prop) (members : Finset NodeId) (n : NodeId)
    (a : RaftHistory) (m : RaftOp α) (h : RaftHost) (Q : α → RaftHistory → RaftHost → Prop) : Prop :=
  Spec m h (fun x h' => ∃ a', RaftPath members n a a' ∧ Link strict sure members n a' h' ∧ Q x a' h')
    (Cut strict sure members n a)

variable {strict sure : Prop} {members : Finset NodeId} {n : NodeId} {a a' a₀ : RaftHistory}
  {h : RaftHost}

theorem Leads.of_ne_leader {node : RaftNode} (hr : node.role ≠ .leader) :
    Leads strict members n a node :=
  ⟨fun h => absurd h hr, fun h => absurd h hr, fun _ h => absurd h hr⟩

theorem Leads.mono {node node' : RaftNode} (hl : Leads strict members n a node)
    (hrole : node'.role = node.role) (hfollowers : node'.followers = node.followers)
    (hterm : a'.term n = a.term n) (hg : Grows a a') : Leads strict members n a' node' where
  elected hr := by
    obtain ⟨E, hE, hn⟩ := hl.elected (hrole ▸ hr)
    exact ⟨E, hterm ▸ hg.elect _ E hE, hn⟩
  peers hr := hfollowers ▸ hl.peers (hrole ▸ hr)
  matched hstrict hr p g hp := by
    rw [hfollowers] at hp
    rw [hterm]
    exact (hl.matched hstrict (hrole ▸ hr) p g hp).imp id (hg.acked p _ _)

section

variable (hs : Synced strict sure members n a h)
include hs

theorem Synced.numbered : NumberedFrom 0 h.node.log.entries := hs.log ▸ hs.saved.numbered

theorem Synced.entries : h.node.log.entries = a.log n :=
  hs.log.trans hs.saved.log

theorem Synced.term : h.node.currentTerm = a.term n := by
  rw [RaftNode.currentTerm, hs.state, hs.saved.term]

theorem Synced.vote : h.node.state.votedFor = (a.ballot n (a.term n)).map Prod.fst := by
  rw [hs.state, hs.saved.vote]

theorem Synced.commit (hstrict : strict) : h.node.commitIndex = a.commit n := by
  rw [RaftNode.commitIndex, hs.state, hs.saved.commit hstrict]

theorem Synced.lastIndex : h.node.log.lastIndex = (a.log n).length := by
  rw [RaftLog.lastIndex_eq hs.numbered, hs.entries]

theorem Synced.of_eq {h' : RaftHost} (hid : h'.node.nodeId = h.node.nodeId)
    (hsize : h'.node.clusterSize = h.node.clusterSize) (hstate : h'.node.state = h.node.state)
    (hlog : h'.node.log = h.node.log) (hdisk : h'.disk = h.disk) (hfaults : h'.faults = h.faults) :
    Synced strict sure members n a h' where
  nodeId := hid.trans hs.nodeId
  size := hsize.trans hs.size
  saved := hdisk ▸ hs.saved
  state := by rw [hstate, hdisk, hs.state]
  log := by rw [hlog, hdisk, hs.log]
  faults := fun h => hfaults.trans (hs.faults h)

end

theorem Link.cut (hp : RaftPath members n a₀ a) (hl : Link strict sure members n a h) :
    Cut strict sure members n a₀ h := ⟨a, hp, hl.saved, fun _ => hl⟩

end RaftHost

/-! ## Saves -/

namespace RaftOp

open RaftHost

variable {strict sure : Prop} {members : Finset NodeId} {n : NodeId} {a a' a₀ : RaftHistory}
  {h : RaftHost}

section

variable (hp : RaftPath members n a₀ a) (hp' : RaftPath members n a₀ a')
  (hs : Synced strict sure members n a h)
include hp hp' hs

theorem saveFile_link {write : RaftHost → RaftHost} {h₁ : RaftHost} (hdisk : h₁.disk = h.disk)
    (hfaults : h₁.faults = h.faults) (hnode : (write h₁).node = h₁.node)
    (hs' : Synced strict sure members n a' (write h₁).dropFault) :
    Spec (saveFile write) h₁
      (fun _ h' => Synced strict sure members n a' h' ∧ h'.node = h₁.node)
      (Cut strict sure members n a₀) := by
  have hcalm (hsure : sure) : h₁.faults.head?.join = none := by
    rw [hfaults, hs.faults hsure]
    rfl
  refine spec_saveFile (fun _ => ⟨hs', hnode⟩) ?_ ?_
  · exact fun hf => ⟨a, hp, hdisk ▸ hs.saved, fun hsure => absurd (hcalm hsure) hf⟩
  · exact fun hf => ⟨a', hp', hs'.saved, fun hsure => absurd (hcalm hsure) hf⟩

theorem save_link {p : PersistentState}
    (hs' : RaftDisk.Saved strict n a' { h.disk with state := p }) :
    Spec save (h.setState p)
      (fun _ h' => Synced strict sure members n a' h' ∧ h'.node = { h.node with state := p })
      (Cut strict sure members n a₀) :=
  saveFile_link hp hp' hs rfl rfl rfl ⟨hs.nodeId, hs.size, hs', rfl, hs.log,
    fun hsure => congrArg List.tail (hs.faults hsure)⟩

theorem persist_link {log : RaftLog}
    (hs' : RaftDisk.Saved strict n a' { h.disk with log := log.entries }) :
    Spec persist (h.setLog log)
      (fun _ h' => Synced strict sure members n a' h' ∧ h'.node = { h.node with log })
      (Cut strict sure members n a₀) :=
  saveFile_link hp hp' hs rfl rfl rfl ⟨hs.nodeId, hs.size, hs', hs.state, rfl,
    fun hsure => congrArg List.tail (hs.faults hsure)⟩

end

/-! ## Terms and votes -/

structure Raised (n : NodeId) (t : Nat) (a : RaftHistory) (node : RaftNode) (a' : RaftHistory)
    (node' : RaftNode) : Prop where
  term : a'.term n = max (a.term n) t
  log : a'.log n = a.log n
  nodeLog : node'.log = node.log
  fresh : a.term n < t → a'.ballot n t = none

variable {l : List RaftEntry} {t : Nat} {c : NodeId} {req : AppendEntriesRequest}

section

variable (hi : RaftInv members a) (hp : RaftPath members n a₀ a)
include hi hp

theorem advanceTerm_link (hs : Synced strict sure members n a h) :
    Spec (advanceTerm t) h
      (fun _ h' => ∃ a', RaftPath members n a₀ a' ∧ Synced strict sure members n a' h' ∧
        Raised n t a h.node a' h'.node)
      (Cut strict sure members n a₀) := by
  refine spec_get_bind (spec_ite (fun hle => spec_pure ?_) fun hlt => ?_)
  · have hle : t ≤ a.term n := hs.term ▸ hle
    exact ⟨a, hp, hs, (Nat.max_eq_left hle).symm, rfl, rfl, fun h => absurd h (Nat.not_lt.mpr hle)⟩
  have hlt : a.term n < t := by
    rw [← hs.term]
    exact Nat.not_le.mp hlt
  have hp' : RaftPath members n a₀ (a.raise n t) := hp.tail (.raise hlt) (frame_raise t)
  have hterm : (a.raise n t).term n = t := by simp only [State.raise, update_self]
  have hfree : a.ballot n t = none := by
    cases hb : a.ballot n t with
    | none => rfl
    | some b => exact absurd (hi.ballot_le n t b hb) (Nat.not_le.mpr hlt)
  refine spec_modify_bind (spec_bind (save_link hp hp' hs
    (p := { h.node.state with currentTerm := t, votedFor := none }) ?_) fun _ h' hsaved =>
      spec_pure ⟨_, hp', hsaved.1, ?_, rfl, by rw [hsaved.2], fun _ => hfree⟩)
  · exact {
      term := hterm.symm
      vote := by rw [hterm]; show none = (a.ballot n t).map _; rw [hfree]; rfl
      commit := fun hstrict => hs.commit hstrict
      log := hs.saved.log
      numbered := hs.saved.numbered }
  · rw [hterm, Nat.max_eq_right (Nat.le_of_lt hlt)]

theorem becomeFollower_link (hs : Synced strict sure members n a h) :
    Steers strict sure members n a₀ (becomeFollower t) h fun _ a' h' =>
      Raised n t a h.node a' h'.node := by
  refine spec_bind (advanceTerm_link hi hp hs) fun _ h' hadv => ?_
  obtain ⟨a', hp', hs', hraised⟩ := hadv
  refine spec_modify_bind (spec_modify ⟨a', hp', ⟨hs'.of_eq rfl rfl rfl rfl rfl rfl, ?_⟩, ?_⟩)
  · exact .of_ne_leader nofun
  · exact ⟨hraised.term, hraised.log, hraised.nodeLog, hraised.fresh⟩

theorem becomeFollowerIf_link {due : Bool} (hl : Link strict sure members n a h)
    (hdue : due = false → t ≤ a.term n) :
    Steers strict sure members n a₀ (becomeFollowerIf due t) h fun _ a' h' =>
      t ≤ a'.term n ∧ a'.log n = a.log n ∧ h'.node.log = h.node.log := by
  refine spec_ite (fun _ => ?_) fun hnot => ?_
  · refine spec_mono (becomeFollower_link hi hp hl.toSynced) (fun _ h' hres => ?_) fun _ hc => hc
    obtain ⟨a', hp', hl', hraised⟩ := hres
    exact ⟨a', hp', hl', hraised.term ▸ Nat.le_max_right .., hraised.log, hraised.nodeLog⟩
  · exact spec_pure ⟨a, hp, hl, hdue (Bool.not_eq_true _ ▸ hnot), rfl, rfl⟩

end

theorem voteFor_link {a₁ : RaftHistory} (hp : RaftPath members n a₀ a)
    (hp₁ : RaftPath members n a₀ a₁) (hs : Synced strict sure members n a h)
    (hterm : a₁.term n = a.term n) (hlog : a₁.log n = a.log n) (hcommit : a₁.commit n = a.commit n)
    (hvote : (a₁.ballot n (a₁.term n)).map Prod.fst = some c) :
    Spec (voteFor c) h
      (fun _ h' => Synced strict sure members n a₁ h' ∧ h'.node.role = h.node.role ∧
        h'.node.followers = h.node.followers)
      (Cut strict sure members n a₀) := by
  refine spec_get_bind (spec_modify_bind (spec_mono (save_link hp hp₁ hs
    (p := { h.node.state with votedFor := some c }) ?_) (fun _ h' hsaved => ?_) fun _ hc => hc))
  · exact {
      term := hs.term.trans hterm.symm
      vote := hvote.symm
      commit := fun hstrict => (hs.commit hstrict).trans hcommit.symm
      log := hs.saved.log.trans hlog.symm
      numbered := hs.saved.numbered }
  · exact ⟨hsaved.1, by rw [hsaved.2], by rw [hsaved.2]⟩

theorem becomeCandidate_link (hi : RaftInv members a) (hl : Link strict sure members n a h) :
    Steers strict sure members n a becomeCandidate h fun t a' _ =>
      a'.ballot n t = some (n, a'.log n) := by
  refine spec_get_bind (spec_bind
    (spec_liftExcept (Q := fun t h' => h' = h ∧ a.term n < t) ?_ (hl.cut .refl)) ?_)
  · intro t ht
    refine ⟨rfl, ?_⟩
    unfold nextTerm at ht
    split at ht
    · next next hnext =>
      cases ht
      obtain ⟨-, rfl⟩ := checkedAdd_eq_some.mp hnext
      rw [hl.term]
      exact Nat.lt_succ_self _
    · cases ht
  · rintro t h' ⟨rfl, hlt⟩
    refine spec_bind (advanceTerm_link hi .refl hl.toSynced) fun _ h1 hadv => ?_
    obtain ⟨a1, hp1, hs1, hraised⟩ := hadv
    have ht : a1.term n = t := by rw [hraised.term, Nat.max_eq_right (Nat.le_of_lt hlt)]
    have hfree : a1.ballot n (a1.term n) = none := by rw [ht]; exact hraised.fresh hlt
    have hold : ∀ e ∈ a1.log n, e.term < a1.term n := by
      intro e he
      rw [ht]
      exact Nat.lt_of_le_of_lt (hi.le_term n e (hraised.log ▸ he)) hlt
    have hp2 := hp1.tail (.stand (ht ▸ Nat.zero_lt_of_lt hlt) hold hfree) (frame_cast n _)
    have hnew : (a1.cast n n (a1.term n)).ballot n (a1.term n) = some (n, a1.log n) := by
      simp only [State.cast, update_self]
    refine spec_get_bind (spec_bind (voteFor_link hp1 hp2 hs1 rfl rfl rfl ?_) fun _ h2 hvoted => ?_)
    · show ((a1.cast n n (a1.term n)).ballot n (a1.term n)).map Prod.fst = _
      rw [hnew, hs1.nodeId]
      rfl
    · refine spec_modify_bind (spec_pure ⟨_, hp2, ⟨hvoted.1.of_eq rfl rfl rfl rfl rfl rfl, ?_⟩, ?_⟩)
      · exact .of_ne_leader (by simp [setRole])
      · rw [← ht]
        exact hnew

theorem upToDate_of_candidateLog (hs : Synced strict sure members n a h)
    (hup : h.node.candidateLogIsUpToDate (lastTerm RaftEntry.term l) l.length = true) :
    UpToDate RaftEntry.term (a.log n) l := by
  unfold RaftNode.candidateLogIsUpToDate at hup
  rw [hs.lastIndex, RaftLog.lastTerm_eq, hs.entries] at hup
  split at hup
  · exact Or.inl (of_decide_eq_true hup)
  · next heq => exact Or.inr ⟨(not_not.mp heq).symm, of_decide_eq_true hup⟩

theorem handleVoteRequest_link (hi : RaftInv members a) (hl : Link strict sure members n a h)
    (hstood : a.ballot c t = some (c, l)) :
    Steers strict sure members n a (handleVoteRequest t c l.length (lastTerm RaftEntry.term l)) h
      fun reply a' _ => reply.1 = true → ∃ l', a'.ballot n t = some (c, l') := by
  refine spec_get_bind (spec_bind (becomeFollowerIf_link hi .refl hl ?_) fun _ h1 hres => ?_)
  · intro hdue
    rw [← hl.term]
    exact Nat.not_lt.mp (of_decide_eq_false hdue)
  obtain ⟨a1, hp1, hl1, hle, -, -⟩ := hres
  refine spec_get_bind (spec_ite (fun _ => spec_pure ⟨a1, hp1, hl1, nofun⟩) fun hge => ?_)
  refine spec_ite (fun _ => spec_pure ⟨a1, hp1, hl1, nofun⟩) fun hfree => ?_
  refine spec_ite (fun _ => spec_pure ⟨a1, hp1, hl1, nofun⟩) fun hup => ?_
  have ht : a1.term n = t := Nat.le_antisymm (hl1.term ▸ Nat.not_lt.mp hge) hle
  have hstood1 : a1.ballot c (a1.term n) = some (c, l) := by
    rw [ht]
    exact (hp1.grows hi).ballot c t _ hstood
  -- the vote is new, or the one already given
  obtain ⟨a2, hp2, hterm, hlog, hcommit, hvote⟩ : ∃ a2, RaftPath members n a1 a2 ∧
      a2.term n = a1.term n ∧ a2.log n = a1.log n ∧ a2.commit n = a1.commit n ∧
      ∃ l', a2.ballot n (a1.term n) = some (c, l') := by
    cases hb : a1.ballot n (a1.term n) with
    | none =>
      have hlogs := upToDate_of_candidateLog hl1.toSynced (by simpa using hup)
      refine ⟨_, .tail .refl (.vote hb hstood1 hlogs) (frame_cast c _), rfl, rfl, rfl, ?_⟩
      exact ⟨a1.log n, by simp only [State.cast, update_self]⟩
    | some b =>
      obtain ⟨d, l'⟩ := b
      have hd : d = c := by
        rw [hl1.vote, hb] at hfree
        simpa using hfree
      exact ⟨a1, .refl, rfl, rfl, rfl, l', by rw [hb, hd]⟩
  refine spec_bind (voteFor_link hp1 (hp1.trans hp2) hl1.toSynced hterm hlog hcommit ?_)
    fun _ h2 hvoted => ?_
  · obtain ⟨l', hl'⟩ := hvote
    rw [hterm, hl']
    rfl
  · exact spec_get_bind (spec_pure ⟨a2, hp1.trans hp2, ⟨hvoted.1, hl1.leads.mono hvoted.2.1
      hvoted.2.2 hterm (hp2.grows (hp1.inv hi))⟩, fun _ => ht ▸ hvote⟩)

/-! ## Commit -/

def MayCommit (members : Finset NodeId) (n : NodeId) (a : RaftHistory) (k : Nat) : Prop :=
  (∃ E, a.elect (a.term n) = some E) ∧ k ≤ (a.log n).length ∧
    (a.log n).take k <+: a.lead (a.term n) ∧ Covered RaftEntry.term members a (a.term n) k

def OnlyCommit (a a' : RaftHistory) (node node' : RaftNode) : Prop :=
  (∃ commit, a' = { a with commit }) ∧
    ∃ i, node' = { node with state := { node.state with commitIndex := i } }

section

variable (hi : RaftInv members a)
include hi

theorem setCommitIndex_link {k : Nat} (hp : RaftPath members n a₀ a)
    (hl : Link strict sure members n a h)
    (hok : strict → h.node.commitIndex < k → MayCommit members n a k) :
    Steers strict sure members n a₀ (setCommitIndex k) h fun _ a' h' =>
      OnlyCommit a a' h.node h'.node := by
  refine spec_get_bind (spec_ite (fun hlt => ?_) fun _ =>
    spec_pure ⟨a, hp, hl, ⟨_, rfl⟩, h.node.state.commitIndex, rfl⟩)
  obtain ⟨a₁, hp₁, hcommit, c, rfl⟩ : ∃ a₁, RaftPath members n a a₁ ∧
      (strict → a₁.commit n = k) ∧ ∃ commit, a₁ = { a with commit } := by
    by_cases hstrict : strict
    · obtain ⟨⟨E, hE⟩, hk, hpre, hcov⟩ := hok hstrict hlt
      have hup : a.commit n ≤ k := by
        rw [← hl.commit hstrict]
        exact Nat.le_of_lt hlt
      refine ⟨_, .tail .refl (.commit hE hup hk hpre hcov) (frame_commitTo k), fun _ => ?_, _, rfl⟩
      exact update_self ..
    · exact ⟨a, .refl, fun h => absurd h hstrict, a.commit, rfl⟩
  refine spec_modify_bind (spec_mono (save_link hp (hp.trans hp₁) hl.toSynced
    (p := { h.node.state with commitIndex := k }) ?_) (fun _ h' hsaved => ?_) fun _ hc => hc)
  · exact {
      term := hl.term
      vote := hl.vote
      commit := fun hstrict => (hcommit hstrict).symm
      log := hl.saved.log
      numbered := hl.saved.numbered }
  · refine ⟨_, hp.trans hp₁, ⟨hsaved.1, hl.leads.mono ?_ ?_ rfl (hp₁.grows hi)⟩, ⟨c, rfl⟩, k, hsaved.2⟩
    · rw [hsaved.2]
    · rw [hsaved.2]

theorem chosen_of_canCommit (hl : Link strict sure members n a h) (hstrict : strict)
    (hrole : h.node.role = .leader) (hn : n ∈ members) {i : Nat}
    (hcan : h.node.canCommit (i + 1) = true) :
    i < (a.log n).length ∧
      Chosen RaftEntry.term members (a.ack n (a.log n).length) (a.term n) (i + 1) := by
  obtain ⟨E, hE, hlead⟩ := hl.leads.elected hrole
  unfold RaftNode.canCommit at hcan
  obtain ⟨hterm, hcount⟩ := Bool.and_eq_true_iff.mp hcan
  have hterm := of_decide_eq_true hterm
  have hcount := of_decide_eq_true hcount
  rw [RaftLog.termAt_succ hl.numbered, hl.entries, hl.term] at hterm
  have hown := hi.log_leader hE hlead
  cases he : (a.log n)[i]? with
  | none =>
    rw [he] at hterm
    exact absurd hterm (Nat.ne_of_lt (hi.elect_pos hE))
  | some e =>
    rw [he] at hterm
    have hlt := (List.getElem?_eq_some_iff.mp he).1
    refine ⟨hlt, ⟨i, e, rfl, hown ▸ he, hterm⟩, ?_⟩
    -- the followers that hold the entry, and the leader itself
    set test : NodeId × FollowerProgress → Bool := fun p => decide (i + 1 ≤ p.2.matchIndex)
    set holders := ((h.node.followers.toList.filter test).map Prod.fst).toFinset with hholders
    have hmem : ∀ p ∈ holders, p ∈ h.node.followers ∧ ∃ j, i + 1 ≤ j ∧ a.acked p (a.term n) j := by
      intro p hp
      obtain ⟨g, hg, htest⟩ := OrdMap.mem_keys_filter.mp hp
      have hmatch : i + 1 ≤ g.matchIndex := of_decide_eq_true htest
      refine ⟨Std.ExtTreeMap.mem_iff_isSome_getElem?.mpr (by rw [hg]; rfl), g.matchIndex, hmatch, ?_⟩
      rcases hl.leads.matched hstrict hrole p g hg with h0 | hack
      · omega
      · exact hack
    have hself : n ∉ holders := fun h => (hl.leads.peers hrole n (hmem n h).1).2 rfl
    refine ⟨insert n holders, ⟨?_, ?_⟩, ?_⟩
    · intro p hp
      rcases Finset.mem_insert.mp hp with rfl | hp
      · exact hn
      · exact (hl.leads.peers hrole p (hmem p hp).1).1
    · rw [Finset.card_insert_of_notMem hself, hholders, OrdMap.card_keys_filter, ← hl.size]
      exact hcount
    · intro p hp
      rcases Finset.mem_insert.mp hp with rfl | hp
      · exact ⟨_, hlt, Or.inr ⟨rfl, rfl, rfl⟩⟩
      · obtain ⟨j, hj, hack⟩ := (hmem p hp).2
        exact ⟨j, hj, Or.inl hack⟩

theorem tryAdvanceCommitIndex_link (hp : RaftPath members n a₀ a)
    (hl : Link strict sure members n a h) (hrole : h.node.role = .leader) (hn : n ∈ members) :
    Spec tryAdvanceCommitIndex h
      (fun _ h' => ∃ a', RaftPath members n a₀ a' ∧ Link strict sure members n a' h')
      (Cut strict sure members n a₀) := by
  refine spec_get_bind (spec_ite (fun _ => spec_pure ⟨a, hp, hl⟩) fun _ => ?_)
  obtain ⟨E, hE, hlead⟩ := hl.leads.elected hrole
  have hown := hi.log_leader hE hlead
  -- the leader acknowledges its own log before it counts
  have hpre : (a.log n).take (a.log n).length <+: a.lead (a.term n) := by
    rw [take_length, hown]
  have hp₁ : RaftPath members n a (a.ack n (a.log n).length) :=
    .tail .refl (.ack hE (Nat.le_refl _) hpre) (frame_ack _)
  have hl₁ : Link strict sure members n (a.ack n (a.log n).length) h :=
    ⟨{ hl.toSynced with saved := { hl.saved with } }, hl.leads.mono rfl rfl rfl (hp₁.grows hi)⟩
  refine spec_bind (spec_liftExcept (Q := fun start h' => h' = h ∧ 0 < start) (fun start hs => ?_)
    (hl.cut hp)) ?_
  · obtain ⟨-, rfl⟩ := nextLogIndex_eq_ok.mp hs
    exact ⟨rfl, Nat.succ_pos _⟩
  rintro start h' ⟨rfl, hstart⟩
  refine spec_mono (spec_forM (I := fun h'' => ∃ a', RaftPath members n a₀ a' ∧
    Link strict sure members n a' h'' ∧ OnlyCommit (a.ack n (a.log n).length) a' h'.node h''.node) _
    (fun k hk h'' hI => ?_) ?_) (fun _ _ ⟨a', hp', hl', _⟩ => ⟨a', hp', hl'⟩) fun _ hc => hc
  · obtain ⟨a', hp', hl', ⟨c, rfl⟩, i, hnode⟩ := hI
    refine spec_ite (fun hcan => ?_) fun _ => spec_pure ⟨_, hp', hl', ⟨c, rfl⟩, i, hnode⟩
    have hk0 : 0 < k := Nat.lt_of_lt_of_le hstart (mem_range'_1.mp hk).1
    obtain ⟨j, rfl⟩ : ∃ j, k = j + 1 := ⟨k - 1, by omega⟩
    refine spec_mono (setCommitIndex_link ?_ hp' hl' fun hstrict _ => ?_) ?_ fun _ hc => hc
    · exact { (hp₁.inv hi) with }
    · obtain ⟨hlt, hch⟩ := chosen_of_canCommit hi hl hstrict hrole hn hcan
      refine ⟨⟨E, hE⟩, hlt, ?_, Or.inr ⟨a.term n, j + 1, Nat.le_refl _, Nat.le_refl _, ?_⟩⟩
      · show (a.log n).take (j + 1) <+: a.lead (a.term n)
        rw [← hown]
        exact take_prefix ..
      · exact hch.mono { Grows.refl _ with }
    · rintro _ h₃ ⟨a₃, hp₃, hl₃, ⟨c₃, rfl⟩, i₃, hnode₃⟩
      exact ⟨_, hp₃, hl₃, ⟨c₃, rfl⟩, i₃, by rw [hnode₃, hnode]⟩
  · exact ⟨_, hp.trans hp₁, hl₁, ⟨_, rfl⟩, h'.node.state.commitIndex, rfl⟩

/-! ## Leading -/

theorem becomeLeader_link {peerIds : List NodeId} {Q : Finset NodeId}
    (hl : Link strict sure members n a h) (hn : n ∈ members)
    (hpeers : ∀ p ∈ peerIds, p ∈ members ∧ p ≠ n) (hstood : a.ballot n (a.term n) = some (n, l))
    (hQ : Majority members Q) (hvotes : ∀ v ∈ Q, ∃ l, a.ballot v (a.term n) = some (n, l)) :
    Spec (becomeLeader peerIds) h
      (fun _ h' => ∃ a', RaftPath members n a a' ∧ Link strict sure members n a' h')
      (Cut strict sure members n a) := by
  -- elected now, or elected before
  obtain ⟨a1, hp1, hs1, E, hE, hlead⟩ : ∃ a1, RaftPath members n a a1 ∧
      Synced strict sure members n a1 h ∧ ∃ E, a1.elect (a1.term n) = some E ∧ E.leader = n := by
    cases hE : a.elect (a.term n) with
    | none =>
      refine ⟨_, .tail .refl (.crown hE hstood hQ hvotes) (frame_crown Q),
        { hl.toSynced with saved := { hl.saved with } }, ⟨n, a.log n, Q⟩, ?_, rfl⟩
      exact update_self ..
    | some E => exact ⟨a, .refl, hl.toSynced, E, hE, hi.leader_unique hE hQ hvotes⟩
  refine spec_get_bind (spec_bind (spec_liftExcept (Q := fun _ h' => h' = h) (fun _ _ => rfl)
    (hl.cut .refl)) ?_)
  rintro next h' rfl
  refine spec_modify_bind (spec_modify_bind (tryAdvanceCommitIndex_link (hp1.inv hi) hp1
    ⟨hs1.of_eq rfl rfl rfl rfl rfl rfl, fun _ => ⟨E, hE, hlead⟩, fun _ p hp => ?_,
      fun _ _ p g hg => ?_⟩ rfl hn))
  all_goals
    have hins := OrdMap.getElem?_insertAll (∅ : Std.ExtTreeMap NodeId FollowerProgress)
      ⟨next, 0⟩ peerIds p
    rw [Std.ExtTreeMap.getElem?_empty] at hins
  · obtain ⟨g, hg⟩ := Option.isSome_iff_exists.mp (Std.ExtTreeMap.mem_iff_isSome_getElem?.mp hp)
    have hg := hins.symm.trans hg
    split at hg
    · next hmem => exact hpeers p hmem
    · cases hg
  · have hg := hins.symm.trans hg
    split at hg
    · cases hg
      exact Or.inl rfl
    · cases hg

theorem propose_link {command : RaftCommand} (hl : Link strict sure members n a h)
    (hn : n ∈ members) :
    Spec (propose command) h
      (fun _ h' => ∃ a', RaftPath members n a a' ∧ Link strict sure members n a' h')
      (Cut strict sure members n a) := by
  refine spec_get_bind (spec_ite (fun _ => hl.cut .refl) fun hrole => ?_)
  have hrole : h.node.role = .leader := not_not.mp hrole
  obtain ⟨E, hE, hlead⟩ := hl.leads.elected hrole
  have happend : Steers strict sure members n a (append h.node.currentTerm command) h fun _ _ h' =>
      h'.node.role = .leader := by
    refine spec_get_bind (spec_bind (spec_liftExcept
      (Q := fun r h' => h' = h ∧ h.node.log.push h.node.currentTerm command = .ok r)
      (fun _ hr => ⟨rfl, hr⟩) (hl.cut .refl)) ?_)
    rintro ⟨index, log⟩ h' ⟨rfl, hpush⟩
    obtain ⟨hindex, hlog⟩ := RaftLog.push_eq_ok hl.numbered hpush
    set e : RaftEntry := ⟨index, h'.node.currentTerm, command⟩
    have hp1 : RaftPath members n a (a.extend n e) :=
      .tail .refl (.extend hE hlead hl.term) (frame_extend e)
    refine spec_modify_bind (spec_bind (persist_link .refl hp1 hl.toSynced ?_)
      fun _ h1 hsaved => spec_pure ⟨_, hp1, ⟨hsaved.1, ?_⟩, ?_⟩)
    · exact { hl.saved with
        log := by
          show log.entries = (a.extend n e).log n
          rw [hlog, hl.entries]
          simp only [State.extend, update_self]
        numbered := by
          show NumberedFrom 0 log.entries
          rw [hlog]
          exact hl.numbered.snoc (show index = 0 + _ + 1 by omega) }
    · exact hl.leads.mono (by rw [hsaved.2]) (by rw [hsaved.2]) rfl (hp1.grows hi)
    · exact (congrArg RaftNode.role hsaved.2).trans hrole
  refine spec_bind happend fun _ h1 hres => ?_
  obtain ⟨a1, hp1, hl1, hrole1⟩ := hres
  exact spec_bind (tryAdvanceCommitIndex_link (hp1.inv hi) hp1 hl1 hrole1 hn)
    fun _ _ hres => spec_pure hres

end

/-! ## Following -/

/-- A request carries a stretch of the log of the leader of its term. One that
starts behind the end of that log carries nothing and names no term. -/
structure GoodRequest (strict : Prop) (members : Finset NodeId) (a : RaftHistory)
    (req : AppendEntriesRequest) : Prop where
  elected : ∃ E, a.elect req.term = some E
  stretch : req.entries = [] ∧ 0 < req.prevLogIndex ∧ req.prevLogTerm = 0 ∨
    ∃ l, l.length = req.prevLogIndex ∧ l ++ req.entries <+: a.lead req.term ∧
      req.prevLogTerm = lastTerm RaftEntry.term l
  commit : strict → Covered RaftEntry.term members a req.term req.leaderCommit

theorem GoodRequest.mono (hg : GoodRequest strict members a req) (hgrow : Grows a a') :
    GoodRequest strict members a' req where
  elected := by
    obtain ⟨E, hE⟩ := hg.elected
    exact ⟨E, hgrow.elect _ E hE⟩
  stretch := hg.stretch.imp id fun ⟨l, hlen, hpre, hterm⟩ =>
    ⟨l, hlen, hpre.trans (hgrow.lead _), hterm⟩
  commit hstrict := (hg.commit hstrict).mono (Nat.le_refl _) hgrow

theorem stretch_of_consistent (hi : RaftInv members a) (hs : Synced strict sure members n a h)
    (hg : GoodRequest strict members a req) (hterm : a.term n = req.term)
    (hcons : h.node.logIsConsistent req = true) :
    req.prevLogIndex ≤ (a.log n).length ∧
      (a.log n).take req.prevLogIndex ++ req.entries <+: a.lead (a.term n) := by
  unfold RaftNode.logIsConsistent at hcons
  rw [hs.lastIndex] at hcons
  split at hcons
  · next hpos =>
    split at hcons
    · cases hcons
    next hle =>
    obtain ⟨i, hi'⟩ : ∃ i, req.prevLogIndex = i + 1 := ⟨req.prevLogIndex - 1, by omega⟩
    rw [hi'] at hle
    obtain ⟨d, hd⟩ : ∃ d, (a.log n)[i]? = some d :=
      ⟨_, getElem?_eq_getElem (by omega)⟩
    have hdterm : d.term = req.prevLogTerm := by
      have h := of_decide_eq_true hcons
      rwa [hi', RaftLog.termAt_succ hs.numbered, hs.entries, hd] at h
    rcases hg.stretch with ⟨-, -, h0⟩ | ⟨l, hlen, hpre, hlast⟩
    · -- no entry is of term 0
      exact absurd (hdterm.trans h0) (Nat.ne_of_gt (hi.term_pos (mem_of_getElem? hd)))
    · have hne : l ≠ [] := by
        rintro rfl
        rw [length_nil] at hlen
        omega
      have hlead : l <+: a.lead req.term := (prefix_append ..).trans hpre
      have he : l[i]? = some (l.getLast hne) := by
        rw [getLast_eq_getElem, getElem?_eq_getElem (by omega)]
        simp only [hlen, hi', Nat.add_sub_cancel]
      have heterm : (l.getLast hne).term = req.prevLogTerm := by
        rw [hlast, lastTerm, getLast?_eq_some_getLast hne]
        rfl
      have htake := hi.lead_matching n req.term i d _ hd (getElem?_of_isPrefix hlead he)
        (hdterm.trans heterm.symm)
      have hl : (a.log n).take req.prevLogIndex = l := by
        rw [hi', htake, ← take_eq_of_isPrefix hlead (by omega), ← hi', ← hlen, take_length]
      refine ⟨by omega, ?_⟩
      rw [hl, hterm]
      exact hpre
  · next hzero =>
    have h0 : req.prevLogIndex = 0 := by omega
    rw [h0, hterm]
    refine ⟨Nat.zero_le _, ?_⟩
    rcases hg.stretch with ⟨-, hpos, -⟩ | ⟨l, hlen, hpre, -⟩
    · omega
    · rw [h0, length_eq_zero_iff] at hlen
      rwa [hlen] at hpre

theorem appendEntries_link (hi : RaftInv members a) (hp : RaftPath members n a₀ a)
    (hl : Link strict sure members n a h) (hE : ∃ E, a.elect (a.term n) = some E)
    (hprev : req.prevLogIndex ≤ (a.log n).length)
    (hes : (a.log n).take req.prevLogIndex ++ req.entries <+: a.lead (a.term n)) :
    Spec (appendEntries req) h
      (fun _ h' => ∃ a', RaftPath members n a a' ∧ Link strict sure members n a' h' ∧
        a'.term n = a.term n ∧ a'.lead = a.lead ∧
        a'.log n = merge RaftEntry.term (a.log n) req.prevLogIndex req.entries ∧
        h.node.log.appendEntriesChecked req.prevLogIndex req.entries = .ok h'.node.log)
      (Cut strict sure members n a₀) := by
  refine spec_ite (fun hempty => ?_) fun _ => ?_
  · rw [isEmpty_iff.mp hempty]
    exact spec_pure ⟨a, .refl, hl, rfl, rfl, rfl, rfl⟩
  refine spec_get_bind (spec_bind (spec_liftExcept (Q := fun log h' => h' = h ∧
    h.node.log.appendEntriesChecked req.prevLogIndex req.entries = .ok log)
    (fun _ hlog => ⟨rfl, hlog⟩) (hl.cut hp)) ?_)
  rintro log h' ⟨rfl, hlog⟩
  obtain ⟨E, hE⟩ := hE
  obtain ⟨hmerge, hnum⟩ := RaftLog.appendEntriesChecked_eq_ok hl.numbered
    (by rw [hl.entries]; exact hprev) hlog
  have hp₁ : RaftPath members n a (a.receive RaftEntry.term n req.prevLogIndex req.entries) :=
    .tail .refl (.receive hE hprev hes) (frame_receive ..)
  have hlog₁ : (a.receive RaftEntry.term n req.prevLogIndex req.entries).log n =
      merge RaftEntry.term (a.log n) req.prevLogIndex req.entries := update_self ..
  refine spec_modify_bind (spec_mono (persist_link hp (hp.trans hp₁) hl.toSynced ?_)
    (fun _ h₁ hsaved => ⟨_, hp₁, ⟨hsaved.1, ?_⟩, rfl, rfl, hlog₁, ?_⟩) fun _ hc => hc)
  · exact { hl.saved with
      log := by
        show log.entries = _
        rw [hlog₁, hmerge, hl.entries]
      numbered := hnum }
  · exact hl.leads.mono (by rw [hsaved.2]) (by rw [hsaved.2]) rfl (hp₁.grows hi)
  · rw [hsaved.2]
    exact hlog

/-- What the node keeps behind the entries of an accepted request is of the
request's term. -/
def Reaches (req : AppendEntriesRequest) (node : RaftNode) : Prop :=
  node.currentTerm ≤ req.term → node.logIsConsistent req = true →
    ∀ log ∈ (node.log.appendEntriesChecked req.prevLogIndex req.entries).toOption,
      ∀ e ∈ log.entriesFrom (req.prevLogIndex + req.entries.length + 1), e.term = req.term
deriving Decidable

theorem handleAppendEntries_link (hi : RaftInv members a) (hl : Link strict sure members n a h)
    (hg : GoodRequest strict members a req) (hreach : strict → Reaches req h.node) :
    Steers strict sure members n a (handleAppendEntries req) h fun resp a' _ =>
      strict → resp.success = true → a'.acked resp.nodeId resp.term resp.matchIndex := by
  refine spec_get_bind (spec_bind (becomeFollowerIf_link hi .refl hl ?_) fun _ h1 hres => ?_)
  · intro hdue
    rw [← hl.term]
    exact Nat.not_lt.mp (of_decide_eq_false (Bool.or_eq_false_iff.mp hdue).1)
  obtain ⟨a1, hp1, hl1, hle, hlog1, hnode1⟩ := hres
  have hi1 := hp1.inv hi
  have hg1 := hg.mono (hp1.grows hi)
  refine spec_get_bind (spec_ite (fun _ => spec_pure ⟨a1, hp1, hl1, fun _ => nofun⟩) fun hge => ?_)
  refine spec_ite (fun _ => spec_pure ⟨a1, hp1, hl1, fun _ => nofun⟩) fun hcons => ?_
  have ht : a1.term n = req.term := Nat.le_antisymm (hl1.term ▸ Nat.not_lt.mp hge) hle
  have hcons : h1.node.logIsConsistent req = true := by simpa using hcons
  obtain ⟨E, hE⟩ := hg1.elected
  rw [← ht] at hE
  obtain ⟨hprev, hes⟩ := stretch_of_consistent hi1 hl1.toSynced hg1 ht hcons
  refine spec_bind (appendEntries_link hi1 hp1 hl1 ⟨E, hE⟩ hprev hes) fun _ h2 hres => ?_
  obtain ⟨a2, hp2, hl2, hterm2, hlead2, hlog2, hcheck⟩ := hres
  have hi2 := hp2.inv hi1
  have hE2 : a2.elect (a2.term n) = some E := by
    rw [hterm2]
    exact (hp2.grows hi1).elect _ E hE
  -- under the condition the whole log is the leader's, so it may be acknowledged
  have hpre : strict → a2.log n <+: a2.lead (a2.term n) := by
    intro hstrict
    refine (hi2.grounded n).isPrefix_of_drop (k := req.prevLogIndex + req.entries.length) ?_ ?_
    · rw [hlog2, hlead2, hterm2]
      exact merge_agrees (hi1.lead_matching n _) hprev hes
    intro e he
    rw [hterm2, ht]
    have hbefore : h.node.currentTerm ≤ req.term := by
      rw [hl.term, ← ht]
      exact (hp1.grows hi).term n
    have hcons' : h.node.logIsConsistent req = true := by
      rw [RaftNode.logIsConsistent] at hcons ⊢
      rwa [← hnode1]
    refine hreach hstrict hbefore hcons' h2.node.log
      (toOption_eq_some.mpr (by rw [← hnode1]; exact hcheck)) e ?_
    rw [RaftLog.entriesFrom_succ hl2.numbered, hl2.entries]
    exact he
  obtain ⟨a3, hp3, hl3, hlog3, hlead3, hterm3, hE3, hacked3⟩ : ∃ a3, RaftPath members n a2 a3 ∧
      Link strict sure members n a3 h2 ∧ a3.log n = a2.log n ∧ a3.lead = a2.lead ∧
      a3.term n = a2.term n ∧ a3.elect = a2.elect ∧
      (strict → a3.acked n (a2.term n) (a2.log n).length) := by
    by_cases hstrict : strict
    · have hp3 : RaftPath members n a2 (a2.ack n (a2.log n).length) :=
        .tail .refl (.ack hE2 (Nat.le_refl _) (by rw [take_length]; exact hpre hstrict))
          (frame_ack _)
      exact ⟨_, hp3, ⟨{ hl2.toSynced with saved := { hl2.saved with } },
        hl2.leads.mono rfl rfl rfl (hp3.grows hi2)⟩, rfl, rfl, rfl, rfl, fun _ =>
          Or.inr ⟨rfl, rfl, rfl⟩⟩
    · exact ⟨a2, .refl, hl2, rfl, rfl, rfl, rfl, fun h => absurd h hstrict⟩
  have hi3 := hp3.inv hi2
  have hp := (hp1.trans hp2).trans hp3
  have hfollow : Steers strict sure members n a (followCommit req.leaderCommit) h2 fun _ a' h' =>
      OnlyCommit a3 a' h2.node h'.node := by
    refine spec_get_bind (spec_ite (fun _ => setCommitIndex_link hi3 hp hl3 fun hstrict _ => ?_)
      fun _ => spec_pure ⟨a3, hp, hl3, ⟨_, rfl⟩, h2.node.state.commitIndex, rfl⟩)
    have hlast : h2.node.log.lastIndex = (a3.log n).length := hl3.lastIndex
    refine ⟨⟨E, by rw [hterm3, hE3]; exact hE2⟩, hlast ▸ Nat.min_le_right .., ?_, ?_⟩
    · rw [hlog3, hlead3, hterm3]
      exact (List.take_prefix ..).trans (hpre hstrict)
    · have hcov := (hg1.mono ((hp2.trans hp3).grows hi1)).commit hstrict
      rw [hterm3, hterm2, ht]
      rcases hcov with h0 | ⟨T, k, hT, hk, hch⟩
      · exact Or.inl (by rw [h0, Nat.zero_min])
      · exact Or.inr ⟨T, k, hT, (Nat.min_le_left ..).trans hk, hch⟩
  refine spec_bind hfollow fun _ h4 hres => ?_
  obtain ⟨a4, hp4, hl4, ⟨c, rfl⟩, i, hnode4⟩ := hres
  refine spec_get_bind (spec_pure ⟨_, hp4, hl4, fun hstrict _ => ?_⟩)
  show a3.acked h4.node.nodeId h4.node.currentTerm h4.node.log.lastIndex
  rw [hl4.nodeId, hl4.term, hl4.lastIndex]
  show a3.acked n (a3.term n) (a3.log n).length
  rw [hterm3, hlog3]
  exact hacked3 hstrict

/-! ## Responses -/

/-- A response that raises what the leader counts on is of the leader's term. -/
def Timely (resp : AppendEntriesResponse) (node : RaftNode) : Prop :=
  node.role = .leader → resp.success = true → resp.term ≤ node.currentTerm →
    ∀ g ∈ node.followers[resp.nodeId]?, g.matchIndex < resp.matchIndex →
      resp.term = node.currentTerm
deriving Decidable

theorem leads_insert {p : NodeId} {g g' : FollowerProgress} (hl : Link strict sure members n a h)
    (hg : h.node.followers[p]? = some g)
    (hmatch : strict → g'.matchIndex = 0 ∨ a.acked p (a.term n) g'.matchIndex) :
    Leads strict members n a { h.node with followers := h.node.followers.insert p g' } where
  elected := hl.leads.elected
  peers hr q hq := by
    refine hl.leads.peers hr q ?_
    rcases Std.ExtTreeMap.mem_insert.mp hq with heq | hq
    · rw [← Std.LawfulEqCmp.eq_of_compare heq]
      exact Std.ExtTreeMap.mem_iff_isSome_getElem?.mpr (by rw [hg]; rfl)
    · exact hq
  matched hstrict hr q gq hq := by
    rw [Std.ExtTreeMap.getElem?_insert] at hq
    split at hq
    · next heq =>
      cases hq
      rw [← Std.LawfulEqCmp.eq_of_compare heq]
      exact hmatch hstrict
    · exact hl.leads.matched hstrict hr q gq hq

theorem handleAppendEntriesResponse_link {resp : AppendEntriesResponse} (hi : RaftInv members a)
    (hl : Link strict sure members n a h) (hn : n ∈ members)
    (hacked : strict → resp.success = true → a.acked resp.nodeId resp.term resp.matchIndex)
    (htimely : strict → Timely resp h.node) :
    Spec (handleAppendEntriesResponse resp) h
      (fun _ h' => ∃ a', RaftPath members n a a' ∧ Link strict sure members n a' h')
      (Cut strict sure members n a) := by
  refine spec_get_bind (spec_ite (fun _ => ?_) fun hle => ?_)
  · exact spec_mono (becomeFollower_link hi .refl hl.toSynced)
      (fun _ _ ⟨a', hp', hl', _⟩ => ⟨a', hp', hl'⟩) fun _ hc => hc
  refine spec_ite (fun _ => spec_pure ⟨a, .refl, hl⟩) fun hrole => ?_
  have hrole : h.node.role = .leader := not_not.mp hrole
  cases hg : h.node.followers[resp.nodeId]? with
  | none => exact spec_pure ⟨a, .refl, hl⟩
  | some g =>
    refine spec_ite (fun hsuccess => ?_) fun _ => spec_modify ⟨a, .refl,
      hl.toSynced.of_eq rfl rfl rfl rfl rfl rfl, leads_insert hl hg fun hstrict =>
        hl.leads.matched hstrict hrole _ g hg⟩
    have hnote : Spec (noteMatch resp.nodeId g resp.matchIndex) h
        (fun _ h' => Link strict sure members n a h' ∧ h'.node.role = .leader)
        (Cut strict sure members n a) := by
      refine spec_ite (fun hlt => ?_) fun _ => spec_pure ⟨hl, hrole⟩
      refine spec_bind (spec_liftExcept (Q := fun _ h' => h' = h) (fun _ _ => rfl)
        (hl.cut .refl)) ?_
      rintro next h' rfl
      refine spec_modify ⟨⟨hl.toSynced.of_eq rfl rfl rfl rfl rfl rfl, leads_insert hl hg ?_⟩, hrole⟩
      intro hstrict
      refine Or.inr ?_
      rw [← hl.term, ← htimely hstrict hrole hsuccess (Nat.not_lt.mp hle) g hg hlt]
      exact hacked hstrict hsuccess
    exact spec_bind hnote fun _ h' hres =>
      tryAdvanceCommitIndex_link hi .refl hres.1 hres.2 hn

end RaftOp

end AionDb
