import AionDb.HaRaftCluster

/-!
# What a Raft cluster has committed

A follower answers an accepted request with the last index of its log, and
takes that index as the bound of its commit index, although its log may go on
behind the entries of the request with entries no leader of that term has. A
leader counts a success response whatever term it was sent in. Either makes a
leader count an entry on a node that does not hold it, and the entry is lost
when the next leader is elected without it.

In runs in which neither happens (`RaftCluster.Fits`), the history ties commit
indexes and acknowledgements, and nodes agree on what they have committed.
-/

namespace AionDb

namespace RaftCluster

open ReplicatedLog

variable {members : Finset NodeId} {c c' : RaftCluster} {a : RaftHistory} {as : List ClusterAction}

structure Keeps (c c' : RaftCluster) : Prop where
  commit : ∀ n, (c.hosts n).node.commitIndex ≤ (c'.hosts n).node.commitIndex
  log : ∀ n, (c.hosts n).node.log.entries.take (c.hosts n).node.commitIndex <+:
    (c'.hosts n).node.log.entries

theorem Keeps.refl (c : RaftCluster) : Keeps c c :=
  ⟨fun _ => Nat.le_refl _, fun _ => List.take_prefix ..⟩

theorem Keeps.trans {c1 c2 c3 : RaftCluster} (h : Keeps c1 c2) (h' : Keeps c2 c3)
    (hlen : ∀ n, (c1.hosts n).node.commitIndex ≤ (c1.hosts n).node.log.entries.length) :
    Keeps c1 c3 := by
  refine ⟨fun n => (h.commit n).trans (h'.commit n), fun n => ?_⟩
  refine List.IsPrefix.trans ?_ (h'.log n)
  rw [List.prefix_take_iff, List.length_take, Nat.min_eq_left (hlen n)]
  exact ⟨h.log n, h.commit n⟩

theorem Refines.step_keeps (hr : Refines True members c a) {action : ClusterAction}
    (hfits : c.Fits action) (hstep : c.step members action = some c') :
    ∃ a', Refines True members c' a' ∧ Keeps c c' := by
  obtain ⟨n, a', hp, hr'⟩ := hr.step (fun _ => hfits) hstep
  have hkeeps := hp.keeps hr.inv (hr.acks trivial)
  refine ⟨a', hr', fun m => ?_, fun m => ?_⟩
  · rw [(hr.link m).toSynced.commit trivial, (hr'.link m).toSynced.commit trivial]
    exact (hkeeps m).1
  · rw [(hr.link m).toSynced.commit trivial, (hr.link m).toSynced.entries,
      (hr'.link m).toSynced.entries]
    exact (hkeeps m).2

theorem Refines.commit_le (hr : Refines True members c a) (n : NodeId) :
    (c.hosts n).node.commitIndex ≤ (c.hosts n).node.log.entries.length := by
  rw [(hr.link n).toSynced.commit trivial, (hr.link n).toSynced.entries]
  exact ((hr.acks trivial).committed n).1

theorem Refines.run (hr : Refines True members c a)
    (hfits : Run.Along (RaftCluster.step members) Fits c as)
    (hrun : Run.run (RaftCluster.step members) c as = some c') :
    ∃ a', Refines True members c' a' ∧ Keeps c c' := by
  induction as generalizing c a with
  | nil =>
    cases hrun
    exact ⟨a, hr, .refl _⟩
  | cons action as ih =>
    obtain ⟨c1, hstep, hrest⟩ := Run.run_cons.mp hrun
    obtain ⟨a1, hr1, hkeep⟩ := hr.step_keeps hfits.1 hstep
    obtain ⟨a', hr', hkeep'⟩ := ih hr1 (hfits.2 c1 hstep) hrest
    exact ⟨a', hr', hkeep.trans hkeep' hr.commit_le⟩

/-- In every run in which followers keep nothing foreign behind the entries they
accept and leaders count only acknowledgements of their term: two nodes hold the
same entry at every index both have committed, and hold it for good. -/
theorem state_machine_safety (members : Finset NodeId) (as bs : List ClusterAction)
    (c c' : RaftCluster) (hrun : Run.run (RaftCluster.step members) (init members) as = some c)
    (hrun' : Run.run (RaftCluster.step members) c bs = some c')
    (hfits : Run.Along (RaftCluster.step members) Fits (init members) (as ++ bs)) (n m : NodeId)
    (i : Nat) (hpos : 0 < i) (hn : i ≤ (c.hosts n).node.commitIndex)
    (hm : i ≤ (c.hosts m).node.commitIndex) :
    ∃ e, (c.hosts n).node.log.get i = some e ∧ (c.hosts m).node.log.get i = some e ∧
      i ≤ (c'.hosts n).node.commitIndex ∧ (c'.hosts n).node.log.get i = some e := by
  obtain ⟨hfits, hfits'⟩ := Run.along_append hfits hrun
  obtain ⟨a, hr, -⟩ := refines_init.run hfits hrun
  obtain ⟨a', hr', hkeep⟩ := hr.run hfits' hrun'
  obtain ⟨j, rfl⟩ : ∃ j, i = j + 1 := ⟨i - 1, by omega⟩
  have hln := (hr.link n).toSynced
  have hlm := (hr.link m).toSynced
  rw [RaftLog.get_succ hln.numbered, RaftLog.get_succ hlm.numbered,
    RaftLog.get_succ (hr'.link n).toSynced.numbered]
  have hj : j < (c.hosts n).node.log.entries.length := Nat.lt_of_lt_of_le hn (hr.commit_le n)
  have hsame := (hr.acks trivial).agree hr.inv n m (i := j)
    (by rw [← hln.commit trivial]; exact hn) (by rw [← hlm.commit trivial]; exact hm)
  rw [← hln.entries, ← hlm.entries] at hsame
  have he := List.getElem?_eq_getElem hj
  refine ⟨_, he, hsame ▸ he, hn.trans (hkeep.commit n), ?_⟩
  exact getElem?_of_isPrefix (hkeep.log n) (by rw [List.getElem?_take_of_lt hn, he])

/-- Node 1 leads term 1, replicates an entry to node 2, commits it and tells node 2. -/
def committedRun : List ClusterAction :=
  [.call 1 .becomeCandidate, .call 2 (.handleVoteRequest 1 1 0 0), .call 1 (.becomeLeader [2, 3]),
    .call 1 (.propose .noop), .send 1, .call 2 (.handleAppendEntries ⟨1, 1, 0, 0, [⟨1, 1, .noop⟩], 0⟩),
    .call 1 (.handleAppendEntriesResponse ⟨1, 2, true, 1⟩), .send 1,
    .call 2 (.handleAppendEntries ⟨1, 1, 1, 1, [], 1⟩)]

def electedLater : List ClusterAction :=
  [.restart 2, .call 2 .becomeCandidate, .call 3 (.handleVoteRequest 2 2 1 1),
    .call 2 (.becomeLeader [1, 3]), .send 2, .call 1 (.handleAppendEntries ⟨2, 2, 1, 1, [], 1⟩)]

def afterCommit : RaftCluster :=
  Run.after (RaftCluster.step {1, 2, 3}) (init {1, 2, 3}) committedRun

def afterElection : RaftCluster := Run.after (RaftCluster.step {1, 2, 3}) afterCommit electedLater

theorem run_committedRun :
    Run.run (RaftCluster.step {1, 2, 3}) (init {1, 2, 3}) committedRun = some afterCommit :=
  Run.run_eq_some_after (by decide +kernel)

theorem run_electedLater :
    Run.run (RaftCluster.step {1, 2, 3}) afterCommit electedLater = some afterElection :=
  Run.run_eq_some_after (by decide +kernel)

theorem state_machine_safety_handover :
    (afterElection.hosts 2).node.role = .leader ∧
      ∃ e, (afterCommit.hosts 1).node.log.get 1 = some e ∧
        (afterCommit.hosts 2).node.log.get 1 = some e ∧
        1 ≤ (afterElection.hosts 1).node.commitIndex ∧
        (afterElection.hosts 1).node.log.get 1 = some e := by
  refine ⟨by decide +kernel, ?_⟩
  exact state_machine_safety {1, 2, 3} committedRun electedLater afterCommit afterElection
    run_committedRun run_electedLater (by decide +kernel) 1 2 1 (by decide) (by decide +kernel)
    (by decide +kernel)

/-- Node 1 leads term 1 and keeps its entry to itself. Node 2 leads term 2 with
an empty log; node 1 answers its empty request with the last index of its own
log, so node 2 counts its first entry on node 1 and commits it. Node 1 leads
term 3 and commits its own entry with node 3. -/
def divergentCommits : List ClusterAction :=
  [.call 1 .becomeCandidate, .call 3 (.handleVoteRequest 1 1 0 0), .call 1 (.becomeLeader [2, 3]),
    .call 1 (.propose .noop),
    .call 2 .becomeCandidate, .call 2 .becomeCandidate, .call 3 (.handleVoteRequest 2 2 0 0),
    .call 2 (.becomeLeader [1, 3]), .send 2, .call 1 (.handleAppendEntries ⟨2, 2, 0, 0, [], 0⟩),
    .call 2 (.handleAppendEntriesResponse ⟨2, 1, true, 1⟩), .call 2 (.propose (.removeNode 9)),
    .call 1 .becomeCandidate, .call 3 (.handleVoteRequest 3 1 1 1), .call 1 (.becomeLeader [2, 3]),
    .call 1 (.propose .noop), .send 1,
    .call 3 (.handleAppendEntries ⟨3, 1, 1, 1, [⟨2, 3, .noop⟩], 0⟩),
    .call 1 (.handleAppendEntriesResponse ⟨3, 3, false, 0⟩), .send 1,
    .call 3 (.handleAppendEntries ⟨3, 1, 0, 0, [⟨1, 1, .noop⟩, ⟨2, 3, .noop⟩], 0⟩),
    .call 1 (.handleAppendEntriesResponse ⟨3, 3, true, 2⟩)]

theorem two_nodes_commit_different_entries :
    ∃ c, Run.run (RaftCluster.step {1, 2, 3}) (init {1, 2, 3}) divergentCommits = some c ∧
      1 ≤ (c.hosts 1).node.commitIndex ∧ 1 ≤ (c.hosts 2).node.commitIndex ∧
      (c.hosts 1).node.log.get 1 = some ⟨1, 1, .noop⟩ ∧
      (c.hosts 2).node.log.get 1 = some ⟨1, 2, .removeNode 9⟩ :=
  ⟨_, Run.run_eq_some_after (by decide +kernel), by decide +kernel⟩

end RaftCluster

end AionDb
