import AionDb.HaElection
import AionDb.LibRun

/-!
# At most one winner for every epoch

A vote is out once the candidate's own tally has it or the response that grants
it is sent; before that it is pending in its call. For every process, `Inv`
says that a vote that is out or pending is still the recorded one or of a past
epoch, in memory, and in the file from the moment it is out. Two things can
break this, and `Orderly` excludes them: the self-vote of `start_election`
overwrites the vote without a look at it, and the write of an old snapshot
replaces a newer file.
-/

namespace AionDb

open Std ExtTreeMap List Option

/-- The instances of a cluster are at most as many as they think. -/
structure ElectionCluster where
  members : Finset NodeId
  clusterSize : Nat
  card_le : members.card ≤ clusterSize

structure VoteResponse where
  voter : NodeId
  req : VoteRequest
  granted : Bool
deriving DecidableEq

structure ElectionSystem where
  processes : NodeId → ElectionProcess
  responses : List VoteResponse := []
  votes : List (NodeId × Vote) := []
  wins : List (NodeId × Epoch) := []

inductive ElectionAction where
  | call (node : NodeId) (id : Nat) (op : ElectionOp)
  | advance (node : NodeId) (id : Nat)
  | recordVote (response : VoteResponse)
  | restart (node : NodeId)

namespace ElectionSystem

def init (c : ElectionCluster) : ElectionSystem :=
  { processes := fun node => { election := .withPersistence node c.clusterSize {} } }

def put (s : ElectionSystem) (node : NodeId) (p : ElectionProcess) : ElectionSystem :=
  { s with processes := Function.update s.processes node p }

/-- A call that has reached its goal makes its vote, and its response, known. -/
def publish (s : ElectionSystem) (node : NodeId) (goal : ElectionGoal) : ElectionSystem :=
  { s with
    votes := (goal.vote node).toList.map (node, ·) ++ s.votes
    responses :=
      match goal with
      | .started _ => s.responses
      | .answered req granted => ⟨node, req, granted⟩ :: s.responses }

def step (c : ElectionCluster) (s : ElectionSystem) : ElectionAction → Option ElectionSystem
  | .call node id op =>
    let p := s.processes node
    if node ∈ c.members ∧ p.calls[id]? = none then
      some (s.put node (p.goOn id p.election (.begin op)))
    else none
  | .advance node id => do
    let call ← (s.processes node).calls[id]?
    let (p, goal) ← (s.processes node).advance id call
    some (goal.elim (s.put node p) ((s.put node p).publish node))
  | .recordVote r =>
    if r ∈ s.responses then
      let node := r.req.candidateId
      let p := s.processes node
      let (e, result) := p.election.recordVote r.req.epoch r.voter r.granted
      let s := s.put node { p with election := e }
      some (if result = some (.won r.req.epoch) then
        { s with wins := (node, r.req.epoch) :: s.wins } else s)
    else none
  | .restart node => some (s.put node (s.processes node).restart)

def votesOf (s : ElectionSystem) (node : NodeId) : List Vote :=
  (s.votes.filterMap fun v => if v.1 = node then some v.2 else none) ++
    (s.processes node).calls.toList.filterMap fun c => c.2.goal?.bind (·.vote node)

end ElectionSystem

/-- An instance with this counter and this last vote gives no other vote in the epoch. -/
def Vote.Kept (v : Vote) (epoch : Epoch) (votedFor : Option Vote) : Prop :=
  v.epoch < epoch ∨ votedFor = some v
deriving Decidable

namespace ElectionSystem

/-- A self-vote meets no other vote of its epoch and no later one, and a snapshot that is
written keeps what the file has. -/
def Orderly (s : ElectionSystem) : ElectionAction → Prop
  | .advance node id =>
    match (s.processes node).calls[id]? with
    | some (.selfVote epoch) =>
      (∀ v ∈ s.votesOf node, v.epoch = epoch → v.candidate = node) ∧
      ∀ v ∈ (s.processes node).election.votedFor, v.epoch ≤ epoch
    | some (.persistWrite _ snapshot) =>
      (s.processes node).file.epoch ≤ snapshot.epoch ∧
      ∀ v ∈ (s.processes node).file.votedFor, v.Kept snapshot.epoch snapshot.votedFor
    | _ => True
  | _ => True

instance (s : ElectionSystem) (a : ElectionAction) : Decidable (s.Orderly a) := by
  unfold Orderly
  cases a with
  | advance node id => dsimp only; split <;> infer_instance
  | _ => dsimp only; infer_instance

end ElectionSystem

/-! ## One process -/

theorem Vote.Kept.mono {v : Vote} {epoch epoch' : Epoch} {votedFor : Option Vote}
    (h : v.Kept epoch votedFor) (hle : epoch ≤ epoch') : v.Kept epoch' votedFor :=
  h.imp (Nat.lt_of_lt_of_le · hle) id

namespace ElectionProcess

def Given (p : ElectionProcess) (node : NodeId) (out : List Vote) (v : Vote) : Prop :=
  v ∈ out ∨ ∃ (id : Nat) (call : ElectionCall) (goal : ElectionGoal),
    p.calls[id]? = some call ∧ call.goal? = some goal ∧ goal.vote node = some v

def CallOk (p : ElectionProcess) (node : NodeId) (out : List Vote) (id : Nat) : ElectionCall → Prop
  | .selfVote epoch => epoch ≤ p.election.currentEpoch
  | .handleEpoch _ localEpoch => p.voteLock = some id ∧ localEpoch ≤ p.election.currentEpoch
  | .handleTallies req | .handleCurrent req =>
    p.voteLock = some id ∧ req.epoch ≤ p.election.currentEpoch
  | .handleDecide req current =>
    p.voteLock = some id ∧ req.epoch ≤ p.election.currentEpoch ∧ (current ≤ req.epoch →
      (∀ v, p.Given node out v → v.epoch = req.epoch → p.election.votedFor = some v) ∧
      ∀ v ∈ p.election.votedFor, v.epoch ≤ req.epoch)
  | .persistEpoch goal votedFor => ∀ v ∈ goal.vote node, v.Kept p.election.currentEpoch votedFor
  | .persistWrite goal snapshot => ∀ v ∈ goal.vote node, v.Kept snapshot.epoch snapshot.votedFor
  | .finish goal => ∀ v ∈ goal.vote node, v.Kept p.file.epoch p.file.votedFor
  | _ => True

structure Inv (p : ElectionProcess) (c : ElectionCluster) (node : NodeId) (out : List Vote) :
    Prop where
  nodeId : p.election.nodeId = node
  clusterSize : p.election.clusterSize = c.clusterSize
  vote_le : ∀ v ∈ p.election.votedFor, v.epoch ≤ p.election.currentEpoch
  kept : ∀ v, p.Given node out v → v.Kept p.election.currentEpoch p.election.votedFor
  once : ∀ v w, p.Given node out v → p.Given node out w → v.epoch = w.epoch → v = w
  filed : ∀ v ∈ out, v.Kept p.file.epoch p.file.votedFor
  calls : ∀ id call, p.calls[id]? = some call → p.CallOk node out id call

variable {p q : ElectionProcess} {c : ElectionCluster} {node : NodeId} {out out' : List Vote} {id : Nat}
  {next : Option ElectionCall}

variable {goal : Option ElectionGoal} {call : ElectionCall} {e : LeaderElection} {epoch : Epoch}

/-- A call keeps what it relies on while another one moves: the counter only rises, the
file loses nothing, and the vote stays while the call has its mutex. -/
theorem CallOk.frame {i : Nat} (h : p.CallOk node out i call)
    (hcur : p.election.currentEpoch ≤ q.election.currentEpoch)
    (hlock : p.voteLock = some i → q.voteLock = some i ∧
      q.election.votedFor = p.election.votedFor ∧
      ∀ v, q.Given node out' v → p.Given node out v)
    (hfile : ∀ v : Vote, v.Kept p.file.epoch p.file.votedFor →
      v.Kept q.file.epoch q.file.votedFor) :
    q.CallOk node out' i call := by
  cases call with
  | selfVote epoch => exact Nat.le_trans h hcur
  | handleEpoch req localEpoch | handleTallies req | handleCurrent req =>
    exact ⟨(hlock h.1).1, Nat.le_trans h.2 hcur⟩
  | handleDecide req current =>
    obtain ⟨hheld, hle, hdecide⟩ := h
    obtain ⟨hheld', hvote, hgiven⟩ := hlock hheld
    refine ⟨hheld', Nat.le_trans hle hcur, fun hcurrent => ?_⟩
    rw [hvote]
    exact ⟨fun v hv => (hdecide hcurrent).1 v (hgiven v hv), (hdecide hcurrent).2⟩
  | persistEpoch goal votedFor => exact fun v hv => (h v hv).mono hcur
  | persistWrite goal snapshot => exact h
  | finish goal => exact fun v hv => hfile v (h v hv)
  | begin op => trivial
  | advanceTallies epoch => trivial
  | persistVote goal => trivial

theorem Inv.quiet (hi : p.Inv c node out) (hnode : q.election.nodeId = p.election.nodeId)
    (hsize : q.election.clusterSize = p.election.clusterSize)
    (hcur : p.election.currentEpoch ≤ q.election.currentEpoch)
    (hvote : q.election.votedFor = p.election.votedFor)
    (hcalls : ∀ i, q.calls[i]? = if i = id then next else p.calls[i]?)
    (hlock : ∀ i, i ≠ id → p.voteLock = some i → q.voteLock = some i)
    (hfile : ∀ v : Vote, v.Kept p.file.epoch p.file.votedFor → v.Kept q.file.epoch q.file.votedFor)
    (hgiven : ∀ v, q.Given node out' v → p.Given node out v)
    (hout : ∀ v ∈ out', v ∈ out ∨ v.Kept q.file.epoch q.file.votedFor)
    (hself : ∀ call ∈ next, q.CallOk node out' id call) : q.Inv c node out' where
  nodeId := hnode.trans hi.nodeId
  clusterSize := hsize.trans hi.clusterSize
  vote_le v hv := Nat.le_trans (hi.vote_le v (hvote ▸ hv)) hcur
  kept v hv := by
    rw [hvote]
    exact (hi.kept v (hgiven v hv)).mono hcur
  once v w hv hw := hi.once v w (hgiven v hv) (hgiven w hw)
  filed v hv := (hout v hv).elim (fun h => hfile v (hi.filed v h)) fun h => h
  calls i call hc := by
    rw [hcalls] at hc
    split at hc
    · next heq => exact heq ▸ hself call hc
    · next hne =>
      exact (hi.calls i call hc).frame hcur (fun h => ⟨hlock i hne h, hvote, hgiven⟩) hfile

theorem given_of_calls (hcalls : ∀ i, q.calls[i]? = if i = id then next else p.calls[i]?) {v : Vote}
    (hv : q.Given node out v) :
    p.Given node out v ∨ ∃ call ∈ next, ∃ goal, call.goal? = some goal ∧
      goal.vote node = some v := by
  rcases hv with hv | ⟨i, call, goal, hcall, hgoal, hvote⟩
  · exact .inl (.inl hv)
  · rw [hcalls] at hcall
    split at hcall
    · exact .inr ⟨call, hcall, goal, hgoal, hvote⟩
    · exact .inl (.inr ⟨i, call, goal, hcall, hgoal, hvote⟩)

theorem given_of_sameGoal (hcall : p.calls[id]? = some call)
    (hcalls : ∀ i, q.calls[i]? = if i = id then next else p.calls[i]?)
    (hgoal : ∀ c ∈ next, ∀ goal, c.goal? = some goal →
      call.goal? = some goal ∨ goal.vote node = none) (v : Vote)
    (hv : q.Given node out v) : p.Given node out v := by
  rcases given_of_calls hcalls hv with hv | ⟨c, hc, goal, hg, hvote⟩
  · exact hv
  · rcases hgoal c hc goal hg with hg | hnone
    · exact .inr ⟨id, call, goal, hcall, hg, hvote⟩
    · rw [hnone] at hvote
      cases hvote

theorem calls_goOn (p : ElectionProcess) (id : Nat) (e : LeaderElection) (call : ElectionCall)
    (i : Nat) : (p.goOn id e call).calls[i]? = if i = id then some call else p.calls[i]? := by
  by_cases hi : i = id <;> simp [goOn, hi, ExtTreeMap.getElem?_insert, @eq_comm _ id]

theorem calls_endCall (p : ElectionProcess) (id : Nat) (e : LeaderElection) (i : Nat) :
    (p.endCall id e).calls[i]? = if i = id then none else p.calls[i]? := by
  by_cases hi : i = id <;> simp [endCall, hi, getElem?_erase, @eq_comm _ id]

theorem Inv.goOn (hi : p.Inv c node out) {next : ElectionCall} (hcall : p.calls[id]? = some call)
    (hnode : e.nodeId = p.election.nodeId) (hsize : e.clusterSize = p.election.clusterSize)
    (hcur : p.election.currentEpoch ≤ e.currentEpoch) (hvote : e.votedFor = p.election.votedFor)
    (hgoal : ∀ goal, next.goal? = some goal → call.goal? = some goal)
    (hself : (p.goOn id e next).CallOk node out id next) : (p.goOn id e next).Inv c node out := by
  refine hi.quiet hnode hsize hcur hvote (calls_goOn p id e next) (fun _ _ h => h) (fun _ h => h)
    (given_of_sameGoal hcall (calls_goOn p id e next) ?_) (fun v hv => .inl hv) ?_
  · intro c hc goal hg
    cases hc
    exact .inl (hgoal goal hg)
  · intro c hc
    cases hc
    exact hself

theorem Inv.endCall (hi : p.Inv c node out) (hcall : p.calls[id]? = some call)
    (hnode : e.nodeId = p.election.nodeId) (hsize : e.clusterSize = p.election.clusterSize)
    (hcur : p.election.currentEpoch = e.currentEpoch) (hvote : e.votedFor = p.election.votedFor) :
    (p.endCall id e).Inv c node out := by
  refine hi.quiet hnode hsize (Nat.le_of_eq hcur) hvote (calls_endCall p id e) (fun _ _ h => h)
    (fun _ h => h) (given_of_sameGoal hcall (calls_endCall p id e) ?_) (fun v hv => .inl hv) ?_
  · intro c hc
    cases hc
  · intro c hc
    cases hc

theorem Inv.castVote (hi : p.Inv c node out) {vote : Vote} {goal : ElectionGoal}
    (hgoal : goal.vote node = some vote) (hle : vote.epoch ≤ p.election.currentEpoch)
    (hsame : ∀ v, p.Given node out v → v.epoch = vote.epoch → v = vote)
    (hlast : ∀ v ∈ p.election.votedFor, v.epoch ≤ vote.epoch)
    (hlock : ∀ i, i ≠ id → p.voteLock ≠ some i) :
    (p.goOn id (p.election.castVote vote) (.persistVote goal)).unlockVote.Inv c node out := by
  have hcalls := calls_goOn p id (p.election.castVote vote) (.persistVote goal)
  have hgiven : ∀ v,
      (p.goOn id (p.election.castVote vote) (.persistVote goal)).unlockVote.Given node out v →
      p.Given node out v ∨ v = vote := by
    intro v hv
    rcases given_of_calls hcalls hv with hv | ⟨c, hc, goal', hg, hvote⟩
    · exact .inl hv
    · cases hc
      cases hg
      exact .inr (Option.some.inj (hvote.symm.trans hgoal))
  refine ⟨hi.nodeId, hi.clusterSize, fun v hv => ?_, fun v hv => ?_, fun v w hv hw heq => ?_, hi.filed,
    fun i call hc => ?_⟩
  · cases hv
    exact hle
  · rcases hgiven v hv with hv | rfl
    · rcases hi.kept v hv with hpast | hrec
      · exact .inl hpast
      · have hno := hlast v hrec
        by_cases hpast : v.epoch < p.election.currentEpoch
        · exact .inl hpast
        · have hsameEpoch := Nat.le_antisymm hno (Nat.le_trans hle (Nat.not_lt.mp hpast))
          exact .inr (congrArg some (hsame v hv hsameEpoch).symm)
    · exact .inr rfl
  · rcases hgiven v hv with hv' | hv' <;> rcases hgiven w hw with hw' | hw'
    · exact hi.once v w hv' hw' heq
    · exact (hsame v hv' (hw' ▸ heq)).trans hw'.symm
    · exact hv'.trans (hsame w hw' (hv' ▸ heq.symm)).symm
    · exact hv'.trans hw'.symm
  · have hc := (hcalls i).symm.trans hc
    split at hc
    · cases hc
      trivial
    · next hne =>
      exact (hi.calls i call hc).frame (Nat.le_refl _) (fun h => absurd h (hlock i hne))
        fun _ h => h

theorem Inv.forgetVote (hi : p.Inv c node out) {next : ElectionCall}
    (hcall : p.calls[id]? = some call) (hgoal : next.goal? = none) (hlock : p.voteLock = some id)
    (hself : (p.goOn id ((p.election.raiseEpoch epoch).forgetVote epoch) next).CallOk
      node out id next) :
    (p.goOn id ((p.election.raiseEpoch epoch).forgetVote epoch) next).Inv c node out := by
  have hcalls := calls_goOn p id ((p.election.raiseEpoch epoch).forgetVote epoch) next
  have hgiven : ∀ v, (p.goOn id ((p.election.raiseEpoch epoch).forgetVote epoch) next).Given
      node out v → p.Given node out v :=
    given_of_sameGoal hcall hcalls fun c hc goal hg => by
      cases hc
      rw [hgoal] at hg
      cases hg
  have hcur : p.election.currentEpoch ≤ max p.election.currentEpoch epoch := Nat.le_max_left ..
  refine ⟨hi.nodeId, hi.clusterSize, fun v hv => ?_, fun v hv => ?_, fun v w hv hw => ?_, hi.filed,
    fun i c hc => ?_⟩
  · have hv : v ∈ p.election.votedFor := (filter_eq_some_iff.mp hv).1
    exact Nat.le_trans (hi.vote_le v hv) hcur
  · rcases hi.kept v (hgiven v hv) with hpast | hrec
    · exact .inl (Nat.lt_of_lt_of_le hpast hcur)
    · by_cases hle : epoch ≤ v.epoch
      · exact .inr (filter_eq_some_iff.mpr ⟨hrec, decide_eq_true hle⟩)
      · exact .inl (Nat.lt_of_lt_of_le (Nat.not_le.mp hle) (Nat.le_max_right ..))
  · exact hi.once v w (hgiven v hv) (hgiven w hw)
  · have hc := (hcalls i).symm.trans hc
    split at hc
    · next heq =>
      cases hc
      exact heq ▸ hself
    · next hne =>
      refine (hi.calls i c hc).frame hcur (fun h => ?_) fun _ h => h
      exact absurd (Option.some.inj (hlock.symm.trans h)).symm hne

theorem kept_of_ordered {old new : PersistedElection} (hle : old.epoch ≤ new.epoch)
    (hkeeps : ∀ v ∈ old.votedFor, v.Kept new.epoch new.votedFor) (v : Vote)
    (hv : v.Kept old.epoch old.votedFor) : v.Kept new.epoch new.votedFor := by
  rcases hv with hpast | hrec
  · exact .inl (Nat.lt_of_lt_of_le hpast hle)
  · exact hkeeps v hrec

def StepOrderly (p : ElectionProcess) (node : NodeId) (out : List Vote) : ElectionCall → Prop
  | .selfVote epoch =>
    (∀ v, p.Given node out v → v.epoch = epoch → v.candidate = node) ∧
    ∀ v ∈ p.election.votedFor, v.epoch ≤ epoch
  | .persistWrite _ snapshot =>
    p.file.epoch ≤ snapshot.epoch ∧
    ∀ v ∈ p.file.votedFor, v.Kept snapshot.epoch snapshot.votedFor
  | _ => True

theorem Inv.advance_handleDecide (hi : p.Inv c node out) {req : VoteRequest} {current : Epoch}
    (hcall : p.calls[id]? = some (.handleDecide req current))
    (hstep : p.advance id (.handleDecide req current) = some (q, goal)) : q.Inv c node out := by
  obtain ⟨hlock, hle, hdecide⟩ := hi.calls id _ hcall
  have hothers : ∀ i, i ≠ id → p.voteLock ≠ some i := fun i hne h =>
    hne (Option.some.inj (hlock.symm.trans h)).symm
  simp only [advance] at hstep
  cases hgrants : p.election.grants req current with (rw [hgrants] at hstep)
  | false =>
    cases hstep
    have hcalls := calls_goOn p id p.election (.persistVote (.answered req false))
    refine hi.quiet (q := (p.goOn id p.election _).unlockVote) rfl rfl (Nat.le_refl _) rfl hcalls
      (fun i hne h => absurd h (hothers i hne)) (fun _ h => h)
      (given_of_sameGoal hcall hcalls ?_) (fun v hv => .inl hv) ?_
    · intro c hc goal hg
      cases hc
      cases hg
      exact .inr rfl
    · intro c hc
      cases hc
      trivial
  | true =>
    cases hstep
    simp only [LeaderElection.grants] at hgrants
    split at hgrants
    · cases hgrants
    next hcurrent =>
    split at hgrants
    · cases hgrants
    next hother =>
    obtain ⟨hrec, hlast⟩ := hdecide (Nat.not_lt.mp hcurrent)
    refine hi.castVote rfl hle (fun v hv heq => ?_) hlast hothers
    have hcand : v.candidate = req.candidateId := by
      simpa [hrec v hv heq, heq] using hother
    cases v
    simp_all

theorem Inv.publish (hi : p.Inv c node out) {goal : ElectionGoal}
    (hcall : p.calls[id]? = some (.finish goal)) (hnode : e.nodeId = p.election.nodeId)
    (hsize : e.clusterSize = p.election.clusterSize)
    (hcur : p.election.currentEpoch = e.currentEpoch) (hvote : e.votedFor = p.election.votedFor) :
    (p.endCall id e).Inv c node ((goal.vote node).toList ++ out) := by
  refine hi.quiet hnode hsize (Nat.le_of_eq hcur) hvote (calls_endCall p id e) (fun _ _ h => h)
    (fun _ h => h) (fun v hv => ?_) (fun v hv => ?_) (fun c hc => by cases hc)
  · rcases hv with hv | ⟨i, c, g, hc, hg, hv⟩
    · rcases mem_append.mp hv with hv | hv
      · exact .inr ⟨id, _, goal, hcall, rfl, mem_toList.mp hv⟩
      · exact .inl hv
    · rw [calls_endCall] at hc
      split at hc
      · cases hc
      · exact .inr ⟨i, c, g, hc, hg, hv⟩
  · rcases mem_append.mp hv with hv | hv
    · exact .inr (hi.calls id _ hcall v (mem_toList.mp hv))
    · exact .inl hv

theorem unlockVote_of_free (h : p.voteLock = none) : p.unlockVote = p := by
  cases p
  cases h
  rfl

theorem le_nextElectionEpoch (e : LeaderElection) :
    e.currentEpoch ≤ e.nextElectionEpoch.currentEpoch := by
  unfold LeaderElection.nextElectionEpoch
  dsimp only
  split
  · exact Nat.le_succ _
  · exact Nat.le_refl _

theorem Inv.advance (hi : p.Inv c node out) (hcall : p.calls[id]? = some call)
    (horderly : p.StepOrderly node out call) (hstep : p.advance id call = some (q, goal)) :
    q.Inv c node ((goal.bind (·.vote node)).toList ++ out) := by
  have hok := hi.calls id call hcall
  have hnoGoal {next : ElectionCall} (h : next.goal? = none) :
      ∀ goal, next.goal? = some goal → call.goal? = some goal := fun goal hg => by
    rw [h] at hg
    cases hg
  cases call with
  | begin op =>
    cases op with
    | startElection =>
      cases hstep
      exact hi.goOn hcall rfl rfl (le_nextElectionEpoch _) rfl (hnoGoal rfl) (Nat.le_refl _)
    | advanceEpoch epoch =>
      simp only [ElectionProcess.advance] at hstep
      split at hstep
      · cases hstep
        exact hi.goOn hcall rfl rfl (Nat.le_max_left ..) rfl (hnoGoal rfl) trivial
      · cases hstep
        exact hi.endCall hcall rfl rfl rfl rfl
    | handleVoteRequest req =>
      simp only [ElectionProcess.advance] at hstep
      split at hstep
      · next hfree =>
        cases hstep
        have hcalls := calls_goOn p id p.election (.handleEpoch req p.election.currentEpoch)
        refine hi.quiet (q := (p.goOn id p.election _).lockVote id) rfl rfl (Nat.le_refl _) rfl
          hcalls (fun i _ h => by rw [hfree] at h; cases h) (fun _ h => h)
          (given_of_sameGoal hcall hcalls ?_) (fun v hv => .inl hv) ?_
        · intro c hc goal hg
          cases hc
          cases hg
        · intro c hc
          cases hc
          exact ⟨rfl, Nat.le_refl _⟩
      · cases hstep
  | selfVote epoch =>
    obtain ⟨hsame, hlast⟩ := horderly
    simp only [ElectionProcess.advance] at hstep
    split at hstep
    · next hfree =>
      cases hstep
      have hcast : (p.goOn id (p.election.castVote ⟨epoch, p.election.nodeId⟩)
          (.persistVote (.started epoch))).unlockVote.Inv c node out := by
        refine hi.castVote (by rw [hi.nodeId]; rfl) hok (fun v hv heq => ?_) hlast
          (fun i _ h => by rw [hfree] at h; cases h)
        have hcand : v.candidate = p.election.nodeId := (hsame v hv heq).trans hi.nodeId.symm
        cases v
        simp_all
      exact unlockVote_of_free (p := p.goOn id _ _) hfree ▸ hcast
    · cases hstep
  | advanceTallies epoch =>
    cases hstep
    exact hi.endCall hcall rfl rfl rfl rfl
  | handleEpoch req localEpoch =>
    obtain ⟨hlock, hlocal⟩ := hok
    simp only [ElectionProcess.advance] at hstep
    split at hstep
    · split at hstep <;>
      · cases hstep
        exact hi.forgetVote hcall rfl hlock ⟨hlock, Nat.le_max_right ..⟩
    · next hnot =>
      cases hstep
      exact hi.goOn hcall rfl rfl (Nat.le_refl _) rfl (hnoGoal rfl)
        ⟨hlock, Nat.le_trans (Nat.not_lt.mp hnot) hlocal⟩
  | handleTallies req =>
    cases hstep
    exact hi.goOn hcall rfl rfl (Nat.le_refl _) rfl (hnoGoal rfl) hok
  | handleCurrent req =>
    cases hstep
    obtain ⟨hlock, hle⟩ := hok
    refine hi.goOn hcall rfl rfl (Nat.le_refl _) rfl (hnoGoal rfl) ⟨hlock, hle, fun hcur => ?_⟩
    have hgiven : ∀ v, (p.goOn id p.election (.handleDecide req p.election.currentEpoch)).Given
        node out v → p.Given node out v :=
      given_of_sameGoal hcall (calls_goOn p id _ _) fun c hc goal hg => by cases hc; cases hg
    refine ⟨fun v hv heq => ?_, fun v hv => Nat.le_trans (hi.vote_le v hv) hcur⟩
    exact (hi.kept v (hgiven v hv)).resolve_left (heq ▸ Nat.not_lt.mpr hcur)
  | handleDecide req current =>
    have hgoal : goal = none := by
      cases hstep
      rfl
    subst hgoal
    exact hi.advance_handleDecide hcall hstep
  | persistVote g =>
    simp only [ElectionProcess.advance] at hstep
    split at hstep
    · cases hstep
      refine hi.goOn hcall rfl rfl (Nat.le_refl _) rfl (fun _ h => h) fun v hv => ?_
      exact hi.kept v (.inr ⟨id, _, g, hcall, rfl, hv⟩)
    · cases hstep
  | persistEpoch g votedFor =>
    cases hstep
    refine hi.goOn hcall rfl rfl (Nat.le_refl _) rfl (fun _ h => h) fun v hv => ?_
    refine (hok v hv).mono ?_
    unfold PersistedElection.epoch
    cases votedFor with
    | none => exact Nat.le_refl _
    | some w => exact Nat.le_max_left ..
  | persistWrite g snapshot =>
    cases hstep
    have hcalls := calls_goOn p id p.election (.finish g)
    refine hi.quiet (q := (p.goOn id p.election _).writeFile snapshot) rfl rfl (Nat.le_refl _) rfl
      hcalls (fun _ _ h => h) (kept_of_ordered horderly.1 horderly.2)
      (given_of_sameGoal hcall hcalls ?_) (fun v hv => .inl hv) ?_
    · intro c hc goal hg
      cases hc
      exact .inl hg
    · intro c hc
      cases hc
      exact hok
  | finish g =>
    cases g with
    | started epoch | answered req granted =>
      cases hstep
      exact hi.publish hcall rfl rfl rfl rfl

theorem Inv.beginCall (hi : p.Inv c node out) (op : ElectionOp) :
    (p.goOn id p.election (.begin op)).Inv c node out := by
  refine hi.quiet rfl rfl (Nat.le_refl _) rfl (calls_goOn p id _ _) (fun _ _ h => h)
    (fun _ h => h) (fun v hv => ?_) (fun v hv => .inl hv) (fun call hc => ?_)
  · rcases given_of_calls (calls_goOn p id p.election (.begin op)) hv with hv | ⟨call, hc, _, hg, -⟩
    · exact hv
    · cases hc
      cases hg
  · cases hc
    trivial

theorem Inv.setTallies (hi : p.Inv c node out) (tallies : ExtTreeMap Epoch VoteTally) :
    Inv { p with election := { p.election with voteTally := tallies } } c node out :=
  ⟨hi.nodeId, hi.clusterSize, hi.vote_le, hi.kept, hi.once, hi.filed, hi.calls⟩

theorem Inv.restart (hi : p.Inv c node out) : p.restart.Inv c node out where
  nodeId := hi.nodeId
  clusterSize := hi.clusterSize
  vote_le v hv := by
    have hv : p.file.votedFor = some v := hv
    show v.epoch ≤ p.file.epoch
    rw [PersistedElection.epoch, hv]
    exact Nat.le_max_right ..
  kept v hv := by
    rcases hv with hv | ⟨id, call, goal, hcall, -, -⟩
    · exact hi.filed v hv
    · simp [ElectionProcess.restart] at hcall
  once v w hv hw := by
    have hout : ∀ u, p.restart.Given node out u → p.Given node out u := by
      rintro u (hu | ⟨id, call, goal, hcall, -, -⟩)
      · exact .inl hu
      · simp [ElectionProcess.restart] at hcall
    exact hi.once v w (hout v hv) (hout w hw)
  filed := hi.filed
  calls id call hcall := by simp [ElectionProcess.restart] at hcall

theorem tally_of_advance (hstep : p.advance id call = some (q, goal)) {tally : VoteTally}
    (ht : q.election.voteTally[epoch]? = some tally) :
    p.election.voteTally[epoch]? = some tally ∨
      (goal = some (.started epoch) ∧ tally.votesGranted = {p.election.nodeId}) := by
  have hdrop {bound : Epoch}
      (h : (p.election.dropTallies bound).voteTally[epoch]? = some tally) :
      p.election.voteTally[epoch]? = some tally := by
    rw [LeaderElection.dropTallies, getElem?_filter'] at h
    exact (filter_eq_some_iff.mp h).1
  cases call with (simp only [ElectionProcess.advance] at hstep)
  | begin op =>
    cases op
    all_goals simp only at hstep
    all_goals repeat' split at hstep
    all_goals cases hstep
    all_goals exact .inl ht
  | handleDecide req current =>
    cases hstep
    refine .inl (Eq.trans ?_ ht)
    cases p.election.grants req current <;> rfl
  | advanceTallies bound | handleTallies req =>
    cases hstep
    exact .inl (hdrop ht)
  | finish g =>
    cases g with (cases hstep)
    | started bound =>
      have ht : (p.election.voteTally.insert bound _)[epoch]? = some tally := ht
      rw [ExtTreeMap.getElem?_insert] at ht
      split at ht
      · next heq =>
        cases ht
        exact .inr ⟨by rw [LawfulEqCmp.eq_of_compare heq], rfl⟩
      · exact .inl ht
    | answered req granted => exact .inl ht
  | _ =>
    repeat' split at hstep
    all_goals cases hstep
    all_goals exact .inl ht

end ElectionProcess

/-! ## The cluster -/

namespace ElectionSystem

def outOf (s : ElectionSystem) (node : NodeId) : List Vote :=
  s.votes.filterMap fun v => if v.1 = node then some v.2 else none

variable {t : ElectionSystem} {call : ElectionCall} {v : Vote}

theorem mem_outOf {s : ElectionSystem} {node : NodeId} :
    v ∈ s.outOf node ↔ (node, v) ∈ s.votes := by
  simp only [outOf, mem_filterMap]
  constructor
  · rintro ⟨⟨n, w⟩, hmem, hsome⟩
    split at hsome
    · next heq =>
      cases hsome
      exact heq ▸ hmem
    · cases hsome
  · intro hmem
    exact ⟨(node, v), hmem, if_pos rfl⟩

structure Inv (c : ElectionCluster) (s : ElectionSystem) : Prop where
  process : ∀ node, (s.processes node).Inv c node (s.outOf node)
  callers : ∀ (node : NodeId) (id : Nat), (s.processes node).calls[id]? ≠ none → node ∈ c.members
  voters : ∀ node v, (node, v) ∈ s.votes → node ∈ c.members
  answers : ∀ r ∈ s.responses, r.granted = true →
    (r.voter, Vote.mk r.req.epoch r.req.candidateId) ∈ s.votes
  tallies : ∀ (node : NodeId) (epoch : Epoch) (tally : VoteTally),
    (s.processes node).election.voteTally[epoch]? = some tally →
    ∀ voter ∈ tally.votesGranted, (voter, Vote.mk epoch node) ∈ s.votes
  winners : ∀ node epoch, (node, epoch) ∈ s.wins → ∃ voters : Finset NodeId,
    Quorum.size c.clusterSize ≤ voters.card ∧
    ∀ voter ∈ voters, (voter, Vote.mk epoch node) ∈ s.votes

variable {c : ElectionCluster} {s : ElectionSystem}

theorem inv_init (c : ElectionCluster) : Inv c (init c) where
  process node := by
    have hnone : ∀ v, ¬((init c).processes node).Given node ((init c).outOf node) v := by
      rintro v (hv | ⟨id, call, goal, hcall, -⟩)
      · cases hv
      · simp [init] at hcall
    refine ⟨rfl, rfl, ?_, fun v hv => (hnone v hv).elim, fun v w hv => (hnone v hv).elim, ?_, ?_⟩
    · intro v hv
      cases hv
    · intro v hv
      cases hv
    · intro id call h
      simp [init] at h
  callers node id h := by simp [init] at h
  voters node v h := by cases h
  answers r h := by cases h
  tallies node epoch tally h := by simp [init, LeaderElection.withPersistence] at h
  winners node epoch h := by cases h

theorem processes_put (s : ElectionSystem) (node : NodeId) (p : ElectionProcess) (n : NodeId) :
    (s.put node p).processes n = if n = node then p else s.processes n := by
  simp [put, Function.update_apply]

theorem Inv.move (hi : Inv c s) {node : NodeId} {p : ElectionProcess}
    (ht : t.processes = (s.put node p).processes) (hwins : t.wins = s.wins)
    (hmember : ∀ id : Nat, p.calls[id]? ≠ none → node ∈ c.members)
    (hvotes : ∀ n v, (n, v) ∈ t.votes → (n, v) ∈ s.votes ∨ (n = node ∧ node ∈ c.members))
    (hgrow : ∀ n v, (n, v) ∈ s.votes → (n, v) ∈ t.votes) (hprocess : p.Inv c node (t.outOf node))
    (hout : ∀ n, n ≠ node → t.outOf n = s.outOf n)
    (hanswers : ∀ r ∈ t.responses, r.granted = true →
      (r.voter, Vote.mk r.req.epoch r.req.candidateId) ∈ t.votes)
    (htallies : ∀ (epoch : Epoch) (tally : VoteTally), p.election.voteTally[epoch]? = some tally →
      ∀ voter ∈ tally.votesGranted, (voter, Vote.mk epoch node) ∈ t.votes) : Inv c t := by
  have hproc : ∀ n, t.processes n = if n = node then p else s.processes n := fun n => by
    rw [ht, processes_put]
  refine ⟨fun n => ?_, fun n id h => ?_, fun n v h => ?_, hanswers, fun n epoch tally h => ?_,
    fun n epoch h => ?_⟩
  · rw [hproc]
    split
    · next heq => exact heq ▸ hprocess
    · next hne => exact hout n hne ▸ hi.process n
  · rw [hproc] at h
    split at h
    · next heq => exact heq ▸ hmember id h
    · exact hi.callers n id h
  · rcases hvotes n v h with h | ⟨rfl, h⟩
    · exact hi.voters n v h
    · exact h
  · rw [hproc] at h
    split at h
    · next heq => exact heq ▸ htallies epoch tally h
    · exact fun voter hv => hgrow _ _ (hi.tallies n epoch tally h voter hv)
  · obtain ⟨voters, hcard, hall⟩ := hi.winners n epoch (hwins ▸ h)
    exact ⟨voters, hcard, fun voter hv => hgrow _ _ (hall voter hv)⟩

theorem mem_votesOf_of_given {node : NodeId} (h : (s.processes node).Given node (s.outOf node) v) :
    v ∈ s.votesOf node := by
  rcases h with h | ⟨id, call, goal, hcall, hgoal, hvote⟩
  · exact mem_append_left _ h
  · refine mem_append_right _ (mem_filterMap.mpr ⟨(id, call), ?_, ?_⟩)
    · exact mem_toList_iff_getElem?_eq_some.mpr hcall
    · simp [hgoal, hvote]

theorem Orderly.stepOrderly {node : NodeId} {id : Nat} (h : s.Orderly (.advance node id))
    (hcall : (s.processes node).calls[id]? = some call) :
    (s.processes node).StepOrderly node (s.outOf node) call := by
  simp only [Orderly, hcall] at h
  cases call with
  | selfVote epoch => exact ⟨fun v hv => h.1 v (mem_votesOf_of_given hv), h.2⟩
  | persistWrite goal snapshot => exact h
  | _ => trivial

theorem outOf_publish (s : ElectionSystem) (node : NodeId) (goal : ElectionGoal) (n : NodeId) :
    (s.publish node goal).outOf n =
      if n = node then (goal.vote node).toList ++ s.outOf n else s.outOf n := by
  cases hv : goal.vote node with
  | none => simp [publish, outOf, hv]
  | some v => by_cases hn : n = node <;> simp [publish, outOf, hv, hn, @eq_comm _ node]

theorem mem_votes_publish {node : NodeId} {goal : ElectionGoal} {n : NodeId} :
    (n, v) ∈ (s.publish node goal).votes ↔
      (n = node ∧ goal.vote node = some v) ∨ (n, v) ∈ s.votes := by
  simp only [publish, mem_append, List.mem_map, mem_toList, Prod.mk.injEq]
  constructor
  · rintro (⟨w, hw, rfl, rfl⟩ | h)
    · exact .inl ⟨rfl, hw⟩
    · exact .inr h
  · rintro (⟨rfl, hv⟩ | h)
    · exact .inl ⟨v, hv, rfl, rfl⟩
    · exact .inr h

theorem Inv.advance (hi : Inv c s) {node : NodeId} {id : Nat} {p : ElectionProcess}
    {goal : Option ElectionGoal} (hcall : (s.processes node).calls[id]? = some call)
    (horderly : (s.processes node).StepOrderly node (s.outOf node) call)
    (hstep : (s.processes node).advance id call = some (p, goal)) :
    Inv c (goal.elim (s.put node p) ((s.put node p).publish node)) := by
  have hmember : node ∈ c.members := hi.callers node id (by simp [hcall])
  have hprocess := (hi.process node).advance hcall horderly hstep
  have hself := (hi.process node).nodeId
  cases goal with
  | none =>
    refine hi.move rfl rfl (fun _ _ => hmember) (fun _ _ h => .inl h) (fun _ _ h => h) hprocess
      (fun _ _ => rfl) hi.answers fun epoch tally ht => ?_
    rcases ElectionProcess.tally_of_advance hstep ht with hold | ⟨hgoal, -⟩
    · exact hi.tallies node epoch tally hold
    · cases hgoal
  | some goal =>
    refine hi.move rfl rfl (fun _ _ => hmember) (fun n v h => ?_)
      (fun n v h => mem_votes_publish.mpr (.inr h)) ?_ (fun n hn => ?_) (fun r hr hgranted => ?_)
      fun epoch tally ht voter hvoter => ?_
    · exact (mem_votes_publish.mp h).symm.imp (fun h => h) fun h => ⟨h.1, hmember⟩
    · exact (outOf_publish (s.put node p) node goal node).trans (if_pos rfl) ▸ hprocess
    · exact (outOf_publish (s.put node p) node goal n).trans (if_neg hn)
    · cases goal with
      | started epoch => exact mem_votes_publish.mpr (.inr (hi.answers r hr hgranted))
      | answered req granted =>
        rcases mem_cons.mp hr with rfl | hr
        · refine mem_votes_publish.mpr (.inl ⟨rfl, ?_⟩)
          have hgranted : granted = true := hgranted
          simp [ElectionGoal.vote, hgranted]
        · exact mem_votes_publish.mpr (.inr (hi.answers r hr hgranted))
    · rcases ElectionProcess.tally_of_advance hstep ht with hold | ⟨hgoal, hown⟩
      · exact mem_votes_publish.mpr (.inr (hi.tallies node epoch tally hold voter hvoter))
      · cases hgoal
        rw [hown, hself, Finset.mem_singleton] at hvoter
        exact mem_votes_publish.mpr (.inl ⟨hvoter, rfl⟩)

theorem recordVote_spec (e : LeaderElection) (epoch : Epoch) (voter : NodeId) (granted : Bool) :
    ∃ tallies, (e.recordVote epoch voter granted).1 = { e with voteTally := tallies } ∧
      (∀ (round : Epoch) (tally : VoteTally), tallies[round]? = some tally →
        ∀ v ∈ tally.votesGranted, (∃ old : VoteTally, e.voteTally[round]? = some old ∧
          v ∈ old.votesGranted) ∨ (round = epoch ∧ v = voter ∧ granted = true)) ∧
      ((e.recordVote epoch voter granted).2 = some (.won epoch) →
        ∃ tally : VoteTally, tallies[epoch]? = some tally ∧
          e.quorumSize ≤ tally.votesGranted.card) := by
  unfold LeaderElection.recordVote
  split
  · exact ⟨e.voteTally, rfl, fun _ tally ht _ hv => .inl ⟨tally, ht, hv⟩, fun h => by cases h⟩
  split
  · exact ⟨e.voteTally, rfl, fun _ tally ht _ hv => .inl ⟨tally, ht, hv⟩, fun h => by cases h⟩
  next tally ht =>
  refine ⟨_, rfl, fun round tally' ht' v hv => ?_, fun hwon => ⟨_, getElem?_insert_self, ?_⟩⟩
  · rw [ExtTreeMap.getElem?_insert] at ht'
    split at ht'
    · next heq =>
      cases LawfulEqCmp.eq_of_compare heq
      cases ht'
      cases granted with
      | false => exact .inl ⟨tally, ht, hv⟩
      | true =>
        rcases Finset.mem_insert.mp hv with rfl | hv
        · exact .inr ⟨rfl, rfl, rfl⟩
        · exact .inl ⟨tally, ht, hv⟩
    · exact .inl ⟨tally', ht', hv⟩
  · by_contra hfew
    simp only [if_neg hfew] at hwon
    split at hwon <;> cases hwon

theorem Inv.recordVote (hi : Inv c s) {r : VoteResponse} (hr : r ∈ s.responses) (hstep : s.step c (.recordVote r) = some t) : Inv c t := by
  obtain ⟨tallies, hset, hgranted, hwon⟩ := recordVote_spec
    (s.processes r.req.candidateId).election r.req.epoch r.voter r.granted
  have hmoved : Inv c (s.put r.req.candidateId { s.processes r.req.candidateId with
      election := { (s.processes r.req.candidateId).election with voteTally := tallies } }) := by
    refine hi.move rfl rfl (hi.callers r.req.candidateId) (fun _ _ h => .inl h) (fun _ _ h => h)
      ((hi.process r.req.candidateId).setTallies tallies) (fun _ _ => rfl) hi.answers
      fun epoch tally ht voter hvoter => ?_
    rcases hgranted epoch tally ht voter hvoter with ⟨old, hold, hvoter⟩ | ⟨rfl, rfl, hyes⟩
    · exact hi.tallies r.req.candidateId epoch old hold voter hvoter
    · exact hi.answers r hr hyes
  simp only [ElectionSystem.step, if_pos hr, hset] at hstep
  split at hstep
  · next hresult =>
    cases hstep
    refine ⟨hmoved.process, hmoved.callers, hmoved.voters, hmoved.answers, hmoved.tallies, ?_⟩
    intro node epoch hmem
    rcases mem_cons.mp hmem with heq | hmem
    · cases heq
      obtain ⟨tally, ht, hquorum⟩ := hwon hresult
      refine ⟨tally.votesGranted, ?_, ?_⟩
      · rw [LeaderElection.quorumSize, (hi.process r.req.candidateId).clusterSize] at hquorum
        exact hquorum
      · refine hmoved.tallies r.req.candidateId r.req.epoch tally ?_
        rw [processes_put, if_pos rfl]
        exact ht
    · exact hmoved.winners node epoch hmem
  · cases hstep
    exact hmoved

theorem Inv.step (hi : Inv c s) {a : ElectionAction} (horderly : s.Orderly a) (hstep : s.step c a = some t) : Inv c t := by
  cases a with
  | call node id op =>
    simp only [ElectionSystem.step] at hstep
    split at hstep
    · next hguard =>
      cases hstep
      exact hi.move rfl rfl (fun _ _ => hguard.1) (fun _ _ h => .inl h) (fun _ _ h => h)
        ((hi.process node).beginCall op) (fun _ _ => rfl) hi.answers (hi.tallies node)
    · cases hstep
  | advance node id =>
    simp only [ElectionSystem.step, bind_eq_bind, bind_eq_some_iff] at hstep
    obtain ⟨call, hcall, ⟨p, goal⟩, hadvance, hstep⟩ := hstep
    cases hstep
    exact hi.advance hcall (horderly.stepOrderly hcall) hadvance
  | recordVote r =>
    by_cases hr : r ∈ s.responses
    · exact hi.recordVote hr hstep
    · simp only [ElectionSystem.step, if_neg hr] at hstep
      cases hstep
  | restart node =>
    cases hstep
    refine hi.move rfl rfl (fun id h => ?_) (fun _ _ h => .inl h) (fun _ _ h => h)
      (hi.process node).restart (fun _ _ => rfl) hi.answers fun epoch tally ht => ?_
    · simp [ElectionProcess.restart] at h
    · simp [ElectionProcess.restart, LeaderElection.withPersistence] at ht

/-- Where self-votes and writes of the file keep to the order, every epoch has one winner. -/
theorem one_winner_per_epoch {c : ElectionCluster} {actions : List ElectionAction}
    {s : ElectionSystem} (horderly : Run.Along (step c) Orderly (init c) actions)
    (hrun : Run.run (step c) (init c) actions = some s) {a b : NodeId} {epoch : Epoch}
    (ha : (a, epoch) ∈ s.wins) (hb : (b, epoch) ∈ s.wins) : a = b := by
  have hi : Inv c s :=
    Run.run_preserves_along (fun hi hP hs => hi.step hP hs) (inv_init c) horderly hrun
  obtain ⟨votersA, hA, hvotedA⟩ := hi.winners a epoch ha
  obtain ⟨votersB, hB, hvotedB⟩ := hi.winners b epoch hb
  refine Quorum.unique_winner (fun voter cand => (voter, Vote.mk epoch cand) ∈ s.votes)
    c.card_le (fun v hv => hi.voters _ _ (hvotedA v hv)) (fun v hv => hi.voters _ _ (hvotedB v hv))
    hA hB (fun v x y hx hy => ?_) hvotedA hvotedB
  have heq := (hi.process v).once _ _ (.inl (mem_outOf.mpr hx)) (.inl (mem_outOf.mpr hy)) rfl
  exact congrArg Vote.candidate heq

def threeNodes : ElectionCluster := ⟨{1, 2, 3}, 3, by decide⟩

def steps (node : NodeId) (id n : Nat) : List ElectionAction :=
  List.replicate n (.advance node id)

def answer (voter id candidate : NodeId) : List ElectionAction :=
  .call voter id (.handleVoteRequest ⟨1, candidate, 0, 0⟩) :: steps voter id 8

/-- Nodes 1 and 2 stand in one epoch, and the third node's vote decides. -/
def contest : List ElectionAction :=
  [.call 1 0 .startElection, .call 2 0 .startElection] ++ steps 1 0 6 ++ steps 2 0 6 ++
    answer 3 0 1 ++ [.advance 3 0] ++ answer 1 1 2 ++
    [.recordVote ⟨3, ⟨1, 1, 0, 0⟩, true⟩, .recordVote ⟨1, ⟨1, 2, 0, 0⟩, false⟩]

theorem one_winner_per_epoch_contest :
    (1, 1) ∈ (Run.after (step threeNodes) (init threeNodes) contest).wins ∧
    ∀ b, (b, 1) ∈ (Run.after (step threeNodes) (init threeNodes) contest).wins → b = 1 :=
  ⟨by decide +kernel, fun _ hb => one_winner_per_epoch
    (by decide +kernel : Run.Along (step threeNodes) Orderly (init threeNodes) contest)
    (Run.run_eq_some_after (by decide +kernel)) hb (by decide +kernel)⟩

/-- Node 1 takes its epoch, votes for node 2 in it, and then for itself. -/
def doubleVote : List ElectionAction :=
  [.call 1 0 .startElection, .advance 1 0, .call 2 0 .startElection] ++ steps 2 0 6 ++
    answer 1 1 2 ++ steps 1 0 5 ++ answer 3 0 1 ++ [.advance 3 0] ++
    [.recordVote ⟨1, ⟨1, 2, 0, 0⟩, true⟩, .recordVote ⟨3, ⟨1, 1, 0, 0⟩, true⟩]

theorem two_winners_of_one_epoch :
    ∃ s, Run.run (step threeNodes) (init threeNodes) doubleVote = some s ∧
      (1, 1) ∈ s.wins ∧ (2, 1) ∈ s.wins :=
  ⟨_, Run.run_eq_some_after (by decide +kernel), by decide +kernel, by decide +kernel⟩

end ElectionSystem

end AionDb
