import AionDb.HaKvEngine

/-!
# A shard and the committed log

`apply_committed` reads the entries to apply in one section and applies them in
another, and `KvShard::apply` does not look at the applied index before it
writes. So a batch may be applied again, which is harmless, and also after a
newer one, which puts old values back under the keys it writes.

Where no batch does so (`KvSystem.Fresh`), the table is the one the committed
commands up to the applied index build.
-/

namespace AionDb

open Std Effect OrdMap List

/-! ## What calls on the node leave of its log -/

def RaftHost.Steady (h h' : RaftHost) : Prop :=
  h'.node.log = h.node.log ∧ h'.node.lastApplied = h.node.lastApplied ∧
    h.node.commitIndex ≤ h'.node.commitIndex

namespace RaftOp

open RaftHost (Steady)

variable {h₀ h : RaftHost}

theorem steady_refl (h : RaftHost) : Steady h h := ⟨rfl, rfl, Nat.le_refl _⟩

theorem saveFile_steady {write : RaftHost → RaftHost} (hw : Steady h₀ (write h))
    (hs : Steady h₀ h) : Spec (saveFile write) h (fun _ => Steady h₀) (Steady h₀) :=
  spec_saveFile (fun _ => hw) (fun _ => hs) fun _ => hw

theorem stable_steady (h₀ : RaftHost) : RaftHost.Stable (Steady h₀) where
  same hs _ hstate hlog happlied _ :=
    ⟨hlog.trans hs.1, happlied.trans hs.2.1, hs.2.2.trans (Nat.le_of_eq (by
      rw [RaftNode.commitIndex, RaftNode.commitIndex, hstate]))⟩
  term hs _ := hs
  commit hs hlt := ⟨hs.1, hs.2.1, hs.2.2.trans (Nat.le_of_lt hlt)⟩
  written hs := hs

def Numbered (h : RaftHost) : Prop := NumberedFrom 0 h.node.log.entries

theorem Numbered.of_steady {h' : RaftHost} (hn : Numbered h) (hs : Steady h h') : Numbered h' := by
  rw [Numbered, hs.1]
  exact hn

theorem stable_numbered : RaftHost.Stable Numbered where
  same hn _ _ hlog _ _ := by rwa [Numbered, hlog]
  term hn _ := hn
  commit hn _ := hn
  written hn := hn

theorem voteFor_numbered (hn : Numbered h) (c : NodeId) :
    Spec (voteFor c) h (fun _ => Numbered) Numbered :=
  spec_get_bind (spec_modify_bind (stable_numbered.save hn))

theorem propose_grows (hn : Numbered h) (command : RaftCommand) :
    Spec (propose command) h
      (fun index h' => index = h.node.log.entries.length + 1 ∧
        h'.node.log.entries = h.node.log.entries ++ [⟨index, h.node.currentTerm, command⟩] ∧
        h'.node.lastApplied = h.node.lastApplied ∧ h.node.commitIndex ≤ h'.node.commitIndex)
      (fun h' => (h'.node.log.entries = h.node.log.entries ∨ ∃ index,
          index = h.node.log.entries.length + 1 ∧
          h'.node.log.entries = h.node.log.entries ++ [⟨index, h.node.currentTerm, command⟩]) ∧
        h'.node.lastApplied = h.node.lastApplied ∧ h.node.commitIndex ≤ h'.node.commitIndex) := by
  refine spec_get_bind (spec_ite (fun _ => ⟨Or.inl rfl, rfl, Nat.le_refl _⟩) fun _ => ?_)
  refine spec_bind (Q := fun index h' => index = h.node.log.entries.length + 1 ∧
    h'.node.log.entries = h.node.log.entries ++ [⟨index, h.node.currentTerm, command⟩] ∧
    h'.node.lastApplied = h.node.lastApplied ∧ h.node.commitIndex ≤ h'.node.commitIndex) ?_ ?_
  · refine spec_get_bind (spec_bind (spec_liftExcept
      (Q := fun r h' => h' = h ∧ h.node.log.push h.node.currentTerm command = .ok r)
      (fun _ hr => ⟨rfl, hr⟩) ⟨Or.inl rfl, rfl, Nat.le_refl _⟩) ?_)
    rintro ⟨index, log⟩ h' ⟨rfl, hpush⟩
    obtain ⟨hindex, hlog⟩ := RaftLog.push_eq_ok hn hpush
    have hsave : Spec persist (h'.setLog log) (fun _ => Steady (h'.setLog log))
        (Steady (h'.setLog log)) := saveFile_steady (steady_refl _) (steady_refl _)
    refine spec_modify_bind (spec_bind (spec_mono hsave (fun _ _ hs => hs) fun _ hs => ?_)
      fun _ _ hs => spec_pure ?_)
    · exact ⟨Or.inr ⟨index, hindex, by rw [hs.1]; exact hlog⟩, hs.2.1, hs.2.2⟩
    · exact ⟨hindex, by rw [hs.1]; exact hlog, hs.2.1, hs.2.2⟩
  · rintro index h' ⟨hindex, hlog, happlied, hcommit⟩
    refine spec_bind (spec_mono ((stable_steady h').tryAdvanceCommitIndex (steady_refl h'))
      (fun _ _ hs => hs) fun _ hs => ?_) fun _ _ hs => spec_pure ?_
    · exact ⟨Or.inr ⟨index, hindex, by rw [hs.1]; exact hlog⟩, hs.2.1.trans happlied,
        hcommit.trans hs.2.2⟩
    · exact ⟨hindex, by rw [hs.1]; exact hlog, hs.2.1.trans happlied, hcommit.trans hs.2.2⟩

theorem handleAppendEntries_numbered (hn : Numbered h) (req : AppendEntriesRequest) :
    Spec (handleAppendEntries req) h (fun _ => Numbered) Numbered := by
  refine spec_get_bind (spec_bind (stable_numbered.becomeFollowerIf hn _ _)
    fun _ h1 hn1 => spec_get_bind ?_)
  refine spec_ite (fun _ => spec_pure hn1) fun _ => spec_ite (fun _ => spec_pure hn1) fun hcons => ?_
  have hprev : req.prevLogIndex ≤ h1.node.log.entries.length := by
    have hcons : h1.node.logIsConsistent req = true := by simpa using hcons
    unfold RaftNode.logIsConsistent at hcons
    rw [RaftLog.lastIndex_eq hn1] at hcons
    split at hcons
    · split at hcons
      · cases hcons
      · omega
    · omega
  refine spec_bind (Q := fun _ => Numbered) ?_ fun _ h2 hn2 => ?_
  · refine spec_ite (fun _ => spec_pure hn1) fun _ => spec_get_bind (spec_bind (spec_liftExcept
      (Q := fun log h' => h' = h1 ∧
        h1.node.log.appendEntriesChecked req.prevLogIndex req.entries = .ok log)
      (fun _ hlog => ⟨rfl, hlog⟩) hn1) ?_)
    rintro log h' ⟨rfl, hlog⟩
    have hn2 : Numbered (h'.setLog log) := (RaftLog.appendEntriesChecked_eq_ok hn1 hprev hlog).2
    exact spec_modify_bind (spec_mono (saveFile_steady (steady_refl _) (steady_refl _))
      (fun _ _ hs => hn2.of_steady hs) fun _ hs => hn2.of_steady hs)
  · exact spec_bind (stable_numbered.followCommit hn2 _) fun _ h3 hn3 => spec_get_bind (spec_pure hn3)

theorem exec_numbered (hn : Numbered h) (call : RaftCall) :
    Spec call.exec h (fun _ => Numbered) Numbered := by
  cases call with
  | becomeCandidate =>
    refine spec_bind (Q := fun _ => Numbered) ?_ fun _ _ h => spec_pure h
    refine spec_get_bind (spec_bind (spec_lift hn) fun t _ hn => ?_)
    refine spec_bind (stable_numbered.advanceTerm hn t) fun _ _ hn => spec_get_bind ?_
    exact spec_bind (voteFor_numbered hn _) fun _ _ hn => spec_modify_bind (spec_pure hn)
  | becomeFollower t => exact spec_bind (stable_numbered.becomeFollower hn t) fun _ _ h => spec_pure h
  | becomeLeader peerIds =>
    exact spec_bind (stable_numbered.becomeLeader hn peerIds) fun _ _ h => spec_pure h
  | handleVoteRequest t c li lt =>
    refine spec_bind (Q := fun _ => Numbered) ?_ fun _ _ h => spec_pure h
    refine spec_get_bind (spec_bind (stable_numbered.becomeFollowerIf hn _ t)
      fun _ _ hn => spec_get_bind ?_)
    refine spec_ite (fun _ => spec_pure hn) fun _ => spec_ite (fun _ => spec_pure hn) fun _ => ?_
    refine spec_ite (fun _ => spec_pure hn) fun _ => ?_
    exact spec_bind (voteFor_numbered hn c) fun _ _ hn => spec_get_bind (spec_pure hn)
  | handleAppendEntries req =>
    exact spec_bind (handleAppendEntries_numbered hn req) fun _ _ h => spec_pure h
  | handleAppendEntriesResponse resp =>
    exact spec_bind (stable_numbered.handleAppendEntriesResponse hn resp) fun _ _ h => spec_pure h
  | propose command =>
    have happend : ∀ {h' : RaftHost} {index : Nat}, index = h.node.log.entries.length + 1 →
        h'.node.log.entries = h.node.log.entries ++ [⟨index, h.node.currentTerm, command⟩] →
        Numbered h' := by
      intro h' index hindex hlog
      rw [Numbered, hlog]
      exact hn.snoc (show index = 0 + _ + 1 by omega)
    refine spec_bind (Q := fun _ => Numbered) (spec_mono (propose_grows hn command)
      (fun index h' hres => happend hres.1 hres.2.1) fun h' hres => ?_) fun _ _ h => spec_pure h
    rcases hres.1 with hlog | ⟨index, hindex, hlog⟩
    · rw [Numbered, hlog]
      exact hn
    · exact happend hindex hlog
  | markApplied index =>
    refine spec_modify_bind (spec_pure ?_)
    show NumberedFrom 0 (h.node.markApplied index).log.entries
    unfold RaftNode.markApplied
    split <;> exact hn

end RaftOp

/-! ## Applying entries -/

def kvWrites (entries : List RaftEntry) : List (KvKey × Option KvValue) :=
  entries.filterMap (·.command.kv)

theorem kvWrites_append (es es' : List RaftEntry) :
    kvWrites (es ++ es') = kvWrites es ++ kvWrites es' := filterMap_append ..

namespace KvShard

theorem table_applyAll (shard : KvShard) (entries : List RaftEntry) :
    (shard.applyAll entries).table = writeAll shard.table (kvWrites entries) := by
  induction entries generalizing shard with
  | nil => rfl
  | cons e es ih =>
    show ((shard.apply e).applyAll es).table = _
    rw [ih]
    unfold kvWrites
    rw [filterMap_cons]
    cases hc : e.command with
    | kvWrite key value => cases value <;> simp [apply, hc, RaftCommand.kv, writeAll, setEntry]
    | _ => simp [apply, hc, RaftCommand.kv]

theorem appliedIndex_applyAll (shard : KvShard) (entries : List RaftEntry) :
    (shard.applyAll entries).appliedIndex = shard.lastOf entries := by
  induction entries generalizing shard with
  | nil => rfl
  | cons e es ih =>
    show ((shard.apply e).applyAll es).appliedIndex = _
    rw [ih, lastOf, lastOf, foldl_cons]
    congr 1
    simp only [apply]
    split <;> omega

theorem lastOf_eq {shard : KvShard} {a : Nat} {entries : List RaftEntry}
    (hn : NumberedFrom a entries) (hne : entries ≠ []) :
    shard.lastOf entries = max shard.appliedIndex (a + entries.length) := by
  have hfold : ∀ (es : List RaftEntry) (a m : Nat), NumberedFrom a es → es ≠ [] →
      es.foldl (fun last entry => max entry.index last) m = max m (a + es.length) := by
    intro es
    induction es with
    | nil => exact fun _ _ _ h => absurd rfl h
    | cons e es ih =>
      intro a m hn _
      obtain ⟨he, hes⟩ := NumberedFrom.cons_iff.mp hn
      rw [foldl_cons, he, length_cons]
      cases es with
      | nil => simp only [foldl_nil, length_nil]; omega
      | cons e' es' => rw [ih (a + 1) _ hes (by simp)]; omega
  exact hfold entries a _ hn hne

end KvShard

theorem RaftNode.unappliedEntries_eq {node : RaftNode} (hn : NumberedFrom 0 node.log.entries)
    (hne : node.unappliedEntries ≠ []) :
    node.unappliedEntries = node.committed.drop node.lastApplied := by
  unfold unappliedEntries at hne ⊢
  cases hstart : checkedAdd node.lastApplied 1 with
  | none => simp [hstart] at hne
  | some start =>
    obtain ⟨-, rfl⟩ := checkedAdd_eq_some.mp hstart
    simp only [hstart] at hne ⊢
    split at hne
    · exact absurd rfl hne
    · next hle =>
      rw [if_neg hle, RaftLog.entriesFrom_succ hn, committed, drop_take]
      have h := (hn.drop node.lastApplied).filter_le node.commitIndex
      rwa [Nat.zero_add] at h

/-! ## The invariant -/

namespace KvSystem

/-- A batch in hand is a stretch of the committed log that does not start
behind what the shard has applied. -/
def Batch (s : KvSystem) (entries : List RaftEntry) : Prop :=
  ∃ a b, a ≤ s.shard.appliedIndex ∧ a < b ∧ b ≤ s.host.node.committed.length ∧
    entries = (s.host.node.committed.take b).drop a

structure Inv (s : KvSystem) : Prop where
  numbered : NumberedFrom 0 s.host.node.log.entries
  applied_le : s.shard.appliedIndex ≤ s.host.node.committed.length
  table : s.shard.table = writeAll ∅ (kvWrites (s.host.node.committed.take s.shard.appliedIndex))
  marked : s.host.node.lastApplied ≤ s.shard.appliedIndex
  batch : ∀ (id : Nat) call, s.calls[id]? = some call → ∀ entries ∈ call.phase.batch, s.Batch entries
  marking : ∀ (id : Nat) call, s.calls[id]? = some call → ∀ last ∈ call.phase.marking,
    last ≤ s.shard.appliedIndex

/-- No entry that the shard has applied from behind the batch writes a key the
batch writes. -/
def NotOvertaken (s : KvSystem) (entries : List RaftEntry) : Prop :=
  ∀ e ∈ entries, ∀ e' ∈ s.host.node.log.entries, (∀ d ∈ entries, d.index < e'.index) →
    e'.index ≤ s.shard.appliedIndex → ∀ w ∈ e.command.kv, ∀ w' ∈ e'.command.kv, w.1 ≠ w'.1
deriving Decidable

def Fresh (s : KvSystem) : KvAction → Prop
  | .advance id => ∀ call ∈ s.calls[id]?, ∀ entries ∈ call.phase.batch, s.NotOvertaken entries
  | .start _ _ | .raft _ => True

instance (s : KvSystem) (a : KvAction) : Decidable (s.Fresh a) := by
  cases a <;> unfold Fresh <;> infer_instance

theorem inv_init (nodeId : NodeId) (clusterSize : Nat) : Inv (init nodeId clusterSize) where
  numbered := .nil
  applied_le := Nat.zero_le _
  table := rfl
  marked := Nat.le_refl _
  batch id call h := by simp [init] at h
  marking id call h := by simp [init] at h

variable {s s' : KvSystem}

theorem Inv.frame (hi : s.Inv) (hshard : s'.shard = s.shard)
    (hnum : NumberedFrom 0 s'.host.node.log.entries)
    (hcommitted : s.host.node.committed <+: s'.host.node.committed)
    (hmarked : s'.host.node.lastApplied ≤ s.shard.appliedIndex)
    (hbatch : ∀ (id : Nat) call, s'.calls[id]? = some call → ∀ entries ∈ call.phase.batch,
      s.Batch entries)
    (hmarking : ∀ (id : Nat) call, s'.calls[id]? = some call → ∀ last ∈ call.phase.marking,
      last ≤ s.shard.appliedIndex) : s'.Inv where
  numbered := hnum
  applied_le := hshard ▸ hi.applied_le.trans hcommitted.length_le
  table := by
    rw [hshard, hi.table, ReplicatedLog.take_eq_of_isPrefix hcommitted hi.applied_le]
  marked := hshard ▸ hmarked
  batch id call hc entries he := by
    obtain ⟨a, b, ha, hab, hb, heq⟩ := hbatch id call hc entries he
    refine ⟨a, b, hshard ▸ ha, hab, hb.trans hcommitted.length_le, ?_⟩
    rw [heq, ReplicatedLog.take_eq_of_isPrefix hcommitted hb]
  marking id call hc last hl := hshard ▸ hmarking id call hc last hl

variable {a : KvAction} {id : Nat} {call : KvCall}

theorem getElem?_setCall (id' : Nat) :
    (s.setCall id call).calls[id']? = if id = id' then some call else s.calls[id']? := by
  simp only [setCall, ExtTreeMap.getElem?_insert, Std.compare_eq_iff_eq]

theorem getElem?_of_erase {id' : Nat} (h : (s.calls.erase id)[id']? = some call) :
    s.calls[id']? = some call := by
  rw [ExtTreeMap.getElem?_erase] at h
  split at h
  · cases h
  · exact h

theorem calls_succeed (id : Nat) (goal : KvGoal) (index : Option Nat) :
    (s.succeed id goal index).calls = s.calls.erase id ∧
      (s.succeed id goal index).shard = s.shard ∧ (s.succeed id goal index).host = s.host := by
  unfold succeed
  split <;> exact ⟨rfl, rfl, rfl⟩

theorem Inv.setCall (hi : s.Inv) (hbatch : ∀ entries ∈ call.phase.batch, s.Batch entries)
    (hmarking : ∀ last ∈ call.phase.marking, last ≤ s.shard.appliedIndex) :
    (s.setCall id call).Inv := by
  refine hi.frame rfl hi.numbered (prefix_refl _) hi.marked (fun id' c hc => ?_) fun id' c hc => ?_
  all_goals
    rw [getElem?_setCall] at hc
    split at hc
  · cases hc
    exact hbatch
  · exact hi.batch id' c hc
  · cases hc
    exact hmarking
  · exact hi.marking id' c hc

theorem Inv.of_erase (hi : s.Inv) (hshard : s'.shard = s.shard) (hhost : s'.host = s.host)
    (hcalls : s'.calls = s.calls.erase id) : s'.Inv := by
  refine hi.frame hshard (hhost ▸ hi.numbered) (by rw [hhost]) (hhost ▸ hi.marked)
    (fun id' c hc => ?_) fun id' c hc => ?_
  · exact hi.batch id' c (getElem?_of_erase (hcalls ▸ hc))
  · exact hi.marking id' c (getElem?_of_erase (hcalls ▸ hc))

theorem Inv.setHost (hi : s.Inv) {host : RaftHost} (hnum : NumberedFrom 0 host.node.log.entries)
    (hkeep : s.host.node.KeepsCommitted host.node) : Inv { s with host } :=
  hi.frame rfl hnum hkeep.1 (hkeep.2 ▸ hi.marked) hi.batch hi.marking

theorem keepsCommitted_of_grows {node node' : RaftNode} {es : List RaftEntry}
    (hlog : node'.log.entries = node.log.entries ++ es)
    (happlied : node'.lastApplied = node.lastApplied)
    (hcommit : node.commitIndex ≤ node'.commitIndex) : node.KeepsCommitted node' := by
  refine ⟨?_, happlied⟩
  rw [RaftNode.committed, RaftNode.committed, hlog, prefix_take_iff, length_take]
  exact ⟨(List.take_prefix ..).trans (prefix_append ..), (Nat.min_le_left ..).trans hcommit⟩

theorem Inv.apply (hi : s.Inv) {entries : List RaftEntry} (hb : s.Batch entries)
    (hfresh : s.NotOvertaken entries) : Inv { s with shard := s.shard.applyAll entries } := by
  obtain ⟨a, b, ha, hab, hbC, rfl⟩ := hb
  set C := s.host.node.committed with hC
  have hCnum : NumberedFrom 0 C := hi.numbered.take _
  have hnum : NumberedFrom a ((C.take b).drop a) := by
    have h := (hCnum.take b).drop a
    rwa [Nat.zero_add] at h
  have hlen : ((C.take b).drop a).length = b - a := by
    rw [length_drop, length_take]
    omega
  have hne : (C.take b).drop a ≠ [] := by
    intro h
    rw [h, length_nil] at hlen
    omega
  have happlied : (s.shard.applyAll ((C.take b).drop a)).appliedIndex =
      max s.shard.appliedIndex b := by
    rw [KvShard.appliedIndex_applyAll, KvShard.lastOf_eq hnum hne, hlen]
    omega
  have hmono : s.shard.appliedIndex ≤ (s.shard.applyAll ((C.take b).drop a)).appliedIndex := by
    rw [happlied]
    exact Nat.le_max_left ..
  refine {
    numbered := hi.numbered
    applied_le := ?_
    table := ?_
    marked := hi.marked.trans hmono
    batch := ?_
    marking := fun id call hc last hl => (hi.marking id call hc last hl).trans hmono }
  · show (s.shard.applyAll ((C.take b).drop a)).appliedIndex ≤ C.length
    rw [happlied]
    exact Nat.max_le.mpr ⟨hi.applied_le, hbC⟩
  · show (s.shard.applyAll ((C.take b).drop a)).table = writeAll ∅ (kvWrites (C.take
      (s.shard.applyAll ((C.take b).drop a)).appliedIndex))
    rw [KvShard.table_applyAll, happlied, hi.table]
    rw [drop_take]
    rcases Nat.le_total s.shard.appliedIndex b with hle | hle
    · -- the batch repeats what is applied from `a` on, and goes on behind it
      obtain ⟨x, hx⟩ := Nat.exists_eq_add_of_le ha
      obtain ⟨y, rfl⟩ := Nat.exists_eq_add_of_le hle
      rw [Nat.max_eq_right hle, hx, show a + x + y - a = x + y by omega, take_add (i := a + x),
        take_add (i := x), take_add (i := a) (j := x), drop_drop]
      simp only [kvWrites_append, writeAll_append]
      rw [← writeAll_append ∅]
      have h := writeAll_again (∅ : ExtTreeMap KvKey KvValue) (kvWrites (C.take a))
        (kvWrites ((C.drop a).take x)) [] nofun
      rw [append_nil] at h
      rw [h]
    · -- all of the batch is applied, and what was applied behind it left its keys alone
      obtain ⟨x, rfl⟩ := Nat.exists_eq_add_of_le (Nat.le_of_lt hab)
      obtain ⟨y, hy⟩ := Nat.exists_eq_add_of_le hle
      rw [Nat.max_eq_left hle, hy, show a + x - a = x by omega, take_add (i := a + x),
        take_add (i := a) (j := x)]
      simp only [kvWrites_append]
      refine writeAll_again ∅ _ _ _ fun w hw z hz => ?_
      obtain ⟨e, he, hwe⟩ := mem_filterMap.mp hw
      obtain ⟨e', he', hze⟩ := mem_filterMap.mp hz
      rw [drop_take, show a + x - a = x by omega] at hfresh
      have hindex' := ((hCnum.drop (a + x)).take y).bounds he'
      refine hfresh e he e' ?_ (fun d hd => ?_) ?_ w hwe z hze
      · exact mem_of_mem_take (mem_of_mem_drop (mem_of_mem_take he'))
      · have h := ((hCnum.drop a).take x).bounds hd
        rw [length_take] at h
        omega
      · rw [length_take] at hindex'
        omega
  · intro id call hc entries he
    obtain ⟨a', b', ha', hab', hb', heq⟩ := hi.batch id call hc entries he
    exact ⟨a', b', ha'.trans hmono, hab', hb', heq⟩

theorem Inv.markApplied (hi : s.Inv) {last : Nat} (hlast : last ≤ s.shard.appliedIndex) :
    Inv { s with host := { s.host with node := s.host.node.markApplied last } } := by
  have hnode : (s.host.node.markApplied last).log = s.host.node.log ∧
      (s.host.node.markApplied last).committed = s.host.node.committed ∧
      (s.host.node.markApplied last).lastApplied ≤ s.shard.appliedIndex := by
    unfold RaftNode.markApplied
    split
    · exact ⟨rfl, rfl, hlast⟩
    · exact ⟨rfl, rfl, hi.marked⟩
  exact hi.frame rfl (hnode.1 ▸ hi.numbered) (hnode.2.1 ▸ prefix_refl _) hnode.2.2
    hi.batch hi.marking

theorem Inv.nextSection (hi : s.Inv) (hcall : s.calls[id]? = some call)
    (hfresh : ∀ entries ∈ call.phase.batch, s.NotOvertaken entries)
    (hstep : s.nextSection id call.goal call.phase = some s') : s'.Inv := by
  obtain ⟨goal, phase⟩ := call
  cases phase with
  | lock =>
    simp only [KvSystem.nextSection] at hstep
    split at hstep
    · cases hstep
      have hi' : Inv { s with casHolder := some id } := { hi with }
      exact hi'.setCall nofun nofun
    · cases hstep
  | read =>
    simp only [KvSystem.nextSection] at hstep
    split at hstep
    · split at hstep <;> cases hstep
      · exact hi.setCall nofun nofun
      · exact hi.of_erase rfl rfl rfl
    · cases hstep
  | propose =>
    have hspec := RaftOp.propose_grows (h := s.host) hi.numbered goal.command
    unfold Spec at hspec
    simp only [KvSystem.nextSection] at hstep
    split at hstep
    · next index host hprop =>
      rw [hprop] at hspec
      obtain ⟨hindex, hlog, happlied, hcommit⟩ := hspec
      cases hstep
      have hnum : NumberedFrom 0 host.node.log.entries := by
        rw [hlog]
        exact hi.numbered.snoc (show index = 0 + _ + 1 by omega)
      exact (hi.setHost hnum (keepsCommitted_of_grows hlog happlied hcommit)).setCall nofun nofun
    · next e host hprop =>
      rw [hprop] at hspec
      obtain ⟨hlog, happlied, hcommit⟩ := hspec
      cases hstep
      have hhost : Inv { s with host } := by
        rcases hlog with hlog | ⟨index, hindex, hlog⟩
        · have hlog' : host.node.log.entries = s.host.node.log.entries ++ [] := by
            rw [hlog, append_nil]
          exact hi.setHost (hlog ▸ hi.numbered) (keepsCommitted_of_grows hlog' happlied hcommit)
        · refine hi.setHost ?_ (keepsCommitted_of_grows hlog happlied hcommit)
          rw [hlog]
          exact hi.numbered.snoc (show index = 0 + _ + 1 by omega)
      exact hhost.of_erase rfl rfl rfl
  | fetch index =>
    simp only [KvSystem.nextSection] at hstep
    split at hstep
    · cases hstep
      obtain ⟨h1, h2, h3⟩ := calls_succeed (s := s) id goal index
      exact hi.of_erase h2 h3 h1
    · next entries hne =>
      cases hstep
      refine hi.setCall ?_ nofun
      rintro _ ⟨⟩
      have heq := RaftNode.unappliedEntries_eq hi.numbered hne
      have hlt : s.host.node.lastApplied < s.host.node.committed.length := by
        by_contra hle
        exact hne (heq.trans (drop_eq_nil_iff.mpr (Nat.not_lt.mp hle)))
      exact ⟨_, _, hi.marked, hlt, Nat.le_refl _, by rw [heq, take_length]⟩
  | apply index entries =>
    cases hstep
    have hb := hi.batch id _ hcall entries rfl
    refine (hi.apply hb (hfresh entries rfl)).setCall nofun ?_
    rintro _ ⟨⟩
    exact Nat.le_of_eq (KvShard.appliedIndex_applyAll ..).symm
  | mark index last =>
    cases hstep
    obtain ⟨h1, h2, h3⟩ := calls_succeed
      (s := { s with host := { s.host with node := s.host.node.markApplied last } }) id goal index
    exact (hi.markApplied (hi.marking id _ hcall last rfl)).of_erase h2 h3 h1

theorem inv_step (hi : s.Inv) (hfresh : s.Fresh a) (hstep : s.step a = some s') : s'.Inv := by
  cases a with (simp only [step] at hstep)
  | start id goal =>
    split at hstep <;> cases hstep
    refine hi.setCall ?_ ?_ <;> cases goal <;> nofun
  | advance id =>
    split at hstep
    · cases hstep
    · next call hcall => exact hi.nextSection hcall (hfresh call hcall) hstep
  | raft call =>
    split at hstep
    · next hkeep =>
      cases hstep
      have hspec := RaftOp.exec_numbered (h := s.host) hi.numbered call
      refine hi.setHost ?_ hkeep
      unfold Spec at hspec
      split at hspec
      · next hexec => rw [hexec]; exact hspec
      · next hexec => rw [hexec]; exact hspec
    · cases hstep

theorem appliedIndex_mono (hstep : s.step a = some s') :
    s.shard.appliedIndex ≤ s'.shard.appliedIndex := by
  have hrise : ∀ (entries : List RaftEntry) (shard : KvShard),
      shard.appliedIndex ≤ (shard.applyAll entries).appliedIndex := by
    intro entries
    induction entries with
    | nil => exact fun shard => Nat.le_refl _
    | cons e es ih =>
      intro shard
      refine Nat.le_trans ?_ (ih (shard.apply e))
      simp only [KvShard.apply]
      split <;> omega
  cases a with (simp only [step] at hstep)
  | start id goal | raft call =>
    split at hstep <;> cases hstep
    exact Nat.le_refl _
  | advance id =>
    split at hstep
    · cases hstep
    next call hcall =>
    cases hphase : call.phase with (rw [hphase] at hstep)
    | apply index entries =>
      cases hstep
      exact hrise entries s.shard
    | fetch index =>
      simp only [KvSystem.nextSection] at hstep
      split at hstep <;> cases hstep
      · rw [(calls_succeed id _ index).2.1]
      · exact Nat.le_refl _
    | mark index last =>
      cases hstep
      rw [(calls_succeed id _ index).2.1]
    | lock | read | propose =>
      simp only [KvSystem.nextSection] at hstep
      repeat' split at hstep
      all_goals cases hstep
      all_goals exact Nat.le_refl _

theorem appliedIndex_mono_run {as : List KvAction} (h : Run.run step s as = some s') :
    s.shard.appliedIndex ≤ s'.shard.appliedIndex :=
  Run.run_preserves (I := fun t => s.shard.appliedIndex ≤ t.shard.appliedIndex)
    (fun hle hstep => hle.trans (appliedIndex_mono hstep)) (Nat.le_refl _) h

/-- In every run in which no batch is applied that is overtaken: the table is
what the committed commands up to the applied index build, and the applied index
has not gone down since any earlier moment. -/
theorem shard_equals_committed_log (nodeId : NodeId) (clusterSize : Nat) (as bs : List KvAction)
    (s s' : KvSystem) (hrun : Run.run step (init nodeId clusterSize) as = some s)
    (hrun' : Run.run step s bs = some s')
    (hfresh : Run.Along step Fresh (init nodeId clusterSize) (as ++ bs)) :
    s'.shard.appliedIndex ≤ s'.host.node.commitIndex ∧
      s'.shard.table = (KvShard.applyAll {} (s'.host.node.committed.filter
        (·.index ≤ s'.shard.appliedIndex))).table ∧
      s.shard.appliedIndex ≤ s'.shard.appliedIndex := by
  have hi : s'.Inv := Run.run_preserves_along inv_step (inv_init nodeId clusterSize) hfresh
    (Run.run_append.mpr ⟨s, hrun, hrun'⟩)
  have hcommitted : NumberedFrom 0 s'.host.node.committed := hi.numbered.take _
  refine ⟨hi.applied_le.trans (length_take_le ..), ?_, appliedIndex_mono_run hrun'⟩
  rw [KvShard.table_applyAll, hcommitted.filter_le, Nat.sub_zero]
  exact hi.table

def leading : List KvAction := [.raft .becomeCandidate, .raft (.becomeLeader [])]

/-- Two writes of one key; the first call applies its batch before the second
one reads its own. -/
def inTurn : List KvAction :=
  leading ++ [.start 1 (.write [7] (some [1])), .start 2 (.write [7] (some [2])), .advance 1,
    .advance 1, .advance 2, .advance 1, .advance 2, .advance 2, .advance 2, .advance 1]

theorem shard_equals_committed_log_inTurn :
    (Run.after step (init 1 1) inTurn).shard.appliedIndex = 2 ∧
      (Run.after step (init 1 1) inTurn).shard.table =
        (KvShard.applyAll {} ((Run.after step (init 1 1) inTurn).host.node.committed.filter
          (·.index ≤ (Run.after step (init 1 1) inTurn).shard.appliedIndex))).table := by
  refine ⟨by decide +kernel, ?_⟩
  exact (shard_equals_committed_log 1 1 inTurn [] _ _
    (Run.run_eq_some_after (by decide +kernel)) rfl (by decide +kernel)).2.1

/-- Two writes of one key; the first call has its batch in hand while the second
one proposes, applies both entries and returns. -/
def overtaken : List KvAction :=
  leading ++ [.start 1 (.write [7] (some [1])), .start 2 (.write [7] (some [2])), .advance 1,
    .advance 1, .advance 2, .advance 2, .advance 2, .advance 2, .advance 1, .advance 1]

theorem older_batch_overwrites_newer :
    ∃ s, Run.run step (init 1 1) overtaken = some s ∧ s.calls[1]? = none ∧ s.calls[2]? = none ∧
      s.shard.appliedIndex = 2 ∧ s.shard.table[([7] : KvKey)]? = some [1] ∧
      (KvShard.applyAll {} (s.host.node.committed.filter
        (·.index ≤ s.shard.appliedIndex))).table[([7] : KvKey)]? = some [2] :=
  ⟨_, Run.run_eq_some_after (by decide +kernel), by decide +kernel⟩

end KvSystem

end AionDb
