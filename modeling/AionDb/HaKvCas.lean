import AionDb.HaKvApply

/-!
# Compare-and-swap over the replicated log

A `cas` call excludes other `cas` calls of its group, reads the applied state
and proposes its write. `put` and `delete` do not take that lock, so a write
can be proposed between the read and the proposal; and what the call reads is
the applied state, which may lack entries that are in the log already. In both
cases a `cas` succeeds over a value it has not seen.

`KvSystem.Isolated` rules both out. Then a `cas` that succeeds has found the
value the command before it in the log left.
-/

namespace AionDb

open Std Effect OrdMap ExtTreeMap List

def valueOf (entries : List RaftEntry) (key : KvKey) : Option KvValue :=
  (lastWrite (kvWrites entries) key).join

theorem getElem?_writeAll_empty (entries : List RaftEntry) (key : KvKey) :
    (writeAll (∅ : ExtTreeMap KvKey KvValue) (kvWrites entries))[key]? = valueOf entries key := by
  rw [getElem?_writeAll, getElem?_empty, valueOf]
  cases lastWrite (kvWrites entries) key <;> rfl

theorem valueOf_append {es es' : List RaftEntry} {key : KvKey} {v : Option KvValue}
    (hes : valueOf es key = v) (h : ∀ w ∈ kvWrites es', w.1 = key → w.2 = v) :
    valueOf (es ++ es') key = v := by
  rw [valueOf, kvWrites_append, lastWrite_append]
  cases hlast : lastWrite (kvWrites es') key with
  | none => exact hes
  | some u => exact h (key, u) (exists_of_lastWrite hlast) rfl

theorem valueOf_after (es es' : List RaftEntry) {e : RaftEntry} {key : KvKey} {v : Option KvValue}
    (he : e.command = .kvWrite key v) :
    valueOf (es ++ e :: es') key = v ∨
      ∃ d ∈ es', d.command = .kvWrite key (valueOf (es ++ e :: es') key) := by
  have hsplit : lastWrite (kvWrites (es ++ e :: es')) key =
      (lastWrite (kvWrites es') key).or (some v) := by
    rw [kvWrites_append, lastWrite_append]
    have hcons : kvWrites (e :: es') = (key, v) :: kvWrites es' := by
      simp [kvWrites, he, RaftCommand.kv]
    rw [hcons, lastWrite, if_pos rfl, Option.or_assoc]
    rfl
  cases hlast : lastWrite (kvWrites es') key with (rw [hlast] at hsplit)
  | none => exact Or.inl (by rw [valueOf, hsplit]; rfl)
  | some u =>
    refine Or.inr ?_
    have hvalue : valueOf (es ++ e :: es') key = u := by rw [valueOf, hsplit]; rfl
    obtain ⟨d, hd, hw⟩ := mem_filterMap.mp (exists_of_lastWrite hlast)
    refine ⟨d, hd, ?_⟩
    rw [hvalue]
    cases hc : d.command with
    | kvWrite k x => rw [hc] at hw; cases hw; rfl
    | _ => rw [hc] at hw; cases hw

def KvGoal.compared : KvGoal → Option (KvKey × Option KvValue)
  | cas key expected _ => some (key, expected)
  | applyCommitted | write _ _ => none

namespace KvSystem

/-- The writes put no other value under the key of a `cas` that has read and not
yet proposed. -/
def Undisturbed (s : KvSystem) (writes : List (KvKey × Option KvValue)) : Prop :=
  ∀ p ∈ s.calls.toList, p.2.phase = .propose → ∀ c ∈ p.2.goal.compared,
    ∀ w ∈ writes, w.1 = c.1 → w.2 = c.2
deriving Decidable

/-- Ahead of the applied state no entry writes another value under the key. -/
def UpToDate (s : KvSystem) (key : KvKey) (expected : Option KvValue) : Prop :=
  ∀ e ∈ s.host.node.log.entries, s.shard.appliedIndex < e.index →
    ∀ w ∈ e.command.kv, w.1 = key → w.2 = expected
deriving Decidable

/-- What keeps a `cas` apart from other writes: no batch is applied that is
overtaken; the read of a `cas` is up to date; neither a `put` or `delete` nor
another user of the log writes between the read and the proposal; the node stays
the leader, so that its log only grows. -/
def Isolated (s : KvSystem) : KvAction → Prop
  | .start _ _ => True
  | .raft call =>
    s.host.node.log.entries <+: (call.exec s.host).2.node.log.entries ∧
      s.Undisturbed (kvWrites
        ((call.exec s.host).2.node.log.entries.drop s.host.node.log.entries.length))
  | .advance id => ∀ call ∈ s.calls[id]?,
      (∀ entries ∈ call.phase.batch, s.NotOvertaken entries) ∧
        (call.phase = .read → ∀ c ∈ call.goal.compared, s.UpToDate c.1 c.2) ∧
        (call.phase = .propose → call.goal.compared = none →
          s.Undisturbed call.goal.command.kv.toList)

instance (s : KvSystem) : (a : KvAction) → Decidable (s.Isolated a)
  | .start .. => .isTrue trivial
  | .raft .. | .advance .. => by unfold Isolated; infer_instance

/-- The command of a `cas` is in the log, over the value it expected. -/
def Wrote (s : KvSystem) (w : CasSuccess) : Prop :=
  ∃ es e es', s.host.node.log.entries = es ++ e :: es' ∧ w.index = es.length + 1 ∧
    e.command = .kvWrite w.key w.newValue ∧ valueOf es w.key = w.expected

structure CallOk (s : KvSystem) (id : Nat) (call : KvCall) : Prop where
  /-- A `cas` between read and proposal has seen what the log leaves. -/
  pending : call.phase = .propose → ∀ c ∈ call.goal.compared,
    valueOf s.host.node.log.entries c.1 = c.2
  proposed : ∀ key expected newValue, call.goal = .cas key expected newValue →
    ∀ index ∈ call.phase.index, s.Wrote ⟨key, expected, newValue, index⟩
  holder : call.goal.compared.isSome → call.phase ≠ .lock → s.casHolder = some id

structure CasInv (s : KvSystem) : Prop where
  inv : s.Inv
  call : ∀ (id : Nat) call, s.calls[id]? = some call → s.CallOk id call
  succeeded : ∀ w ∈ s.successes, s.Wrote w

@[simp] theorem kvWrites_nil : kvWrites [] = [] := rfl

theorem casInv_init (nodeId : NodeId) (clusterSize : Nat) : CasInv (init nodeId clusterSize) where
  inv := inv_init nodeId clusterSize
  call id call h := by simp [init] at h
  succeeded := nofun

variable {s s' : KvSystem} {id : Nat} {more : List RaftEntry} {w : CasSuccess} {id' : Nat}
  {goal : KvGoal} {call : KvCall}

theorem Wrote.mono (h : s.Wrote w)
    (hlog : s'.host.node.log.entries = s.host.node.log.entries ++ more) : s'.Wrote w := by
  obtain ⟨es, e, es', hs, hidx, hc, hv⟩ := h
  exact ⟨es, e, es' ++ more, by rw [hlog, hs, append_assoc, cons_append], hidx, hc, hv⟩

theorem CallOk.mono (h : s.CallOk id call)
    (hlog : s'.host.node.log.entries = s.host.node.log.entries ++ more)
    (hpending : call.phase = .propose → ∀ c ∈ call.goal.compared, ∀ w ∈ kvWrites more,
      w.1 = c.1 → w.2 = c.2)
    (hholder : s.casHolder = some id → s'.casHolder = some id) : s'.CallOk id call where
  pending hp c hc := by
    rw [hlog]
    exact valueOf_append (h.pending hp c hc) (hpending hp c hc)
  proposed key expected newValue hc index hi := (h.proposed key expected newValue hc index hi).mono hlog
  holder hc hp := hholder (h.holder hc hp)

/-- The entries write nothing else to a key that another call has compared. -/
def Spares (s : KvSystem) (id : Nat) (more : List RaftEntry) : Prop :=
  ∀ id' call, id' ≠ id → s.calls[id']? = some call → call.phase = .propose →
    ∀ c ∈ call.goal.compared, ∀ w ∈ kvWrites more, w.1 = c.1 → w.2 = c.2

theorem spares_nil : s.Spares id [] := by simp [Spares]

theorem CasInv.frame (hi : s.CasInv) (id : Nat) (hinv : s'.Inv)
    (hlog : s'.host.node.log.entries = s.host.node.log.entries ++ more) (hmore : s.Spares id more)
    (hholder : ∀ id', id' ≠ id → s.casHolder = some id' → s'.casHolder = some id')
    (hcalls : ∀ id', id' ≠ id → ∀ call, s'.calls[id']? = some call → s.calls[id']? = some call)
    (hcall : ∀ call, s'.calls[id]? = some call → s'.CallOk id call)
    (hsucceeded : ∀ w ∈ s'.successes, w ∈ s.successes ∨ s'.Wrote w) : s'.CasInv where
  inv := hinv
  call id' call hc := by
    by_cases hid : id' = id
    · subst hid
      exact hcall call hc
    · have hold := hcalls id' hid call hc
      exact (hi.call id' call hold).mono hlog (hmore id' call hid hold) (hholder id' hid)
  succeeded w hw := by
    rcases hsucceeded w hw with hw | hw
    · exact (hi.succeeded w hw).mono hlog
    · exact hw

theorem CasInv.setCall {t : KvSystem} (hi : s.CasInv) (hinv : (t.setCall id call).Inv)
    (hlog : t.host.node.log.entries = s.host.node.log.entries ++ more) (hmore : s.Spares id more)
    (hholder : ∀ id', id' ≠ id → s.casHolder = some id' → t.casHolder = some id')
    (hcalls : t.calls = s.calls) (hsucceeded : t.successes = s.successes)
    (hok : (t.setCall id call).CallOk id call) : (t.setCall id call).CasInv := by
  refine hi.frame id hinv hlog hmore hholder (fun id' hne call' hc => ?_) (fun call' hc => ?_)
    fun w hw => Or.inl (hsucceeded ▸ hw)
  · rwa [getElem?_setCall, if_neg hne.symm, hcalls] at hc
  · rw [getElem?_setCall, if_pos rfl] at hc
    exact Option.some.inj hc ▸ hok

theorem holder_finish (hne : id' ≠ id) (h : s.casHolder = some id') :
    (s.finish id).casHolder = some id' := by
  show (if s.casHolder = some id then none else s.casHolder) = some id'
  rw [h, if_neg fun heq => hne (Option.some.inj heq)]

theorem CasInv.finish {t : KvSystem} (hi : s.CasInv) (hinv : t.Inv)
    (hlog : t.host.node.log.entries = s.host.node.log.entries ++ more) (hmore : s.Spares id more)
    (hholder : t.casHolder = (s.finish id).casHolder) (hcalls : t.calls = (s.finish id).calls)
    (hsucc : ∀ w ∈ t.successes, w ∈ s.successes ∨ t.Wrote w) : t.CasInv := by
  refine hi.frame id hinv hlog hmore ?_ ?_ ?_ hsucc
  · exact fun id' hne h => hholder ▸ holder_finish hne h
  · exact fun id' _ call hc => getElem?_of_erase (hcalls ▸ hc)
  · intro call hc
    rw [hcalls, KvSystem.finish, getElem?_erase_self] at hc
    cases hc

theorem Inv.valueOf_log (hi : s.Inv) {key : KvKey} {expected : Option KvValue}
    (hread : s.shard.table[key]? = expected) (hup : s.UpToDate key expected) :
    valueOf s.host.node.log.entries key = expected := by
  set es := s.host.node.log.entries with hes
  have hlen : s.shard.appliedIndex ≤ s.host.node.commitIndex :=
    hi.applied_le.trans (length_take_le ..)
  have happlied : s.host.node.committed.take s.shard.appliedIndex = es.take s.shard.appliedIndex := by
    rw [RaftNode.committed, take_take, Nat.min_eq_left hlen]
  rw [← take_append_drop s.shard.appliedIndex es]
  refine valueOf_append ?_ fun w hw hkey => ?_
  · rw [← getElem?_writeAll_empty, ← happlied, ← hi.table]
    exact hread
  · obtain ⟨e, he, hwe⟩ := mem_filterMap.mp hw
    have hindex := (hi.numbered.drop s.shard.appliedIndex).bounds he
    exact hup e (mem_of_mem_drop he) (by omega) w hwe hkey

theorem CasInv.succeed (hi : s.CasInv) (phase : KvPhase) (hcall : s.calls[id]? = some ⟨goal, phase⟩)
    (hinv : (s.succeed id goal phase.index).Inv) :
    (s.succeed id goal phase.index).CasInv := by
  unfold KvSystem.succeed at hinv ⊢
  split
  · next key expected newValue index hidx =>
    simp only [hidx] at hinv
    refine hi.finish hinv (append_nil _).symm spares_nil rfl rfl fun w hw => ?_
    rcases mem_cons.mp hw with rfl | hw
    · have hwrote := (hi.call id _ hcall).proposed key expected newValue rfl index hidx
      exact Or.inr (hwrote.mono (append_nil _).symm)
    · exact Or.inl hw
  · next hnot =>
    exact hi.finish (hi.inv.of_erase rfl rfl rfl) (append_nil _).symm spares_nil rfl rfl
      fun w hw => Or.inl hw

theorem CasInv.undisturbed (hi : s.CasInv) (hcall : s.calls[id]? = some ⟨goal, .propose⟩)
    (hiso : goal.compared = none → s.Undisturbed goal.command.kv.toList) (id' : Nat) (call : KvCall)
    (hne : id' ≠ id) (hcall' : s.calls[id']? = some call) (hp : call.phase = .propose) :
    ∀ c ∈ call.goal.compared, ∀ w ∈ goal.command.kv, w.1 = c.1 → w.2 = c.2 := by
  intro c hc w hw
  cases hgoal : goal.compared with
  | none =>
    have hmem := mem_toList_iff_getElem?_eq_some.mpr hcall'
    exact hiso hgoal (id', call) hmem hp c hc w (Option.mem_toList.mpr hw)
  | some d =>
    -- two calls past the lock of the `cas` calls
    have h := (hi.call id _ hcall).holder (by rw [hgoal]; rfl) nofun
    have h' := (hi.call id' _ hcall').holder (Option.isSome_of_mem hc) (by rw [hp]; nofun)
    exact absurd (Option.some.inj (h'.symm.trans h)) hne

theorem CasInv.nextSection (hi : s.CasInv) (hcall : s.calls[id]? = some call)
    (hiso : s.Isolated (.advance id)) (hstep : s.nextSection id call.goal call.phase = some s') :
    s'.CasInv := by
  obtain ⟨hfresh, hread, hpropose⟩ := hiso call hcall
  have hinv := hi.inv.nextSection hcall hfresh hstep
  have hok := hi.call id call hcall
  have hnil : s.host.node.log.entries = s.host.node.log.entries ++ [] := (append_nil _).symm
  obtain ⟨goal, phase⟩ := call
  cases phase with
  | lock =>
    simp only [KvSystem.nextSection] at hstep
    split at hstep <;> cases hstep
    next hfree =>
    refine hi.setCall hinv hnil spares_nil (fun id' _ h => ?_) rfl rfl ⟨by simp, by simp [KvPhase.index], fun _ _ => rfl⟩
    rw [hfree] at h
    cases h
  | read =>
    simp only [KvSystem.nextSection] at hstep
    split at hstep
    · next key expected newValue =>
      split at hstep <;> cases hstep
      · next heq =>
        refine hi.setCall hinv hnil spares_nil (fun _ _ h => h) rfl rfl ?_
        refine ⟨fun _ c hc => ?_, by simp [KvPhase.index], fun hc _ => hok.holder hc (by simp)⟩
        cases hc
        exact hi.inv.valueOf_log heq (hread rfl _ rfl)
      · exact hi.finish hinv hnil spares_nil rfl rfl fun w hw => Or.inl hw
    · cases hstep
  | propose =>
    have hspec := RaftOp.propose_grows (h := s.host) hi.inv.numbered goal.command
    unfold Spec at hspec
    have hothers : ∀ index, s.Spares id [⟨index, s.host.node.currentTerm, goal.command⟩] := by
      intro index id' call hne hcall' hp c hc w hw
      obtain ⟨e, he, hwe⟩ := mem_filterMap.mp hw
      cases mem_singleton.mp he
      exact hi.undisturbed hcall (hpropose rfl) id' call hne hcall' hp c hc w hwe
    simp only [KvSystem.nextSection] at hstep
    split at hstep
    · next index host hprop =>
      rw [hprop] at hspec
      obtain ⟨hindex, hlog, -, -⟩ := hspec
      cases hstep
      refine hi.setCall hinv hlog (hothers index) (fun _ _ h => h) rfl rfl ?_
      refine ⟨by simp, ?_, fun hc _ => hok.holder hc (by simp)⟩
      rintro key expected newValue rfl _ ⟨⟩
      exact ⟨_, _, [], hlog, hindex, rfl, hok.pending rfl _ rfl⟩
    · next e host hprop =>
      rw [hprop] at hspec
      obtain ⟨hlog, -, -⟩ := hspec
      cases hstep
      rcases hlog with hlog | ⟨index, -, hlog⟩
      · exact hi.finish hinv (hlog.trans (append_nil _).symm) spares_nil rfl rfl fun w => Or.inl
      · exact hi.finish hinv hlog (hothers index) rfl rfl fun w => Or.inl
  | fetch index =>
    simp only [KvSystem.nextSection] at hstep
    split at hstep <;> cases hstep
    · exact hi.succeed (.fetch index) hcall hinv
    · refine hi.setCall hinv hnil spares_nil (fun _ _ h => h) rfl rfl ?_
      exact ⟨by simp, fun key e v hc i hi => (hok.proposed key e v hc i hi).mono hnil,
        fun hc _ => hok.holder hc (by simp)⟩
  | apply index entries =>
    cases hstep
    refine hi.setCall hinv hnil spares_nil (fun _ _ h => h) rfl rfl ?_
    exact ⟨by simp, fun key e v hc i hi => (hok.proposed key e v hc i hi).mono hnil,
      fun hc _ => hok.holder hc (by simp)⟩
  | mark index last =>
    cases hstep
    have hlog : (s.host.node.markApplied last).log.entries = s.host.node.log.entries ++ [] := by
      rw [append_nil]
      unfold RaftNode.markApplied
      split <;> rfl
    have hmarked := hi.inv.markApplied (hi.inv.marking id _ hcall last rfl)
    have hi' : CasInv { s with host := { s.host with node := s.host.node.markApplied last } } :=
      hi.frame id hmarked hlog spares_nil (fun _ _ h => h) (fun _ _ _ hc => hc)
        (fun call hc => (hi.call id call hc).mono hlog (by simp) fun h => h) fun w hw => Or.inl hw
    exact hi'.succeed (.mark index last) hcall hinv

theorem casInv_step {a : KvAction} (hi : s.CasInv) (hiso : s.Isolated a)
    (hstep : s.step a = some s') : s'.CasInv := by
  cases a with
  | start id goal =>
    have hinv := inv_step (a := .start id goal) hi.inv trivial hstep
    simp only [step] at hstep
    split at hstep <;> cases hstep
    refine hi.setCall hinv (append_nil _).symm spares_nil (fun _ _ h => h) rfl rfl ?_
    cases goal <;> constructor <;> simp [KvGoal.start, KvGoal.compared, KvPhase.index]
  | advance id =>
    simp only [step] at hstep
    split at hstep
    · cases hstep
    · next call hcall => exact hi.nextSection hcall hiso hstep
  | raft call =>
    have hinv := inv_step (a := .raft call) hi.inv trivial hstep
    simp only [step] at hstep
    split at hstep <;> cases hstep
    obtain ⟨hgrows, hquiet⟩ := hiso
    have hlog : (call.exec s.host).2.node.log.entries = s.host.node.log.entries ++
        (call.exec s.host).2.node.log.entries.drop s.host.node.log.entries.length :=
      (prefix_iff_eq_append.mp hgrows).symm
    have hmono : ∀ id call', s.calls[id]? = some call' →
        CallOk { s with host := (call.exec s.host).2 } id call' := fun id call' hc =>
      (hi.call id call' hc).mono hlog (fun hp => hquiet (id, call')
        (mem_toList_iff_getElem?_eq_some.mpr hc) hp) fun h => h
    exact ⟨hinv, hmono, fun w hw => (hi.succeeded w hw).mono hlog⟩

theorem Wrote.back {w' : CasSuccess} (h : s.Wrote w) (h' : s.Wrote w')
    (hnum : NumberedFrom 0 s.host.node.log.entries) (hlt : w.index < w'.index)
    (hkey : w.key = w'.key) (hexp : w.expected = w'.expected) :
    ∃ e ∈ s.host.node.log.entries, e.command = .kvWrite w.key w.expected ∧
      w.index ≤ e.index ∧ e.index < w'.index := by
  obtain ⟨es, e, es', hlog, hidx, hc, -⟩ := h
  obtain ⟨ds, d, ds', hlog', hidx', -, hv⟩ := h'
  obtain ⟨x, hx⟩ := Nat.exists_eq_add_of_lt (show es.length < ds.length by omega)
  have hsplit : ds = es ++ e :: es'.take x := by
    have htake : (ds ++ d :: ds').take ds.length = (es ++ e :: es').take ds.length := by
      rw [← hlog, ← hlog']
    rw [take_left, hx, show es.length + x + 1 = es.length + (x + 1) by omega,
      take_length_add_append, take_succ_cons] at htake
    exact htake
  have hindex : ∀ c ∈ e :: es'.take x, c ∈ s.host.node.log.entries ∧ w.index ≤ c.index ∧
      c.index < w'.index := by
    intro c hc
    have hn := (hnum.take ds.length).drop es.length
    rw [hlog', take_left, Nat.zero_add, hsplit, drop_left] at hn
    have hbounds := hn.bounds hc
    have hlen : (e :: es'.take x).length = ds.length - es.length := by
      rw [hsplit, length_append]
      omega
    refine ⟨?_, by omega, by omega⟩
    rw [hlog', hsplit]
    exact mem_append_left _ (mem_append_right _ hc)
  have hafter := valueOf_after es (es'.take x) hc
  rw [← hsplit, hkey, hv, ← hexp] at hafter
  rcases hafter with heq | ⟨c, hmem, hcmd⟩
  · refine ⟨e, (hindex e mem_cons_self).1, ?_, (hindex e mem_cons_self).2⟩
    rw [hc, heq]
  · obtain ⟨h1, h2⟩ := hindex c (mem_cons_of_mem _ hmem)
    exact ⟨c, h1, hkey ▸ hcmd, h2⟩

/-- In every run on one leader in which each `cas` is kept apart from other
writes: a `cas` that succeeded has its command in the log, right over commands
that leave the expected value; and of two with one expected value and different
new ones the later one found that value because a command had put it back. -/
theorem cas_loses_no_update (nodeId : NodeId) (clusterSize : Nat) (as : List KvAction)
    (s : KvSystem) (hrun : Run.run step (init nodeId clusterSize) as = some s)
    (hiso : Run.Along step Isolated (init nodeId clusterSize) as) :
    (∀ w ∈ s.successes, ∃ es e es', s.host.node.log.entries = es ++ e :: es' ∧
      w.index = es.length + 1 ∧ e.command = .kvWrite w.key w.newValue ∧
      valueOf es w.key = w.expected) ∧
    ∀ w ∈ s.successes, ∀ w' ∈ s.successes, w.key = w'.key → w.expected = w'.expected →
      w.newValue ≠ w'.newValue → ∃ e ∈ s.host.node.log.entries,
        e.command = .kvWrite w.key w.expected ∧ min w.index w'.index ≤ e.index ∧
          e.index < max w.index w'.index := by
  have hi : s.CasInv := Run.run_preserves_along casInv_step (casInv_init nodeId clusterSize) hiso hrun
  refine ⟨hi.succeeded, fun w hw w' hw' hkey hexp hnew => ?_⟩
  have h := hi.succeeded w hw
  have h' := hi.succeeded w' hw'
  rcases Nat.lt_trichotomy w.index w'.index with hlt | heq | hlt
  · obtain ⟨e, he, hc, hle, hlt'⟩ := h.back h' hi.inv.numbered hlt hkey hexp
    exact ⟨e, he, hc, by omega, by omega⟩
  · obtain ⟨es, e, es', hlog, hidx, hc, -⟩ := h
    obtain ⟨ds, d, ds', hlog', hidx', hc', -⟩ := h'
    have hsplit := append_inj (hlog.symm.trans hlog') (by omega)
    rw [(List.cons.inj hsplit.2).1, hc'] at hc
    exact absurd (RaftCommand.kvWrite.inj hc).2.symm hnew
  · obtain ⟨e, he, hc, hle, hlt'⟩ := h'.back h hi.inv.numbered hlt hkey.symm hexp.symm
    exact ⟨e, he, by rw [hkey, hexp, hc], by omega, by omega⟩

def wholeCas (id : Nat) (key : KvKey) (expected newValue : Option KvValue) : List KvAction :=
  .start id (.cas key expected newValue) :: List.replicate 6 (.advance id)

/-- Two `cas` calls on a single node, the second one over the value of the first. -/
def inSequence : List KvAction :=
  leading ++ wholeCas 1 [7] none (some [1]) ++ wholeCas 2 [7] (some [1]) (some [2])

theorem cas_loses_no_update_inSequence :
    (Run.after step (init 1 1) inSequence).successes =
        [⟨[7], some [1], some [2], 2⟩, ⟨[7], none, some [1], 1⟩] ∧
      ∀ w ∈ (Run.after step (init 1 1) inSequence).successes, ∃ es e es',
        (Run.after step (init 1 1) inSequence).host.node.log.entries = es ++ e :: es' ∧
          w.index = es.length + 1 ∧ e.command = .kvWrite w.key w.newValue ∧
          valueOf es w.key = w.expected := by
  refine ⟨by decide +kernel, ?_⟩
  exact (cas_loses_no_update 1 1 inSequence _ (Run.run_eq_some_after (by decide +kernel))
    (by decide +kernel)).1

/-- A leader of three nodes that hears from nobody, so that nothing is committed
and the calls return after their proposals. -/
def unacknowledged : List KvAction :=
  [.raft .becomeCandidate, .raft (.becomeLeader [2, 3]), .start 1 (.cas [7] none (some [1])),
    .advance 1, .advance 1, .advance 1, .advance 1, .start 2 (.cas [7] none (some [2])),
    .advance 2, .advance 2, .advance 2, .advance 2]

/-- A `put` between the read and the proposal of a `cas`, on a single node. -/
def putBetween : List KvAction :=
  leading ++ [.start 1 (.cas [7] none (some [1])), .advance 1, .advance 1,
    .start 2 (.write [7] (some [2])), .advance 2, .advance 1, .advance 1, .advance 1, .advance 1]

theorem cas_overwrites_unseen_value :
    (∃ s, Run.run step (init 1 3) unacknowledged = some s ∧
      s.successes = [⟨[7], none, some [2], 2⟩, ⟨[7], none, some [1], 1⟩] ∧
      valueOf (s.host.node.log.entries.take 1) [7] = some [1] ∧
      ∀ e ∈ s.host.node.log.entries, e.command ≠ .kvWrite [7] none) ∧
    ∃ s, Run.run step (init 1 1) putBetween = some s ∧
      s.successes = [⟨[7], none, some [1], 2⟩] ∧
      valueOf (s.host.node.log.entries.take 1) [7] = some [2] :=
  ⟨⟨_, Run.run_eq_some_after (by decide +kernel), by decide +kernel⟩,
    ⟨_, Run.run_eq_some_after (by decide +kernel), by decide +kernel⟩⟩

end KvSystem

end AionDb
