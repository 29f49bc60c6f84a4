import AionDb.TxSystem

/-!
# Write conflicts across interleaved commits

A transaction that began in `s₀` compares the cached timestamps with
`s₀.mgr.commitTs`. What makes this comparison see every commit that finishes
after it began is that the commit also took its timestamp after it began; the
two can only come apart for a transaction that in `s₀` is between `commit` and
`finish_commit`. `Since` is the invariant of the states after `s₀`, for one
access that no such transaction recorded.
-/

namespace AionDb

open Std Run TransactionManager

open TransactionManager (Access keeps holds)

/-! ## How a session moves -/

/-- The phases a session can still reach. -/
def Phase.leads : Phase → Phase → Bool
  | .running, _ => true
  | .rejected, p => p == .rejected || p == .rolledBack || p == .ended
  | .validated, p => p != .running
  | .committed ts, p => p == .committed ts || p == .finished ts
  | .finished ts, p => p == .finished ts
  | .rolledBack, p => p == .rolledBack || p == .ended
  | .ended, p => p == .ended

theorem Phase.leads_refl (p : Phase) : p.leads p = true := by
  cases p <;> simp [leads]

theorem Phase.leads_trans {p q r : Phase} (h₁ : p.leads q = true) (h₂ : q.leads r = true) :
    p.leads r = true := by
  cases p <;> cases q <;> simp_all [leads]
  all_goals cases r <;> simp_all

/-- A session keeps its handle, moves along the phases, and records nothing once it
is past the running phase. -/
structure Session.Evolves (c c' : Session) : Prop where
  handle : c'.handle = c.handle
  leads : c.phase.leads c'.phase = true
  recorded : c.phase ≠ .running → c'.recorded = c.recorded

theorem Session.Evolves.refl (c : Session) : c.Evolves c :=
  ⟨rfl, Phase.leads_refl _, fun _ => rfl⟩

theorem Session.Evolves.trans {c c' c'' : Session} (h₁ : c.Evolves c') (h₂ : c'.Evolves c'') :
    c.Evolves c'' where
  handle := h₂.handle.trans h₁.handle
  leads := Phase.leads_trans h₁.leads h₂.leads
  recorded hp := by
    have hp' : c'.phase ≠ .running := by
      intro hrun
      have := h₁.leads
      rw [hrun] at this
      cases hc : c.phase <;> simp_all [Phase.leads]
    exact (h₂.recorded hp').trans (h₁.recorded hp)

namespace TxSystem

variable {s s' : TxSystem} {call : TxCall} {t u : TxnId} {c : Session}

theorem put_evolves {m : TransactionManager} {d d' : Session} (hd : s.sessions[u]? = some d)
    (hev : d.Evolves d') (hc : s.sessions[t]? = some c) :
    ∃ c', (s.put u d' m).sessions[t]? = some c' ∧ c.Evolves c' := by
  rw [put_sessions]
  split
  · rename_i hut
    subst hut
    cases hd.symm.trans hc
    exact ⟨d', rfl, hev⟩
  · exact ⟨c, hc, .refl c⟩

theorem step_evolves (hI : Inv s) (h : s.step call = some s') (hc : s.sessions[t]? = some c) :
    ∃ c', s'.sessions[t]? = some c' ∧ c.Evolves c' := by
  cases step_effect hI h with
  | beginFailed next hle => exact ⟨c, hc, .refl c⟩
  | begun hd hid hpos hiso hstart =>
    refine ⟨c, ?_, .refl c⟩
    rw [put_sessions, if_neg (hI.session t c hc).lt_next.ne', hc]
  | recorded hd hphase =>
    exact put_evolves hd ⟨rfl, Phase.leads_refl _, fun hne => absurd hphase hne⟩ hc
  | @rejected _ u d hd hcall hphase =>
    refine put_evolves hd ⟨rfl, ?_, fun _ => rfl⟩ hc
    cases hp : d.phase <;> simp_all [Phase.leads, Phase.isActive]
  | validatedReadCommitted hd hphase hiso | validated hd hphase hiso he hok | committed hd hphase =>
    exact put_evolves hd ⟨rfl, by rw [hphase]; rfl, fun _ => rfl⟩ hc
  | finished hd hphase => exact put_evolves hd ⟨rfl, by simp [hphase, Phase.leads], fun _ => rfl⟩ hc
  | @rolledBack u d hd hphase =>
    refine put_evolves hd ⟨rfl, ?_, fun _ => rfl⟩ hc
    cases hp : d.phase <;> simp_all [Phase.leads, Phase.isActive]
  | ended hd hphase => exact put_evolves hd ⟨rfl, by rw [hphase]; rfl, fun _ => rfl⟩ hc

variable {s₁ s₃ : TxSystem} {as : List TxCall} {isolation : IsolationLevel} {ts : Nat}

theorem inv_run (hI : Inv s) (h : run step s as = some s') : Inv s' :=
  run_preserves (fun hI h => inv_step hI h) hI h

theorem run_evolves (hI : Inv s) (h : run step s as = some s') (hc : s.sessions[t]? = some c) :
    ∃ c', s'.sessions[t]? = some c' ∧ c.Evolves c' := by
  refine (run_preserves (I := fun s' => Inv s' ∧ ∃ c', s'.sessions[t]? = some c' ∧ c.Evolves c')
    ?_ ⟨hI, c, hc, .refl c⟩ h).2
  rintro s a s' ⟨hI, c', hc', hev⟩ hstep
  obtain ⟨c'', hc'', hev'⟩ := step_evolves hI hstep hc'
  exact ⟨inv_step hI hstep, c'', hc'', hev.trans hev'⟩

/-! ## Looking sessions up -/

theorem isFinished_iff : s.isFinished t = true ↔
    ∃ c ts, s.sessions[t]? = some c ∧ c.phase = .finished ts := by
  unfold isFinished phase?
  cases hc : s.sessions[t]? with
  | none => simp
  | some c => cases hp : c.phase <;> simp [hp, Phase.isFinished]

theorem isInFlight_iff : s.isInFlight t = true ↔
    ∃ c ts, s.sessions[t]? = some c ∧ c.phase = .committed ts := by
  unfold isInFlight phase?
  cases hc : s.sessions[t]? with
  | none => simp
  | some c => cases hp : c.phase <;> simp [hp, Phase.isInFlight]

theorem mem_keys_of_session (hc : s.sessions[t]? = some c) : t ∈ s.sessions.keys :=
  ExtTreeMap.mem_keys.mpr (ExtTreeMap.mem_iff_isSome_getElem?.mpr (by simp [hc]))

theorem recordedBy_of_session (hc : s.sessions[t]? = some c) : s.recordedBy t = c.recorded := by
  simp [recordedBy, hc]

/-! ## How the caches move -/

theorem Inv.entry (hI : Inv s) (hc : s.sessions[t]? = some c) (hp : c.phase.isTracked = true)
    (hiso : c.handle.isolation ≠ .readCommitted) :
    ∃ e, s.mgr.trackedTxns[t]? = some e ∧ e.startTs = c.handle.startTs := by
  have htr := (hI.session t c hc).tracked hp
  cases he : s.mgr.trackedTxns[t]? with
  | none => rw [he] at htr; exact absurd htr.1 hiso
  | some e => rw [he] at htr; exact ⟨e, rfl, htr.1⟩

theorem lastWrite_stamp {a : Access} (hI : Inv s) (hc : s.sessions[t]? = some c)
    (hp : c.phase = .committed ts) (ha : a.isWrite = true) :
    (s.mgr.trackedTxns[t]?.elim s.mgr (s.mgr.stampWrites · ts)).lastWrite a =
      if a ∈ c.recorded then some ts else s.mgr.lastWrite a := by
  have htr := (hI.session t c hc).tracked (by rw [hp]; rfl)
  cases he : s.mgr.trackedTxns[t]? with (rw [he] at htr)
  | none =>
    have : a ∉ c.recorded := fun hmem => by simp [htr.2 a hmem] at ha
    simp [this]
  | some e =>
    have hk : keeps c.handle.isolation a = true := by simp [keeps, ha]
    simp only [Option.elim, lastWrite_stampWrites ha, htr.2 a hk]

theorem step_lastWrite {a : Access} (hI : Inv s) (h : s.step call = some s') (ha : a.isWrite = true)
    (hc : s'.sessions[t]? = some c) (hp : c.phase.isTracked = true)
    (hiso : c.handle.isolation ≠ .readCommitted) :
    (∃ u d ts, call = .finishCommit u ∧ s.sessions[u]? = some d ∧ d.phase = .committed ts ∧
        a ∈ d.recorded ∧ (c.handle.startTs ≤ ts → s'.mgr.lastWrite a = some ts)) ∨
      (∀ u, call = .finishCommit u → a ∉ s.recordedBy u) ∧
        ∀ ts, c.handle.startTs ≤ ts → s.mgr.lastWrite a = some ts →
          s'.mgr.lastWrite a = some ts := by
  obtain ⟨e, he, hstart⟩ := (inv_step hI h).entry hc hp hiso
  cases step_effect hI h with
  | @finished u d ts hd hphase =>
    rw [put_mgr, pruneCommitCaches_trackedTxns] at he
    have hstamp := lastWrite_stamp hI hd hphase ha
    by_cases hw : a ∈ d.recorded
    · refine .inl ⟨u, d, ts, rfl, hd, hphase, hw, fun hle => ?_⟩
      rw [if_pos hw] at hstamp
      exact pruneCommitCaches_lastWrite he (hstart.trans_le hle) (by cases a <;> exact hstamp)
    · refine .inr ⟨?_, fun ts' hle hts' => ?_⟩
      · rintro _ ⟨⟩
        rwa [recordedBy_of_session hd]
      rw [if_neg hw] at hstamp
      exact pruneCommitCaches_lastWrite he (hstart.trans_le hle)
        (by rw [← hts', ← hstamp]; cases a <;> rfl)
  | rolledBack hd hphase | ended hd hphase =>
    rw [put_mgr, pruneCommitCaches_trackedTxns] at he
    exact .inr ⟨by simp, fun ts hle hts =>
      pruneCommitCaches_lastWrite he (hstart.trans_le hle) (by rw [← hts]; cases a <;> rfl)⟩
  | rejected hd hcall hphase =>
    refine .inr ⟨fun u hu => ?_, fun ts _ hts => hts⟩
    rcases hcall with rfl | rfl <;> cases hu
  | _ => exact .inr ⟨by simp, fun ts _ hts => by rw [← hts]; cases a <;> rfl⟩

theorem step_isFinished (hI : Inv s) (h : s.step call = some s') (hf : s'.isFinished t = true) :
    s.isFinished t = true ∨ call = .finishCommit t := by
  obtain ⟨c, ts, hc, hp⟩ := isFinished_iff.mp hf
  rw [isFinished_iff]
  cases step_effect hI h with
  | beginFailed next hle => exact .inl ⟨c, ts, hc, hp⟩
  | @finished u d ts' hd hphase =>
    rw [put_sessions] at hc
    split at hc
    · rename_i hut; subst hut; exact .inr rfl
    · exact .inl ⟨c, ts, hc, hp⟩
  | _ =>
    rw [put_sessions] at hc
    split at hc
    · cases hc; simp_all
    · exact .inl ⟨c, ts, hc, hp⟩

theorem finishCommit_session (h : s.step (.finishCommit t) = some s') :
    ∃ c ts, s.sessions[t]? = some c ∧ c.phase = .committed ts := by
  obtain ⟨c, hc, h⟩ := Option.bind_eq_some_iff.mp h
  cases hp : c.phase with
  | committed ts => exact ⟨c, ts, hc, hp⟩
  | _ => simp [hp] at h

/-! ## The states after a begin -/

/-- What holds of the states after `s₀`, in which the transaction of `h₁` began: a stamp
not above the timestamp of `s₀` was taken before `s₀`, and the cache of `a` is above it
once a transaction that recorded `a` has finished, as long as that of `h₁` is tracked. -/
structure Since (s₀ : TxSystem) (h₁ : ActiveTransaction) (a : Access) (s : TxSystem) : Prop where
  inv : Inv s
  start : h₁.startTs = s₀.mgr.commitTs
  level : h₁.isolation ≠ .readCommitted
  later : s₀.mgr.commitTs ≤ s.mgr.commitTs
  evolves : ∀ (t : TxnId) (c₀ : Session), s₀.sessions[t]? = some c₀ →
    ∃ c, s.sessions[t]? = some c ∧ c₀.Evolves c
  first : ∃ c : Session, s.sessions[h₁.id]? = some c ∧ c.handle = h₁
  stamp : ∀ (t : TxnId) (c : Session) (ts : Nat), s.sessions[t]? = some c → c.phase.commitTs? = some ts →
    ts ≤ s₀.mgr.commitTs → ∃ c₀ : Session, s₀.sessions[t]? = some c₀ ∧ c₀.phase.commitTs? = some ts
  seen : ∀ (t : TxnId) (c : Session), s.isFinished t = true → s₀.isFinished t = false → a ∈ s.recordedBy t →
    s.sessions[h₁.id]? = some c → c.phase.isTracked = true →
    ∃ ts, s.mgr.lastWrite a = some ts ∧ s₀.mgr.commitTs < ts

theorem step_commitTs (hI : Inv s) (h : s.step call = some s') :
    s.mgr.commitTs ≤ s'.mgr.commitTs := by
  cases step_effect hI h with
  | committed hd hphase => exact Nat.le_succ _
  | @finished u d ts hd hphase =>
    rw [put_mgr, pruneCommitCaches_commitTs]
    cases s.mgr.trackedTxns[u]? <;> exact le_rfl
  | rolledBack hd hphase => simp
  | ended hd hphase => simp
  | _ => exact le_rfl

theorem step_stamp (hI : Inv s) (h : s.step call = some s') (hc : s'.sessions[t]? = some c)
    (hp : c.phase.commitTs? = some ts) :
    s.mgr.commitTs < ts ∨ ∃ d, s.sessions[t]? = some d ∧ d.phase.commitTs? = some ts := by
  cases step_effect hI h with
  | beginFailed next hle => exact .inr ⟨c, hc, hp⟩
  | committed hd hphase =>
    rw [put_sessions] at hc
    split at hc
    · cases hc; cases hp; exact .inl (Nat.lt_succ_self _)
    · exact .inr ⟨c, hc, hp⟩
  | @finished u d ts' hd hphase =>
    rw [put_sessions] at hc
    split at hc
    · rename_i hut
      subst hut
      cases hc; cases hp
      exact .inr ⟨d, hd, by rw [hphase]; rfl⟩
    · exact .inr ⟨c, hc, hp⟩
  | @recorded u a d hd hphase =>
    rw [put_sessions] at hc
    split at hc
    · rename_i hut
      subst hut
      cases hc
      exact .inr ⟨d, hd, hp⟩
    · exact .inr ⟨c, hc, hp⟩
  | _ =>
    rw [put_sessions] at hc
    split at hc
    · cases hc; simp [Phase.commitTs?] at hp
    · exact .inr ⟨c, hc, hp⟩

theorem Phase.isTracked_of_leads {p q : Phase} (h : p.leads q = true) (hq : q.isTracked = true) :
    p.isTracked = true := by
  cases p <;> cases q <;> simp_all [Phase.leads, Phase.isTracked]

variable {s₀ : TxSystem} {h₁ : ActiveTransaction} {a : Access}

/-- No transaction between `commit` and `finish_commit` has recorded the access. -/
def NoWriterInFlight (s : TxSystem) (a : Access) : Prop :=
  ∀ t ∈ s.sessions.keys, s.isInFlight t = true → a ∉ s.recordedBy t
deriving Decidable

theorem Since.step (hquiet : s₀.NoWriterInFlight a) (ha : a.isWrite = true) (hS : Since s₀ h₁ a s)
    (h : s.step call = some s') :
    Since s₀ h₁ a s' where
  inv := inv_step hS.inv h
  start := hS.start
  level := hS.level
  later := hS.later.trans (step_commitTs hS.inv h)
  evolves t c₀ hc₀ := by
    obtain ⟨c, hc, hev⟩ := hS.evolves t c₀ hc₀
    obtain ⟨c', hc', hev'⟩ := step_evolves hS.inv h hc
    exact ⟨c', hc', hev.trans hev'⟩
  first := by
    obtain ⟨c, hc, hh⟩ := hS.first
    obtain ⟨c', hc', hev⟩ := step_evolves hS.inv h hc
    exact ⟨c', hc', hev.handle.trans hh⟩
  stamp t c ts hc hp hle := by
    rcases step_stamp hS.inv h hc hp with hlt | ⟨d, hd, hdp⟩
    · have := hS.later; omega
    · exact hS.stamp t d ts hd hdp hle
  seen t c' hf hf₀ hrec hc' hp' := by
    obtain ⟨c, hc, hh⟩ := hS.first
    obtain ⟨c'', hc'', hev⟩ := step_evolves hS.inv h hc
    cases hc'.symm.trans hc''
    have hh' : c'.handle = h₁ := hev.handle.trans hh
    have hiso' : c'.handle.isolation ≠ .readCommitted := by rw [hh']; exact hS.level
    have hstart' : c'.handle.startTs = s₀.mgr.commitTs := by rw [hh', hS.start]
    have hp : c.phase.isTracked = true := Phase.isTracked_of_leads hev.leads hp'
    rcases step_lastWrite hS.inv h ha hc' hp' hiso' with
      ⟨u, d, ts, rfl, hd, hdp, hw, hlast⟩ | hkeep
    · -- the finishing transaction wrote `a`, so it was not in flight in `s₀`
      have hts : s₀.mgr.commitTs < ts := by
        by_contra hle
        obtain ⟨d₀, hd₀, hd₀p⟩ := hS.stamp u d ts hd (by rw [hdp]; rfl) (Nat.not_lt.mp hle)
        obtain ⟨d', hd', hdev⟩ := hS.evolves u d₀ hd₀
        cases hd.symm.trans hd'
        have hlead := hdev.leads
        rw [hdp] at hlead
        cases hph : d₀.phase with
        | committed ts₀ =>
          have hin : s₀.isInFlight u = true := isInFlight_iff.mpr ⟨d₀, ts₀, hd₀, hph⟩
          apply hquiet u (mem_keys_of_session hd₀) hin
          rw [recordedBy_of_session hd₀, ← hdev.recorded (by rw [hph]; simp)]
          exact hw
        | _ => simp_all [Phase.leads, Phase.commitTs?]
      exact ⟨ts, hlast (by omega), hts⟩
    · obtain ⟨hnot, hkeep⟩ := hkeep
      rcases step_isFinished hS.inv h hf with hfs | hcall
      · obtain ⟨d, ts, hd, hdp⟩ := isFinished_iff.mp hfs
        obtain ⟨d', hd', hdev⟩ := step_evolves hS.inv h hd
        have hrec' : a ∈ s.recordedBy t := by
          rw [recordedBy_of_session hd, ← hdev.recorded (by rw [hdp]; simp)]
          rwa [recordedBy_of_session hd'] at hrec
        obtain ⟨ts', hlast, hlt⟩ := hS.seen t c hfs hf₀ hrec' hc hp
        exact ⟨ts', hkeep ts' (by omega) hlast, hlt⟩
      · -- a transaction that finishes now recorded the same before
        obtain ⟨d, ts, hd, hdp⟩ := finishCommit_session (hcall ▸ h)
        obtain ⟨d', hd', hdev⟩ := step_evolves hS.inv h hd
        rw [recordedBy_of_session hd', hdev.recorded (by rw [hdp]; simp),
          ← recordedBy_of_session hd] at hrec
        exact absurd hrec (hnot t hcall)

theorem begin_session (hok : (s₀.mgr.begin isolation).1 = .ok h₁)
    (h : s₀.step (.begin isolation) = some s₁) :
    h₁.isolation = isolation ∧ h₁.startTs = s₀.mgr.commitTs ∧
      s₁.sessions[h₁.id]? = some { handle := h₁ } := by
  rcases hb : s₀.mgr.begin isolation with ⟨e | hd, m⟩
  · rw [hb] at hok; cases hok
  rw [hb] at hok
  cases hok
  obtain ⟨-, -, hisol, hstart, -⟩ := begin_ok hb
  refine ⟨hisol, hstart, ?_⟩
  simp only [step, hb] at h
  cases h
  simp

theorem since_begin (hI : Inv s₀) (hok : (s₀.mgr.begin isolation).1 = .ok h₁)
    (hiso : isolation ≠ .readCommitted) (h : s₀.step (.begin isolation) = some s₁) :
    Since s₀ h₁ a s₁ := by
  obtain ⟨hisol, hstart, hs₁⟩ := begin_session hok h
  refine ⟨inv_step hI h, hstart, by rwa [hisol], step_commitTs hI h,
    fun t c₀ hc₀ => step_evolves hI h hc₀, ⟨_, hs₁, rfl⟩, fun t c ts hc hp hle => ?_,
    fun t c hf hf₀ _ _ _ => ?_⟩
  · rcases step_stamp hI h hc hp with hlt | hd
    · omega
    · exact hd
  · rcases step_isFinished hI h hf with hfs | hcall
    · simp [hf₀] at hfs
    · cases hcall

theorem finished_of_mem (hI : Inv s) (h : run step s as = some s')
    (hmem : TxCall.finishCommit t ∈ as) : s'.isFinished t = true ∧ s.isFinished t = false := by
  obtain ⟨pre, post, m, m', -, hpre, hstep, hpost⟩ := run_mem h hmem
  have hIm := inv_run hI hpre
  obtain ⟨c, ts, hc, hp⟩ := finishCommit_session hstep
  obtain ⟨c', hc', hp'⟩ : ∃ c', m'.sessions[t]? = some c' ∧ c'.phase = .finished ts := by
    cases step_effect hIm hstep with
    | @finished _ d ts' hd hdp =>
      cases hc.symm.trans hd
      cases hp.symm.trans hdp
      exact ⟨{ c with phase := .finished ts }, by simp, rfl⟩
    | rejected hd hcall hphase => rcases hcall with hcall | hcall <;> cases hcall
  obtain ⟨c'', hc'', hev⟩ := run_evolves (inv_step hIm hstep) hpost hc'
  have hlead := hev.leads
  rw [hp'] at hlead
  refine ⟨isFinished_iff.mpr ⟨c'', ts, hc'', by simpa [Phase.leads] using hlead⟩, ?_⟩
  by_contra hf
  obtain ⟨d, ts', hd, hdp⟩ := isFinished_iff.mp (by simpa using hf)
  obtain ⟨d', hd', hdev⟩ := run_evolves hI hpre hd
  cases hc.symm.trans hd'
  simpa [hdp, hp, Phase.leads] using hdev.leads

theorem validated_not_recorded {s₂ : TxSystem} {mid : List TxCall} {t₂ : TxnId} {b : Access}
    (hI : Inv s₀) (hok : (s₀.mgr.begin isolation).1 = .ok h₁) (hiso : isolation ≠ .readCommitted)
    (hbegin : s₀.step (.begin isolation) = some s₁) (hmid : run step s₁ mid = some s₂)
    (hval : s₂.step (.validateCommit h₁.id) = some s₃) (hpass : s₃.phase? h₁.id = some .validated)
    (hquiet : s₀.NoWriterInFlight b) (hb : b.isWrite = true) (hrec : a ∈ s₂.recordedBy h₁.id)
    (hab : TransactionManager.conflictsWith (isolation = .serializable) a b)
    (hfin : TxCall.finishCommit t₂ ∈ mid) : b ∉ s₂.recordedBy t₂ := by
  intro hrec₂
  have hS : Since s₀ h₁ b s₂ :=
    run_preserves (fun hS h => hS.step hquiet hb h) (since_begin hI hok hiso hbegin) hmid
  obtain ⟨c, hc, hh⟩ := hS.first
  have hisol := (begin_session hok hbegin).1
  have hf₀ : s₀.isFinished t₂ = false := by
    by_contra hf
    obtain ⟨d, ts, hd, hdp⟩ := isFinished_iff.mp (by simpa using hf)
    obtain ⟨d', hd', hdev⟩ := step_evolves hI hbegin hd
    have hlead := hdev.leads
    rw [hdp] at hlead
    have hf₁ : s₁.isFinished t₂ = true :=
      isFinished_iff.mpr ⟨d', ts, hd', by simpa [Phase.leads] using hlead⟩
    simp [(finished_of_mem (inv_step hI hbegin) hmid hfin).2] at hf₁
  have hf₂ := (finished_of_mem (inv_step hI hbegin) hmid hfin).1
  cases step_effect hS.inv hval with
  | rejected hd hcall hphase =>
    rcases hcall with hcall | hcall <;> cases hcall
    simp [phase?] at hpass
  | validatedReadCommitted hd hphase hrc =>
    cases hc.symm.trans hd
    exact hS.level (hh ▸ hrc)
  | @validated _ d e hd hphase hnrc he hconf =>
    cases hc.symm.trans hd
    obtain ⟨ts, hlast, hlt⟩ := hS.seen t₂ c hf₂ hf₀ hrec₂ hc (by rw [hphase]; rfl)
    have htr := (hS.inv.session _ c hc).tracked (by rw [hphase]; rfl)
    rw [he] at htr
    simp only [Tracks, hh, hisol] at hconf htr
    have hkeeps : keeps isolation a = true := by
      cases a <;> simp_all [keeps, Access.isWrite, TransactionManager.conflictsWith]
    rw [recordedBy_of_session hc] at hrec
    have := lastWrite_le_of_validationConflict_none hconf ((htr.2 a hkeeps).mpr hrec) hab hlast
    have := htr.1.trans hS.start
    omega

/-! ## First committer wins -/

theorem validateCommit_session (hI : Inv s) (h : s.step (.validateCommit t) = some s') :
    ∃ c p, s.sessions[t]? = some c ∧ (p = .validated ∨ p = .rejected) ∧
      s'.sessions[t]? = some { c with phase := p } := by
  cases step_effect hI h with
  | rejected hc hcall hphase =>
    rcases hcall with hcall | hcall <;> cases hcall
    exact ⟨_, _, hc, .inr rfl, by simp⟩
  | validatedReadCommitted hc hphase hrc | validated hc hphase hnrc he hconf =>
    exact ⟨_, _, hc, .inl rfl, by simp⟩

theorem validated_of_isFinished (hI : Inv s) (hval : s.step (.validateCommit t) = some s₃)
    (h : run step s₃ as = some s') (hf : s'.isFinished t = true) :
    s₃.phase? t = some .validated := by
  obtain ⟨c', ts, hc', hp'⟩ := isFinished_iff.mp hf
  obtain ⟨c, p, -, rfl | rfl, hc₃⟩ := validateCommit_session hI hval
  · simp [phase?, hc₃]
  · obtain ⟨c'', hc'', hev⟩ := run_evolves (inv_step hI hval) h hc₃
    cases hc'.symm.trans hc''
    simpa [hp', Phase.leads] using hev.leads

theorem recordedBy_run (hI : Inv s) (h : run step s as = some s') (hc : s.sessions[t]? = some c)
    (hp : c.phase ≠ .running) :
    s'.recordedBy t = s.recordedBy t := by
  obtain ⟨c', hc', hev⟩ := run_evolves hI h hc
  rw [recordedBy_of_session hc, recordedBy_of_session hc', hev.recorded hp]

/-- Two transactions that both recorded a write of one tuple do not both finish when one of
them, above the first level, began before the other finished and was validated after it:
provided that when it began no transaction that recorded the tuple was between `commit` and
`finish_commit`. -/
theorem first_committer_wins {pre mid post : List TxCall} {s₁ s₂ s₃ s₄ : TxSystem}
    {isolation : IsolationLevel} {t₂ : TxnId} {key : TupleKey} (hpre : run step {} pre = some s₀)
    (hok : (s₀.mgr.begin isolation).1 = .ok h₁) (hiso : isolation ≠ .readCommitted)
    (hbegin : s₀.step (.begin isolation) = some s₁) (hquiet : s₀.NoWriterInFlight (.tupleWrite key))
    (hmid : run step s₁ mid = some s₂) (hfin : TxCall.finishCommit t₂ ∈ mid)
    (hval : s₂.step (.validateCommit h₁.id) = some s₃) (hpost : run step s₃ post = some s₄)
    (hw₁ : Access.tupleWrite key ∈ s₄.recordedBy h₁.id)
    (hw₂ : Access.tupleWrite key ∈ s₄.recordedBy t₂) :
    ¬ (s₄.isFinished h₁.id = true ∧ s₄.isFinished t₂ = true) := by
  rintro ⟨hf₁, -⟩
  have hI₀ := inv_run inv_init hpre
  have hI₂ := inv_run (inv_step hI₀ hbegin) hmid
  have hpass := validated_of_isFinished hI₂ hval hpost hf₁
  have hI₃ := inv_step hI₂ hval
  have hrec₁ : Access.tupleWrite key ∈ s₂.recordedBy h₁.id := by
    obtain ⟨c, p, hc, hp, hc₃⟩ := validateCommit_session hI₂ hval
    rw [recordedBy_run hI₃ hpost hc₃ (by rcases hp with rfl | rfl <;> simp),
      recordedBy_of_session hc₃] at hw₁
    rwa [recordedBy_of_session hc]
  have hrec₂ : Access.tupleWrite key ∈ s₂.recordedBy t₂ := by
    obtain ⟨c, ts, hc, hp⟩ :=
      isFinished_iff.mp (finished_of_mem (inv_step hI₀ hbegin) hmid hfin).1
    have hrun : run step s₂ (.validateCommit h₁.id :: post) = some s₄ :=
      run_cons.mpr ⟨s₃, hval, hpost⟩
    rwa [← recordedBy_run hI₂ hrun hc (by simp [hp])]
  exact validated_not_recorded hI₀ hok hiso hbegin hmid hval hpass hquiet rfl hrec₁ rfl hfin hrec₂

def raceMid : List TxCall :=
  [.begin .readCommitted, .record 1 (.tupleWrite (7, 1)), .record 2 (.tupleWrite (7, 1)),
    .record 2 (.relationWrite 7), .validateCommit 2, .commit 2, .finishCommit 2,
    .record 1 (.relationRead 9)]

/-- The first to finish makes the validation of the other one fail. -/
theorem first_committer_wins_race :
    let s₁ := after step {} [.begin .serializable]
    let s₂ := after step s₁ raceMid
    let s₃ := after step s₂ [.validateCommit 1]
    ¬ ((after step s₃ [.rollback 1]).isFinished 1 = true ∧
      (after step s₃ [.rollback 1]).isFinished 2 = true) :=
  @first_committer_wins {} ⟨1, .serializable, 0, ⟨1, 2, []⟩⟩ [] raceMid [.rollback 1] _ _ _ _
    .serializable 2 (7, 1) (run_nil _) (by decide +kernel) (by decide)
    (step_eq_some_after (by decide +kernel)) (by decide +kernel)
    (run_eq_some_after (by decide +kernel)) (by decide)
    (step_eq_some_after (by decide +kernel)) (run_eq_some_after (by decide +kernel))
    (by decide +kernel) (by decide +kernel)

/-- Up to a `commit` that is still to be finished. -/
def staleStampBefore : List TxCall :=
  [.begin .readCommitted, .begin .readCommitted, .record 1 (.tupleWrite (7, 1)),
    .record 1 (.relationWrite 7), .validateCommit 1, .commit 1]

/-- A later commit of the same tuple finishes first, and the finish of the earlier one then
replaces the cached timestamps by its own, smaller one. -/
def staleStampAfter : List TxCall :=
  [.record 2 (.tupleWrite (7, 1)), .record 2 (.relationWrite 7), .validateCommit 2, .commit 2,
    .finishCommit 2, .finishCommit 1, .record 3 (.tupleWrite (7, 1)),
    .record 3 (.relationRead 7)]

theorem first_committer_overtaken :
    ∃ (s₀ s₁ s₂ s₃ s₄ : TxSystem) (h₁ : ActiveTransaction) (t₂ : TxnId) (key : TupleKey),
      run step {} staleStampBefore = some s₀ ∧
      (s₀.mgr.begin .serializable).1 = .ok h₁ ∧
      s₀.step (.begin .serializable) = some s₁ ∧
      run step s₁ staleStampAfter = some s₂ ∧
      TxCall.commit t₂ ∈ staleStampAfter ∧ TxCall.finishCommit t₂ ∈ staleStampAfter ∧
      s₂.step (.validateCommit h₁.id) = some s₃ ∧
      run step s₃ [.commit h₁.id, .finishCommit h₁.id] = some s₄ ∧ t₂ ≠ h₁.id ∧
      Access.tupleWrite key ∈ s₄.recordedBy h₁.id ∧
      Access.tupleWrite key ∈ s₄.recordedBy t₂ ∧
      s₄.isFinished h₁.id = true ∧ s₄.isFinished t₂ = true :=
  ⟨_, _, _, _, _, ⟨3, .serializable, 1, ⟨2, 4, [2]⟩⟩, 2, (7, 1),
    run_eq_some_after (by decide +kernel), by decide +kernel,
    step_eq_some_after (by decide +kernel), run_eq_some_after (by decide +kernel),
    by decide, by decide, step_eq_some_after (by decide +kernel),
    run_eq_some_after (by decide +kernel), by decide +kernel⟩

/-! ## Serializable validation -/

def stampOf (s : TxSystem) (t : TxnId) : Nat := ((s.phase? t).bind (·.commitTs?)).getD 0

/-- A finish that comes in commit order: no transaction that committed later and wrote one
of the same relations or tuples has finished already. -/
def FinishesInOrder (s : TxSystem) : TxCall → Prop
  | .finishCommit t => ∀ u ∈ s.sessions.keys, s.isFinished u = true →
      ∀ a ∈ s.recordedBy t, a.isWrite = true → a ∈ s.recordedBy u → s.stampOf u ≤ s.stampOf t
  | _ => True

instance (s : TxSystem) : DecidablePred s.FinishesInOrder := fun a => by
  cases a <;> unfold FinishesInOrder <;> infer_instance

def FinishedWriter (s : TxSystem) (a : Access) (ts : Nat) (u : TxnId) : Prop :=
  ∃ c, s.sessions[u]? = some c ∧ c.phase = .finished ts ∧ a ∈ c.recorded

theorem FinishedWriter.step (hI : Inv s) (hw : s.FinishedWriter a ts u)
    (h : s.step call = some s') : s'.FinishedWriter a ts u := by
  obtain ⟨c, hc, hp, hrec⟩ := hw
  obtain ⟨c', hc', hev⟩ := step_evolves hI h hc
  have hlead := hev.leads
  rw [hp] at hlead
  exact ⟨c', hc', by simpa [Phase.leads] using hlead, by rwa [hev.recorded (by simp [hp])]⟩

theorem lastWrite_of_step (hI : Inv s) (h : s.step call = some s') (ha : a.isWrite = true)
    (hts : s'.mgr.lastWrite a = some ts) :
    s.mgr.lastWrite a = some ts ∨
      ∃ t c, call = .finishCommit t ∧ s.sessions[t]? = some c ∧ c.phase = .committed ts ∧
        a ∈ c.recorded ∧ s'.FinishedWriter a ts t := by
  cases step_effect hI h with
  | @finished t c ts' hc hphase =>
    have hold := lastWrite_of_pruneCommitCaches hts
    have hstamp := lastWrite_stamp hI hc hphase ha
    have hold' : (s.mgr.trackedTxns[t]?.elim s.mgr (s.mgr.stampWrites · ts')).lastWrite a =
        some ts := by
      rw [← hold]; cases a <;> rfl
    rw [hstamp] at hold'
    split at hold'
    · rename_i hrec
      cases hold'
      exact .inr ⟨t, c, rfl, hc, hphase, hrec, { c with phase := .finished ts }, by simp, rfl, hrec⟩
    · exact .inl hold'
  | rolledBack hc hphase | ended hc hphase =>
    have hold := lastWrite_of_pruneCommitCaches hts
    exact .inl (by rw [← hold]; cases a <;> rfl)
  | _ => exact .inl (by rw [← hts]; cases a <;> rfl)

/-- Every cached timestamp is that of a finished transaction that wrote the access. -/
def CachesSound (s : TxSystem) : Prop :=
  ∀ a ts, a.isWrite = true → s.mgr.lastWrite a = some ts → ∃ u, s.FinishedWriter a ts u

theorem cachesSound_run (h : run step {} as = some s) : Inv s ∧ CachesSound s := by
  refine run_preserves (I := fun s => Inv s ∧ CachesSound s) ?_ ⟨inv_init, ?_⟩ h
  · rintro s call s' ⟨hI, hC⟩ hstep
    refine ⟨inv_step hI hstep, fun a ts ha hts => ?_⟩
    rcases lastWrite_of_step hI hstep ha hts with hold | ⟨t, c, -, -, -, -, hw⟩
    · obtain ⟨u, hu⟩ := hC a ts ha hold
      exact ⟨u, hu.step hI hstep⟩
    · exact ⟨t, hw⟩
  · intro a ts _ hts
    cases a <;> simp [TransactionManager.lastWrite] at hts

theorem stampOf_eq (hc : s.sessions[t]? = some c) (hp : c.phase.commitTs? = some ts) :
    s.stampOf t = ts := by
  simp [stampOf, phase?, hc, hp]

theorem lastWrite_le_of_inOrder {bs : List TxCall} {x : Nat} (hI : Inv s)
    (hw : s.FinishedWriter a x u) (ha : a.isWrite = true)
    (hx : ∀ y, s.mgr.lastWrite a = some y → x ≤ y) (horder : Along step FinishesInOrder s bs)
    (h : run step s bs = some s') :
    ∀ y, s'.mgr.lastWrite a = some y → x ≤ y := by
  refine (run_preserves_along (P := FinishesInOrder) (I := fun s => Inv s ∧
    s.FinishedWriter a x u ∧ ∀ y, s.mgr.lastWrite a = some y → x ≤ y) ?_ ⟨hI, hw, hx⟩ horder h).2.2
  rintro s call s' ⟨hI, hw, hx⟩ horder hstep
  refine ⟨inv_step hI hstep, hw.step hI hstep, fun y hy => ?_⟩
  rcases lastWrite_of_step hI hstep ha hy with hold | ⟨t, c, rfl, hc, hp, hrec, -⟩
  · exact hx y hold
  · obtain ⟨d, hd, hdp, hdrec⟩ := hw
    have := horder u (mem_keys_of_session hd) (isFinished_iff.mpr ⟨d, x, hd, hdp⟩) a
      (by rwa [recordedBy_of_session hc]) ha (by rwa [recordedBy_of_session hd])
    rwa [stampOf_eq hd (by rw [hdp]; rfl), stampOf_eq hc (by rw [hp]; rfl)] at this

/-- A serializable transaction that passes validation touched no relation that a
transaction which finished since it began recorded as written, provided that when it began
no writer of the relation was between `commit` and `finish_commit`; and in every run whose
finishes come in commit order the cached timestamp of a relation never decreases. -/
theorem serializable_validation_complete (r : RelationId) :
    (∀ (pre mid : List TxCall) (s₀ s₁ s₂ s₃ : TxSystem) (h₁ : ActiveTransaction)
      (t₂ : TxnId), run step {} pre = some s₀ →
      (s₀.mgr.begin .serializable).1 = .ok h₁ → s₀.step (.begin .serializable) = some s₁ →
      s₀.NoWriterInFlight (.relationWrite r) → run step s₁ mid = some s₂ →
      s₂.step (.validateCommit h₁.id) = some s₃ → s₃.phase? h₁.id = some .validated →
      (Access.relationRead r ∈ s₂.recordedBy h₁.id ∨ Access.relationWrite r ∈ s₂.recordedBy h₁.id) →
      TxCall.finishCommit t₂ ∈ mid → Access.relationWrite r ∉ s₂.recordedBy t₂) ∧
    (∀ (as bs : List TxCall) (s s' : TxSystem) (x y : Nat),
      run step {} as = some s → run step s bs = some s' → Along step FinishesInOrder s bs →
      s.mgr.lastRelationWriteCommit[r]? = some x →
      s'.mgr.lastRelationWriteCommit[r]? = some y → x ≤ y) := by
  constructor
  · intro pre mid s₀ s₁ s₂ s₃ h₁ t₂ hpre hok hbegin hquiet hmid hval hpass htouch hfin
    have hI₀ := inv_run inv_init hpre
    rcases htouch with hread | hwrite
    · exact validated_not_recorded hI₀ hok (by decide) hbegin hmid hval hpass hquiet rfl hread
        ⟨rfl, rfl⟩ hfin
    · exact validated_not_recorded hI₀ hok (by decide) hbegin hmid hval hpass hquiet rfl hwrite
        ⟨rfl, rfl⟩ hfin
  · intro as bs s s' x y has hbs horder hx hy
    obtain ⟨hI, hC⟩ := cachesSound_run has
    obtain ⟨u, hu⟩ := hC (.relationWrite r) x rfl hx
    refine lastWrite_le_of_inOrder hI hu rfl (fun y' hy' => ?_) horder hbs y hy
    exact (Option.some.inj (hx.symm.trans hy')).le

/-- Two writers of relation 7 commit and finish in order; a serializable reader of relation 9
passes. -/
def inOrderMid : List TxCall :=
  [.begin .readCommitted, .begin .readCommitted, .record 1 (.relationRead 9),
    .record 2 (.relationWrite 7), .record 3 (.relationWrite 7), .validateCommit 2, .commit 2,
    .validateCommit 3, .commit 3, .finishCommit 2]

theorem serializable_validation_complete_inOrder :
    let s₁ := after step {} [.begin .serializable]
    let s₂ := after step s₁ inOrderMid
    let s₃ := after step s₂ [.validateCommit 1]
    (s₃.phase? 1 = some .validated ∧ Access.relationWrite 9 ∉ s₂.recordedBy 2) ∧
      ∃ x y, s₂.mgr.lastRelationWriteCommit[7]? = some x ∧
        (after step s₂ [.finishCommit 3]).mgr.lastRelationWriteCommit[7]? = some y ∧ x ≤ y :=
  ⟨⟨by decide +kernel,
    (serializable_validation_complete 9).1 [] inOrderMid {} _ _ _
      ⟨1, .serializable, 0, ⟨1, 2, []⟩⟩ 2 (run_nil _) (by decide +kernel)
      (step_eq_some_after (by decide +kernel)) (by decide +kernel)
      (run_eq_some_after (by decide +kernel)) (step_eq_some_after (by decide +kernel))
      (by decide +kernel) (by decide +kernel) (by decide)⟩,
    1, 2, by decide +kernel, by decide +kernel,
    (serializable_validation_complete 7).2 (.begin .serializable :: inOrderMid) [.finishCommit 3]
      (after step (after step {} [.begin .serializable]) inOrderMid) _ 1 2 (by decide +kernel)
      (run_eq_some_after (by decide +kernel)) (by decide +kernel) (by decide +kernel)
      (by decide +kernel)⟩

theorem relation_stamp_overwritten :
    ∃ (s₀ s₁ s₂ s₃ : TxSystem) (h₁ : ActiveTransaction) (t₂ : TxnId) (r : RelationId),
      run step {} staleStampBefore = some s₀ ∧
      (s₀.mgr.begin .serializable).1 = .ok h₁ ∧
      s₀.step (.begin .serializable) = some s₁ ∧
      run step s₁ staleStampAfter = some s₂ ∧
      s₂.step (.validateCommit h₁.id) = some s₃ ∧ s₃.phase? h₁.id = some .validated ∧
      Access.relationRead r ∈ s₂.recordedBy h₁.id ∧
      TxCall.commit t₂ ∈ staleStampAfter ∧ TxCall.finishCommit t₂ ∈ staleStampAfter ∧
      Access.relationWrite r ∈ s₂.recordedBy t₂ ∧
      (∃ m, run step s₁ (staleStampAfter.take 5) = some m ∧
        m.mgr.lastRelationWriteCommit[r]? = some 2) ∧
      s₂.mgr.lastRelationWriteCommit[r]? = some 1 :=
  ⟨_, _, _, _, ⟨3, .serializable, 1, ⟨2, 4, [2]⟩⟩, 2, 7,
    run_eq_some_after (by decide +kernel), by decide +kernel,
    step_eq_some_after (by decide +kernel), run_eq_some_after (by decide +kernel),
    step_eq_some_after (by decide +kernel), by decide +kernel, by decide +kernel, by decide,
    by decide, by decide +kernel, ⟨_, run_eq_some_after (by decide +kernel), by decide +kernel⟩,
    by decide +kernel⟩

end TxSystem

end AionDb
