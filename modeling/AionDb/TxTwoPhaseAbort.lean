import AionDb.TxTwoPhase
import Mathlib.Data.List.Perm.Basic

/-!
# Participants that were asked to prepare

A run is followed together with the participants that were sent a prepare. Where
a vote is missing the coordinator rolls them back. Where others change the record
after the votes, `stage` or `commit` is refused and the call returns at once; where
a participant is unknown it returns with the record still pending.
-/

namespace AionDb.TwoPhase

open List Option

def Phase.Committing : Phase → Bool
  | .committing .. => true
  | _ => false

def TwoPhaseSystem.asked (s : TwoPhaseSystem) (a : TwoPhaseAction) : Option Nat :=
  match a, s.phase with
  | .vote _, .preparing (pid :: _) _ _ _ => some pid
  | _, _ => none

/-- The step takes none of the early returns that leave something behind. -/
def TwoPhaseSystem.Accepted (s : TwoPhaseSystem) (a : TwoPhaseAction) : Bool :=
  match a, s.phase with
  | .execute .., _ => ∀ r ∈ s.record, r.status.isFinal
  | .resolve known, .resolving participants =>
    (∀ p ∈ participants, p ∈ known) ∨ ∀ r ∈ s.record, r.status.isFinal
  | .stage, _ => ∃ r ∈ s.record, r.stage.isOk
  | .commit now, _ => ∃ r ∈ s.record, (r.commit now).isOk
  | _, _ => true

structure FollowedRun where
  sys : TwoPhaseSystem
  prepared : List Nat := []
  committed : Bool := false

namespace FollowedRun

def step (cfg : CoordinatorConfig) (t : FollowedRun) (a : TwoPhaseAction) : Option FollowedRun :=
  (t.sys.step cfg a).map fun s =>
    ⟨s, t.prepared ++ (t.sys.asked a).toList, t.committed || s.phase.Committing⟩

/-- Whoever was sent a prepare was sent a rollback, and no record is left open. -/
def Cleared (t : FollowedRun) : Prop :=
  (∀ p ∈ t.prepared, (p, .rollback) ∈ t.sys.messages) ∧ ∀ r ∈ t.sys.record, r.status.isFinal

def Open (t : FollowedRun) : Prop :=
  match t.sys.phase with
  | .idle | .declaringSpans _ | .resolving _ => t.prepared = []
  | .preparing asking participants _ _ => asking ⊆ participants ∧ t.prepared ⊆ participants
  | .rollingBack telling _ _ => ∀ p ∈ t.prepared, p ∈ telling ∨ (p, .rollback) ∈ t.sys.messages
  | .staging _ | .staged _ => True
  | .committing .. => False
  | .forgetting _ | .done _ => t.Cleared

def Inv (t : FollowedRun) : Prop := t.committed = true ∨ t.Open

variable {cfg : CoordinatorConfig} {t t' : FollowedRun} {s s' : TwoPhaseSystem}
  {a : TwoPhaseAction} {prepared : List Nat} {committed : Bool}

theorem Open.mono (hopen : t.Open) (hphase : s'.phase = t.sys.phase)
    (hmessages : ∀ m ∈ t.sys.messages, m ∈ s'.messages)
    (hrecord : (∀ r ∈ t.sys.record, r.status.isFinal) → ∀ r ∈ s'.record, r.status.isFinal) :
    Open ⟨s', t.prepared, committed⟩ := by
  unfold Open at hopen ⊢
  rw [hphase]
  cases h : t.sys.phase with rw [h] at hopen
  | rollingBack telling attempt reason => exact fun p hp => (hopen p hp).imp id (hmessages _)
  | forgetting outcome | done result =>
    exact ⟨fun p hp => hmessages _ (hopen.1 p hp), hrecord hopen.2⟩
  | _ => exact hopen

theorem phase_transition {next : Phase}
    {f : DistributedTxnRecord → Except TxnTransitionError DistributedTxnRecord}
    (hok : ∃ r ∈ s.record, (f r).isOk) : (s.transition f next).phase = next := by
  obtain ⟨r, hr, hok⟩ := hok
  simp only [TwoPhaseSystem.transition, Option.mem_def.mp hr]
  cases hf : f r with
  | ok r' => rfl
  | error e => cases hf ▸ hok

theorem open_fail (hnone : prepared = []) (hfinal : ∀ r ∈ s.record, r.status.isFinal)
    (e : DbError) : Open ⟨s.fail e, prepared, committed⟩ :=
  ⟨by simp [hnone], hfinal⟩

theorem isFinal_afterTransition_abort (r : DistributedTxnRecord) :
    (afterTransition r r.abort).status.isFinal := by
  by_cases h : r.status = .committed
  · rw [afterTransition_abort_of_isFinal (by rw [h]; rfl), h]
    rfl
  · rw [status_afterTransition_abort h]
    rfl

theorem step_inv (hinv : t.Inv) (hacc : t.sys.Accepted a) (hstep : t.step cfg a = some t') :
    t'.Inv := by
  obtain ⟨s', hs, rfl⟩ := map_eq_some_iff.mp hstep
  rcases hinv with hcommitted | hopen
  · exact .inl (by simp only [hcommitted, Bool.true_or])
  have hasked (h : ∀ answer, a ≠ .vote answer) :
      t.prepared ++ (t.sys.asked a).toList = t.prepared := by
    cases a <;> simp_all [TwoPhaseSystem.asked]
  have hnow := hopen
  unfold Open at hnow
  unfold TwoPhaseSystem.step at hs
  split at hs <;> try (rename_i hphase; rw [hphase] at hnow)
  · -- execute
    rw [hasked (by simp)]
    split at hs
    · cases hs
      exact .inr (open_fail hnow (of_decide_eq_true hacc) _)
    · split at hs
      · cases hs
        exact .inr (open_fail hnow (of_decide_eq_true hacc) _)
      · cases hs
        exact .inr hnow
  · -- the write spans are refused when the record is final
    rw [hasked (by simp)]
    cases hs
    unfold TwoPhaseSystem.transition
    split
    · rename_i hnone
      exact .inr (open_fail (s := t.sys) hnow (by simp [hnone]) _)
    rename_i r hr
    by_cases hfinal : r.status.isFinal
    · simp only [hfinal, if_true]
      exact .inr (open_fail (s := t.sys) hnow (by simp [hr, hfinal]) _)
    · simp only [hfinal, Bool.false_eq_true, if_false]
      exact .inr hnow
  · -- resolve
    rw [hasked (by simp)]
    simp only [TwoPhaseSystem.Accepted, hphase, decide_eq_true_eq] at hacc
    split at hs
    · rename_i p hp
      cases hs
      refine .inr (open_fail hnow (hacc.resolve_left fun hknown => ?_) _)
      have hp' := find?_some hp
      exact of_decide_eq_true hp' (hknown p (mem_of_find?_eq_some hp))
    · cases hs
      exact .inr ⟨Subset.refl _, hnow ▸ nil_subset _⟩
  · -- the next participant is asked
    obtain ⟨hasking, hprepared⟩ := hnow
    obtain ⟨hpid, hasking⟩ := cons_subset.mp hasking
    cases hs
    simp only [Inv, Open, TwoPhaseSystem.asked, hphase, toList_some]
    exact .inr ⟨hasking, append_subset.mpr ⟨hprepared, cons_subset.mpr ⟨hpid, nil_subset _⟩⟩⟩
  · -- decide
    rw [hasked (by simp)]
    split at hs
    · cases hs
      exact .inr fun p hp => .inl (hnow.2 hp)
    · cases hs
      exact .inr trivial
  · -- a participant is told to roll back, or given up after it was told
    rename_i acknowledged pid telling attempt reason
    rw [hasked (by simp)]
    cases hs
    have htold (p : Nat) (hp : p ∈ t.prepared) : p ∈ telling ∨
        (p, .rollback) ∈ t.sys.messages ∨ (p, Message.rollback) = (pid, .rollback) := by
      rcases hnow p hp with h | h
      · rcases mem_cons.mp h with rfl | h
        · exact .inr (.inr rfl)
        · exact .inl h
      · exact .inr (.inl h)
    refine .inr ?_
    by_cases hnext : acknowledged = true ∨ cfg.commitRetries ≤ attempt
    · simp only [Open, (TwoPhaseSystem.record_send ..).2.1, if_pos hnext]
      exact fun p hp => (htold p hp).imp id TwoPhaseSystem.mem_messages_send.mpr
    · simp only [Open, (TwoPhaseSystem.record_send ..).2.1, if_neg hnext]
      exact fun p hp => (htold p hp).imp (mem_cons_of_mem _) TwoPhaseSystem.mem_messages_send.mpr
  · -- abort
    rw [hasked (by simp)]
    cases hs
    refine .inr ⟨fun p hp => (hnow p hp).resolve_left not_mem_nil, fun _ hr => ?_⟩
    obtain ⟨r, -, rfl⟩ := map_eq_some_iff.mp hr
    exact isFinal_afterTransition_abort r
  · cases hs
    exact .inr (by simp only [Open, phase_transition (of_decide_eq_true hacc)])
  · cases hs
    exact .inl (by simp only [phase_transition (of_decide_eq_true hacc), Phase.Committing, Bool.or_true])
  · exact hnow.elim
  · exact hnow.elim
  · -- forget
    rw [hasked (by simp)]
    split at hs
    · split at hs
      · cases hs
        exact .inr ⟨hnow.1, by simp⟩
      · cases hs
        exact .inr hnow
    · cases hs
      exact .inr hnow
  · -- deliver
    obtain ⟨m, hm, rfl⟩ := map_eq_some_iff.mp hs
    rw [hasked (by simp)]
    obtain ⟨hi, rfl⟩ := List.getElem?_eq_some_iff.mp hm
    refine .inr (hopen.mono rfl (fun x hx => ?_) id)
    rwa [TwoPhaseSystem.messages, append_assoc, singleton_append, mem_append,
      (getElem_cons_eraseIdx_perm hi).mem_iff, ← mem_append]
  · cases hs
    rw [hasked (by simp)]
    refine .inr (hopen.mono rfl (fun x hx => hx) fun hfinal r' hr' => ?_)
    obtain ⟨r, hr, rfl⟩ := map_eq_some_iff.mp hr'
    rw [RecordCall.apply_of_isFinal (hfinal r hr)]
    exact hfinal r hr
  · cases hs

/-- Where `stage` and `commit` are accepted, no participant is unknown and no open record of the
transaction was there before, a call that does not commit the record rolls back whoever was sent
a prepare and leaves no open record. -/
theorem prepared_rolledBack {record : Option DistributedTxnRecord} {as : List TwoPhaseAction}
    {result : DbResult CommitOutcome} (hrun : Run.run (step cfg) ⟨{ record }, [], false⟩ as = some t)
    (hacc : Run.Along (step cfg) (fun t a => t.sys.Accepted a) ⟨{ record }, [], false⟩ as)
    (hdone : t.sys.phase = .done result) (hnot : t.committed = false) :
    (∀ p ∈ t.prepared, (p, .rollback) ∈ t.sys.messages) ∧ ∀ r ∈ t.sys.record, r.status.isFinal := by
  have hinit : Inv ⟨{ record }, [], false⟩ := .inr rfl
  have hinv : t.Inv := Run.run_preserves_along step_inv hinit hacc hrun
  simp only [Inv, Open, hdone, hnot, Bool.false_eq_true, false_or] at hinv
  exact hinv

/-- One of two participants votes no; the first call to it is lost. -/
def oneNo : List TwoPhaseAction :=
  [.execute 1 [1, 2] ⟨100, 0⟩, .declareWriteSpans, .resolve [1, 2],
    .vote (some (.ok (.yes ⟨101, 0⟩))), .vote (some (.ok (.no "conflict"))), .decide,
    .tell true, .tell false, .tell true, .abort, .forget]

theorem prepared_rolledBack_oneNo :
    let t := Run.after (step TwoPhaseSystem.testConfig) ⟨{}, [], false⟩ oneNo
    t.prepared = [1, 2] ∧ (∀ p ∈ t.prepared, (p, .rollback) ∈ t.sys.messages) ∧
      ∀ r ∈ t.sys.record, r.status.isFinal := by
  intro t
  have hrun : Run.run (step TwoPhaseSystem.testConfig) ⟨{}, [], false⟩ oneNo = some t :=
    Run.run_eq_some_after (by decide +kernel)
  have hdone : t.sys.phase = .done (.ok (.aborted "participant 2 voted no: conflict")) := rfl
  exact ⟨rfl, prepared_rolledBack hrun (by decide +kernel) hdone rfl⟩

/-- The record is pushed after the votes: `stage` is refused, and the participant that has
prepared is told nothing. -/
theorem prepared_stranded_by_push :
    let t := Run.after (step TwoPhaseSystem.testConfig) ⟨{}, [], false⟩
      [.execute 1 [1] ⟨100, 0⟩, .declareWriteSpans, .resolve [1], .vote (some (.ok (.yes ⟨101, 0⟩))),
        .decide, .call (.push 9 ⟨102, 0⟩), .stage]
    t.sys.phase = .done (.error (.internalMsg "invalid transition Aborted -> Staging")) ∧
      t.committed = false ∧ t.prepared = [1] ∧ t.sys.messages = [] :=
  ⟨rfl, rfl, rfl, rfl⟩

end FollowedRun

end AionDb.TwoPhase
