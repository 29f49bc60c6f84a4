import AionDb.TxDistributed
import AionDb.LibRun

/-!
# Two-phase commit

The coordinator of a transaction registers its record, asks every participant
for its vote and then either rolls all of them back and aborts the record, or
stages and commits the record and tells all of them. Every call on the shared
record and every call to a participant is a step of its own; between two steps
other nodes may push the record or finalise it.

A call that fails or runs into its timeout may have been lost, may have been
received, or may be received later: its message stays in flight.
-/

namespace AionDb.TwoPhase

open Std List Option

inductive PrepareVote where
  | yes (preparedTs : HlcTimestamp)
  | no (reason : String)

inductive CommitOutcome where
  | committed (commitTs : HlcTimestamp)
  | aborted (reason : String)

inductive Message where
  | commit (commitTs : HlcTimestamp)
  | rollback
deriving DecidableEq

structure CoordinatorConfig where
  txnId : DistributedTxnId
  commitRetries : Nat := 8
  expirationUs : Nat := 5000000

/-- Where `execute` is: named by what it does next. -/
inductive Phase where
  | idle
  | declaringSpans (participants : List Nat)
  | resolving (participants : List Nat)
  /-- The participants still to be asked, and the answers so far. -/
  | preparing (asking : List Nat) (participants : List Nat) (votes : ExtTreeMap Nat PrepareVote)
      (errors : List String)
  /-- The participants still to be told, and the failed attempts at the first one. -/
  | rollingBack (telling : List Nat) (attempt : Nat) (reason : String)
  | staging (participants : List Nat)
  | staged (participants : List Nat)
  | committing (telling : List Nat) (attempt : Nat) (commitTs : HlcTimestamp)
  | forgetting (outcome : CommitOutcome)
  | done (result : DbResult CommitOutcome)

def Phase.RollingBack : Phase → Bool
  | .rollingBack .. => true
  | _ => false

inductive RecoveryDecision where
  | commit (commitTs : HlcTimestamp)
  | abort

/-- What other nodes, and the heartbeat of the coordinator, do to the record. -/
inductive RecordCall where
  | heartbeat (now : HlcTimestamp)
  | push (pusherPriority : Nat) (now : HlcTimestamp)
  | finalise (decision : RecoveryDecision)

/-- The record after a transition, which leaves it alone when it is refused. -/
def afterTransition (r : DistributedTxnRecord) :
    Except TxnTransitionError DistributedTxnRecord → DistributedTxnRecord
  | .ok r' => r'
  | .error _ => r

def RecordCall.apply (cfg : CoordinatorConfig) (r : DistributedTxnRecord) :
    RecordCall → DistributedTxnRecord
  | .heartbeat now => r.heartbeat now
  | .push pusherPriority now => r.push cfg.expirationUs pusherPriority now
  | .finalise (.commit commitTs) => afterTransition r (r.commit commitTs)
  | .finalise .abort => afterTransition r r.abort

structure TwoPhaseSystem where
  record : Option DistributedTxnRecord := none
  phase : Phase := .idle
  received : List (Nat × Message) := []
  inFlight : List (Nat × Message) := []
  /-- What the record was when it was forgotten. -/
  forgotten : Option DistributedTxnRecord := none

inductive TwoPhaseAction where
  | execute (priority : Nat) (participants : List Nat) (now : HlcTimestamp)
  | declareWriteSpans
  /-- The participants the address book knows. -/
  | resolve (known : List Nat)
  /-- The answer of the next participant; `none` is a timeout. -/
  | vote (answer : Option (Except String PrepareVote))
  | decide
  /-- A call to the next participant, answered with success or not. -/
  | tell (acknowledged : Bool)
  | abort
  | stage
  | commit (now : HlcTimestamp)
  | finishCommit
  | forget
  /-- A message of a call that was given up arrives. -/
  | deliver (i : Nat)
  | call (c : RecordCall)

def tally (pid : Nat) (answer : Option (Except String PrepareVote))
    (votes : ExtTreeMap Nat PrepareVote) (errors : List String) :
    ExtTreeMap Nat PrepareVote × List String :=
  match answer with
  | none => (votes.insert pid (.no s!"prepare timeout on participant {pid}"), errors)
  | some (.ok vote) => (votes.insert pid vote, errors)
  | some (.error err) => (votes, errors ++ [s!"participant {pid}: {err}"])

/-- `abort_reason`. The source takes any participant that voted no. -/
def abortReason (votes : ExtTreeMap Nat PrepareVote) (errors : List String) : Option String :=
  if errors ≠ [] then some ("; ".intercalate errors)
  else votes.toList.findSome? fun (pid, vote) =>
    match vote with
    | .no reason => some s!"participant {pid} voted no: {reason}"
    | .yes _ => none

namespace TwoPhaseSystem

variable (cfg : CoordinatorConfig)

def fail (s : TwoPhaseSystem) (e : DbError) : TwoPhaseSystem := { s with phase := .done (.error e) }

def transition (s : TwoPhaseSystem)
    (f : DistributedTxnRecord → Except TxnTransitionError DistributedTxnRecord) (next : Phase) :
    TwoPhaseSystem :=
  match s.record with
  | none => s.fail TxnTransitionError.unknown.intoDbError
  | some r =>
    match f r with
    | .ok r' => { s with record := some r', phase := next }
    | .error e => s.fail e.intoDbError

/-- A message that is acknowledged has been received; another one is in flight. -/
def send (s : TwoPhaseSystem) (acknowledged : Bool) (m : Nat × Message) (next : Phase) :
    TwoPhaseSystem :=
  if acknowledged then { s with received := s.received ++ [m], phase := next }
  else { s with inFlight := s.inFlight ++ [m], phase := next }

def step (s : TwoPhaseSystem) (a : TwoPhaseAction) : Option TwoPhaseSystem :=
  match a, s.phase with
  | .execute priority participants now, .idle =>
    if participants = [] then some (s.fail (.internalMsg "2PC requires at least one participant"))
    else if s.record.isSome then
      some (s.fail (.internalMsg s!"transaction {cfg.txnId.text} already registered"))
    else some { s with
      record := some { id := cfg.txnId, lastHeartbeat := now, priority }
      phase := .declaringSpans participants }
  | .declareWriteSpans, .declaringSpans participants =>
    some (s.transition (fun r =>
      if r.status.isFinal then .error (.invalidTransition r.status r.status) else .ok r)
      (.resolving participants))
  | .resolve known, .resolving participants =>
    match participants.find? (· ∉ known) with
    | some p => some (s.fail (.internalMsg s!"unknown participant ParticipantId({p})"))
    | none => some { s with phase := .preparing participants participants ∅ [] }
  | .vote answer, .preparing (pid :: asking) participants votes errors =>
    let tallied := tally pid answer votes errors
    some { s with phase := .preparing asking participants tallied.1 tallied.2 }
  | .decide, .preparing [] participants votes errors =>
    match abortReason votes errors with
    | some reason => some { s with phase := .rollingBack participants 0 reason }
    | none => some { s with phase := .staging participants }
  | .tell acknowledged, .rollingBack (pid :: telling) attempt reason =>
    -- After the last retry the coordinator gives up on the participant.
    some (s.send acknowledged (pid, .rollback)
      (if acknowledged ∨ cfg.commitRetries ≤ attempt then .rollingBack telling 0 reason
      else .rollingBack (pid :: telling) (attempt + 1) reason))
  | .abort, .rollingBack [] _ reason =>
    -- The result of `registry.abort` is ignored.
    some { s with
      record := s.record.map fun r => afterTransition r r.abort
      phase := .forgetting (.aborted reason) }
  | .stage, .staging participants =>
    some (s.transition DistributedTxnRecord.stage (.staged participants))
  | .commit now, .staged participants =>
    some (s.transition (·.commit now) (.committing participants 0 now))
  | .tell acknowledged, .committing (pid :: telling) attempt commitTs =>
    some (s.send acknowledged (pid, .commit commitTs)
      (if acknowledged then .committing telling 0 commitTs
      else if cfg.commitRetries ≤ attempt then
        .done (.error (.internalMsg s!"participant {pid} failed commit after {attempt} retries"))
      else .committing (pid :: telling) (attempt + 1) commitTs))
  | .finishCommit, .committing [] _ commitTs =>
    some { s with phase := .forgetting (.committed commitTs) }
  | .forget, .forgetting outcome =>
    -- A record that is not final is kept, and the error ignored.
    match s.record with
    | some r =>
      if r.status.isFinal then
        some { s with record := none, forgotten := some r, phase := .done (.ok outcome) }
      else some { s with phase := .done (.ok outcome) }
    | none => some { s with phase := .done (.ok outcome) }
  | .deliver i, _ => s.inFlight[i]?.map fun m =>
    { s with received := s.received ++ [m], inFlight := s.inFlight.eraseIdx i }
  | .call c, _ => some { s with record := s.record.map fun r => c.apply cfg r }
  | _, _ => none

def last (s : TwoPhaseSystem) : Option DistributedTxnRecord := s.record.or s.forgotten

/-- The record is not committed when the coordinator decides to roll back, and is not
committed by others while it does. -/
def Unopposed (s : TwoPhaseSystem) (a : TwoPhaseAction) : Prop :=
  match a, s.phase with
  | .decide, .preparing [] _ votes errors =>
    (abortReason votes errors).isSome → ∀ r ∈ s.record, r.status ≠ .committed
  | .call (.finalise (.commit _)), .rollingBack .. => ∀ r ∈ s.record, r.status.isFinal
  | _, _ => True

instance (s : TwoPhaseSystem) (a : TwoPhaseAction) : Decidable (s.Unopposed a) := by
  unfold Unopposed; split <;> infer_instance

end TwoPhaseSystem

/-! ## Final records -/

variable {cfg : CoordinatorConfig} {r : DistributedTxnRecord}

theorem afterTransition_commit_of_isFinal (h : r.status.isFinal) (ts : HlcTimestamp) :
    afterTransition r (r.commit ts) = r := by
  unfold DistributedTxnRecord.commit
  split
  · simp_all [DistributedTxnStatus.isFinal]
  · simp_all [DistributedTxnStatus.isFinal]
  · split <;> rfl
  · rfl

theorem afterTransition_abort_of_isFinal (h : r.status.isFinal) :
    afterTransition r r.abort = r := by
  unfold DistributedTxnRecord.abort
  split <;> simp_all [DistributedTxnStatus.isFinal, afterTransition]

theorem RecordCall.apply_of_isFinal (h : r.status.isFinal) (c : RecordCall) :
    c.apply cfg r = r := by
  cases c with
  | heartbeat now => simp [RecordCall.apply, DistributedTxnRecord.heartbeat, h]
  | push pusherPriority now => simp [RecordCall.apply, DistributedTxnRecord.push, h]
  | finalise decision =>
    cases decision with
    | commit ts => exact afterTransition_commit_of_isFinal h ts
    | abort => exact afterTransition_abort_of_isFinal h

theorem status_afterTransition_abort (h : r.status ≠ .committed) :
    (afterTransition r r.abort).status = .aborted := by
  unfold DistributedTxnRecord.abort
  split <;> simp_all [afterTransition]

theorem RecordCall.status_apply_ne_committed (h : r.status ≠ .committed) (c : RecordCall)
    (hc : ∀ ts, c = .finalise (.commit ts) → r.status.isFinal) :
    (c.apply cfg r).status ≠ .committed := by
  cases c with
  | heartbeat now =>
    simp only [RecordCall.apply, DistributedTxnRecord.heartbeat]
    split <;> exact h
  | push pusherPriority now =>
    simp only [RecordCall.apply, DistributedTxnRecord.push]
    split
    · exact h
    · split
      · exact nofun
      · exact h
  | finalise decision =>
    cases decision with
    | commit ts => rwa [RecordCall.apply_of_isFinal (hc ts rfl)]
    | abort => simp [RecordCall.apply, status_afterTransition_abort h]

namespace TwoPhaseSystem

variable {s s' : TwoPhaseSystem} {a : TwoPhaseAction}

def CommittedAt (s : TwoPhaseSystem) (ts : HlcTimestamp) : Prop :=
  ∃ r, s.last = some r ∧ r.status = .committed ∧ r.commitTs = ts

def Aborted (s : TwoPhaseSystem) : Prop := ∃ r, s.last = some r ∧ r.status = .aborted

section

variable (f : DistributedTxnRecord → DistributedTxnRecord) (hf : ∀ r, r.status.isFinal → f r = r)
include f hf

theorem last_map {r : DistributedTxnRecord} (hlast : s.last = some r) (hfinal : r.status.isFinal)
    {phase : Phase} :
    last { s with record := s.record.map f, phase } = some r := by
  unfold last at hlast ⊢
  cases hrec : s.record with
  | none => simpa [hrec] using hlast
  | some r' =>
    rw [hrec, some_or, Option.some.injEq] at hlast
    subst hlast
    simp [hf r' hfinal]

theorem CommittedAt.map {ts : HlcTimestamp} (h : s.CommittedAt ts) {phase : Phase} :
    CommittedAt { s with record := s.record.map f, phase } ts := by
  obtain ⟨r, hlast, hstatus, hts⟩ := h
  exact ⟨r, last_map f hf hlast (by rw [hstatus]; rfl), hstatus, hts⟩

theorem Aborted.map (h : s.Aborted) {phase : Phase} :
    Aborted { s with record := s.record.map f, phase } := by
  obtain ⟨r, hlast, hstatus⟩ := h
  exact ⟨r, last_map f hf hlast (by rw [hstatus]; rfl), hstatus⟩

end

/-! ## What holds in every run -/

end TwoPhaseSystem

def Phase.Undecided : Phase → Bool
  | .rollingBack .. | .committing .. | .forgetting _ | .done _ => false
  | _ => true

/-- The record is there, as its own coordinator forgets it last. -/
def Phase.Live : Phase → Bool
  | .idle | .forgetting _ | .done _ => false
  | _ => true

namespace TwoPhaseSystem

variable {s s' : TwoPhaseSystem} {a : TwoPhaseAction}

def messages (s : TwoPhaseSystem) : List (Nat × Message) := s.received ++ s.inFlight

structure Inv (s : TwoPhaseSystem) : Prop where
  quiet : s.phase.Undecided → s.messages = []
  live : s.phase.Live → s.record.isSome
  rolling : s.phase.RollingBack → ∀ r ∈ s.record, r.status ≠ .committed
  committing : ∀ telling attempt ts, s.phase = .committing telling attempt ts → s.CommittedAt ts
  rollback : ∀ p, (p, .rollback) ∈ s.messages → s.phase.RollingBack ∨ s.Aborted
  commit : ∀ p ts, (p, .commit ts) ∈ s.messages → s.CommittedAt ts

theorem Inv.of_silent (hsilent : s.messages = []) (hlive : s.phase.Live → s.record.isSome)
    (hrolling : s.phase.RollingBack → ∀ r ∈ s.record, r.status ≠ .committed)
    (hcommitting : ∀ telling attempt ts, s.phase = .committing telling attempt ts →
      s.CommittedAt ts) : s.Inv :=
  ⟨fun _ => hsilent, hlive, hrolling, hcommitting, fun p h => by simp [hsilent] at h,
    fun p ts h => by simp [hsilent] at h⟩

variable {attempt pid : Nat} {m : Nat × Message} {telling : List Nat} {next phase : Phase}
  {acknowledged : Bool}

section

variable (hinv : s.Inv) (hund : s.phase.Undecided)
include hinv hund

theorem Inv.undecided {record : Option DistributedTxnRecord} (hlive : phase.Live → record.isSome)
    (hphase : phase.Undecided ∨ ∃ result, phase = .done result) :
    Inv { s with record, phase } := by
  refine Inv.of_silent (hinv.quiet hund) hlive ?_ ?_
  · intro hroll
    rcases hphase with h | ⟨result, rfl⟩
    · cases phase <;> simp_all [Phase.Undecided, Phase.RollingBack]
    · cases hroll
  · rintro telling attempt ts (rfl : phase = _)
    rcases hphase with h | ⟨result, h⟩
    · cases h
    · cases h

theorem Inv.fail (e : DbError) : (s.fail e).Inv :=
  hinv.undecided hund nofun (.inr ⟨_, rfl⟩)

theorem Inv.transition (f : DistributedTxnRecord → Except TxnTransitionError DistributedTxnRecord)
    (hnext : next.Undecided) : (s.transition f next).Inv := by
  unfold TwoPhaseSystem.transition
  split
  · exact hinv.fail hund _
  · split
    · exact hinv.undecided hund (fun _ => rfl) (.inl hnext)
    · exact hinv.fail hund _

end

theorem mem_messages_send {x : Nat × Message} :
    x ∈ (s.send acknowledged m next).messages ↔ x ∈ s.messages ∨ x = m := by
  cases acknowledged <;> simp [send, messages, or_comm, or_left_comm]

theorem record_send (s : TwoPhaseSystem) (acknowledged : Bool) (m : Nat × Message) (next : Phase) :
    (s.send acknowledged m next).record = s.record ∧
      (s.send acknowledged m next).phase = next ∧
      (s.send acknowledged m next).last = s.last := by
  cases acknowledged <;> exact ⟨rfl, rfl, rfl⟩

section

variable (hinv : s.Inv)
include hinv

theorem Inv.sendRollback (hroll : s.phase.RollingBack) (hnext : next.RollingBack) :
    (s.send acknowledged (pid, .rollback) next).Inv := by
  obtain ⟨hrec, hphase, hlast⟩ :=
    record_send s acknowledged (pid, .rollback) next
  have hlive : s.phase.Live := by
    cases h : s.phase <;> simp_all [Phase.RollingBack, Phase.Live]
  refine ⟨fun h => ?_, fun _ => hrec ▸ hinv.live hlive, fun _ => hrec ▸ hinv.rolling hroll,
    fun telling attempt ts h => ?_, fun p _ => .inl ((congrArg _ hphase).trans hnext), fun p ts hmem => ?_⟩
  · rw [hphase] at h
    cases next <;> simp_all [Phase.RollingBack, Phase.Undecided]
  · rw [hphase] at h
    cases h
    cases hnext
  · rcases mem_messages_send.mp hmem with hmem | hmem
    · obtain ⟨r, hr, hr'⟩ := hinv.commit p ts hmem
      exact ⟨r, hlast ▸ hr, hr'⟩
    · cases hmem

theorem Inv.sendCommit {ts : HlcTimestamp} (hphase : s.phase = .committing telling attempt ts)
    (hnext : (∃ telling attempt, next = .committing telling attempt ts) ∨
      ∃ result, next = .done result) :
    (s.send acknowledged (pid, .commit ts) next).Inv := by
  obtain ⟨hrec, hphase', hlast⟩ :=
    record_send s acknowledged (pid, .commit ts) next
  have hsome : s.record.isSome := hinv.live (by rw [hphase]; rfl)
  have hcommitted : CommittedAt (s.send acknowledged (pid, .commit ts) next) ts := by
    obtain ⟨r, hr, hr'⟩ := hinv.committing _ _ _ hphase
    exact ⟨r, hlast ▸ hr, hr'⟩
  refine ⟨fun h => ?_, fun _ => hrec ▸ hsome, fun h => ?_, fun t n ts' h => ?_,
    fun p hmem => ?_, fun p ts' hmem => ?_⟩
  · rw [hphase'] at h
    rcases hnext with ⟨_, _, rfl⟩ | ⟨_, rfl⟩ <;> cases h
  · rw [hphase'] at h
    rcases hnext with ⟨_, _, rfl⟩ | ⟨_, rfl⟩ <;> cases h
  · rw [hphase'] at h
    rcases hnext with ⟨_, _, rfl⟩ | ⟨_, rfl⟩
    · cases h
      exact hcommitted
    · cases h
  · rcases mem_messages_send.mp hmem with hmem | hmem
    · rcases hinv.rollback p hmem with h | ⟨r, hr, hr'⟩
      · rw [hphase] at h
        cases h
      · exact .inr ⟨r, hlast ▸ hr, hr'⟩
    · cases hmem
  · rcases mem_messages_send.mp hmem with hmem | hmem
    · obtain ⟨r, hr, hr'⟩ := hinv.commit p ts' hmem
      exact ⟨r, hlast ▸ hr, hr'⟩
    · cases hmem
      exact hcommitted

theorem Inv.abort {reason : String} (hphase : s.phase = .rollingBack telling attempt reason)
    (outcome : CommitOutcome) :
    Inv { s with
      record := s.record.map fun r => afterTransition r r.abort
      phase := .forgetting outcome } := by
  obtain ⟨r, hr⟩ := isSome_iff_exists.mp (hinv.live (by rw [hphase]; rfl))
  have hne := hinv.rolling (by rw [hphase]; rfl) r hr
  refine ⟨nofun, nofun, nofun, nofun, fun p _ => .inr ⟨afterTransition r r.abort, ?_, ?_⟩,
    fun p ts hmem => ?_⟩
  · simp [last, hr]
  · exact status_afterTransition_abort hne
  · exact (hinv.commit p ts hmem).map _ fun r h => afterTransition_abort_of_isFinal h

theorem Inv.finish (hroll : ¬s.phase.RollingBack)
    (hphase : (∃ outcome, phase = .forgetting outcome) ∨ ∃ result, phase = .done result) :
    Inv { s with phase } := by
  refine ⟨fun h => ?_, fun h => ?_, fun h => ?_, fun t n ts h => ?_, fun p hmem => ?_, hinv.commit⟩
  · rcases hphase with ⟨_, rfl⟩ | ⟨_, rfl⟩ <;> cases h
  · rcases hphase with ⟨_, rfl⟩ | ⟨_, rfl⟩ <;> cases h
  · rcases hphase with ⟨_, rfl⟩ | ⟨_, rfl⟩ <;> cases h
  · rcases hphase with ⟨_, rfl⟩ | ⟨_, rfl⟩ <;> cases h
  · exact .inr ((hinv.rollback p hmem).resolve_left hroll)

theorem Inv.forget {outcome : CommitOutcome} (hphase : s.phase = .forgetting outcome)
    {r : DistributedTxnRecord} (hr : s.record = some r) (result : DbResult CommitOutcome) :
    Inv { s with record := none, forgotten := some r, phase := .done result } := by
  have hlast : last { s with record := none, forgotten := some r, phase := .done result } =
      s.last := by simp [last, hr]
  refine ⟨nofun, nofun, nofun, nofun, fun p hmem => ?_, fun p ts hmem => ?_⟩
  · obtain h | ⟨r', h⟩ := hinv.rollback p hmem
    · rw [hphase] at h
      cases h
    · exact .inr ⟨r', hlast ▸ h⟩
  · obtain ⟨r', h⟩ := hinv.commit p ts hmem
    exact ⟨r', hlast ▸ h⟩

theorem Inv.deliver {i : Nat} (hm : s.inFlight[i]? = some m) :
    Inv { s with received := s.received ++ [m], inFlight := s.inFlight.eraseIdx i } := by
  have hsub : ∀ x ∈ messages { s with
      received := s.received ++ [m], inFlight := s.inFlight.eraseIdx i }, x ∈ s.messages := by
    intro x hx
    simp only [messages, append_assoc, mem_append, mem_singleton] at hx ⊢
    rcases hx with hx | rfl | hx
    · exact .inl hx
    · exact .inr (mem_of_getElem? hm)
    · exact .inr (mem_of_mem_eraseIdx hx)
  refine ⟨fun h => ?_, hinv.live, hinv.rolling, hinv.committing,
    fun p hmem => hinv.rollback p (hsub _ hmem), fun p ts hmem => hinv.commit p ts (hsub _ hmem)⟩
  have hmem : m ∈ s.messages := mem_append_right _ (mem_of_getElem? hm)
  rw [hinv.quiet h] at hmem
  cases hmem

theorem Inv.call {c : RecordCall} (hun : s.Unopposed (.call c)) :
    Inv { s with record := s.record.map fun r => c.apply cfg r } := by
  have hfinal : ∀ r : DistributedTxnRecord, r.status.isFinal → c.apply cfg r = r :=
    fun r h => RecordCall.apply_of_isFinal h c
  refine ⟨hinv.quiet, fun h => by simpa using hinv.live h, fun hroll r hr => ?_,
    fun t n ts h => (hinv.committing t n ts h).map _ hfinal,
    fun p hmem => (hinv.rollback p hmem).imp id (·.map _ hfinal),
    fun p ts hmem => (hinv.commit p ts hmem).map _ hfinal⟩
  obtain ⟨r0, hr0, rfl⟩ := map_eq_some_iff.mp hr
  refine RecordCall.status_apply_ne_committed (hinv.rolling hroll r0 hr0) c ?_
  rintro ts rfl
  cases hphase : s.phase <;> simp_all [Unopposed, Phase.RollingBack]

theorem step_inv (hun : s.Unopposed a) (hstep : s.step cfg a = some s') : s'.Inv := by
  unfold step at hstep
  split at hstep
  · -- execute
    rename_i hphase
    have hund : s.phase.Undecided := by rw [hphase]; rfl
    split at hstep
    · cases hstep; exact hinv.fail hund _
    · split at hstep
      · cases hstep; exact hinv.fail hund _
      · cases hstep; exact hinv.undecided hund (fun _ => rfl) (.inl rfl)
  · rename_i hphase
    cases hstep
    exact hinv.transition (by rw [hphase]; rfl) _ rfl
  · -- resolve
    rename_i hphase
    have hund : s.phase.Undecided := by rw [hphase]; rfl
    split at hstep
    · cases hstep; exact hinv.fail hund _
    · cases hstep
      exact hinv.undecided hund (fun _ => hinv.live (by rw [hphase]; rfl)) (.inl rfl)
  · rename_i hphase
    cases hstep
    exact hinv.undecided (by rw [hphase]; rfl) (fun _ => hinv.live (by rw [hphase]; rfl)) (.inl rfl)
  · -- decide
    rename_i hphase
    have hund : s.phase.Undecided := by rw [hphase]; rfl
    have hlive := hinv.live (by rw [hphase]; rfl)
    split at hstep
    · rename_i hreason
      cases hstep
      refine Inv.of_silent (hinv.quiet hund) (fun _ => hlive) (fun _ => ?_) nofun
      simp only [Unopposed, hphase, hreason, isSome_some, forall_const] at hun
      exact hun
    · cases hstep
      exact hinv.undecided hund (fun _ => hlive) (.inl rfl)
  · rename_i hphase
    cases hstep
    exact hinv.sendRollback (by rw [hphase]; rfl) (by split <;> rfl)
  · rename_i hphase
    cases hstep
    exact hinv.abort hphase _
  · rename_i hphase
    cases hstep
    exact hinv.transition (by rw [hphase]; rfl) _ rfl
  · -- commit
    rename_i now participants hphase
    have hund : s.phase.Undecided := by rw [hphase]; rfl
    cases hstep
    unfold TwoPhaseSystem.transition
    split
    · exact hinv.fail hund _
    split
    · rename_i r hrec r' hcommit
      refine Inv.of_silent (hinv.quiet hund) (fun _ => rfl) nofun fun t n ts h => ?_
      cases h
      refine ⟨r', rfl, ?_⟩
      simp only [DistributedTxnRecord.commit] at hcommit
      split at hcommit
      · cases hcommit; exact ⟨rfl, rfl⟩
      · cases hcommit; exact ⟨rfl, rfl⟩
      · split at hcommit
        · cases hcommit
        · cases hcommit
          exact ⟨‹_›, not_not.mp ‹_›⟩
      · cases hcommit
    · exact hinv.fail hund _
  · rename_i hphase
    cases hstep
    refine hinv.sendCommit hphase ?_
    split
    · exact .inl ⟨_, _, rfl⟩
    · split
      · exact .inr ⟨_, rfl⟩
      · exact .inl ⟨_, _, rfl⟩
  · rename_i hphase
    cases hstep
    exact hinv.finish (by rw [hphase]; nofun) (.inl ⟨_, rfl⟩)
  · -- forget
    rename_i hphase
    have hroll : ¬s.phase.RollingBack := by rw [hphase]; nofun
    split at hstep
    · rename_i r hr
      split at hstep
      · cases hstep; exact hinv.forget hphase hr _
      · cases hstep; exact hinv.finish hroll (.inr ⟨_, rfl⟩)
    · cases hstep; exact hinv.finish hroll (.inr ⟨_, rfl⟩)
  · obtain ⟨m, hm, rfl⟩ := map_eq_some_iff.mp hstep
    exact hinv.deliver hm
  · cases hstep
    exact hinv.call hun
  · cases hstep

end

theorem inv_init (record : Option DistributedTxnRecord) : Inv { record } :=
  Inv.of_silent rfl nofun nofun nofun

/-- As long as the record is not committed by others while the coordinator rolls back,
nobody is told to commit when somebody is told to roll back, every commit carries the
timestamp of the record, and after a rollback the record is never committed. -/
theorem participants_agree {record : Option DistributedTxnRecord} {as : List TwoPhaseAction}
    (hrun : Run.run (step cfg) { record } as = some s)
    (hun : Run.Along (step cfg) Unopposed { record } as) :
    (∀ p q ts, (p, .commit ts) ∈ s.received → (q, .rollback) ∉ s.received) ∧
    (∀ p ts, (p, .commit ts) ∈ s.received →
      ∃ r, s.last = some r ∧ r.status = .committed ∧ r.commitTs = ts) ∧
    (∀ p, (p, .rollback) ∈ s.received → ∀ r, s.last = some r → r.status ≠ .committed) := by
  have hinv : s.Inv := Run.run_preserves_along step_inv (inv_init record) hun hrun
  have hsent : ∀ m ∈ s.received, m ∈ s.messages := fun m h => mem_append_left _ h
  have hnever : ∀ p, (p, .rollback) ∈ s.received → ∀ r, s.last = some r →
      r.status ≠ .committed := by
    intro p hmem r hr hstatus
    rcases hinv.rollback p (hsent _ hmem) with hroll | ⟨r', hr', hstatus'⟩
    · obtain ⟨r', hr'⟩ := isSome_iff_exists.mp
        (hinv.live (by cases h : s.phase <;> simp_all [Phase.RollingBack, Phase.Live]))
      rw [last, hr', some_or, Option.some.injEq] at hr
      exact hinv.rolling hroll r' hr' (hr ▸ hstatus)
    · cases hr.symm.trans hr'
      cases hstatus.symm.trans hstatus'
  refine ⟨fun p q ts hcommit hrollback => ?_, fun p ts h => hinv.commit p ts (hsent _ h), hnever⟩
  obtain ⟨r, hr, hstatus, -⟩ := hinv.commit p ts (hsent _ hcommit)
  exact hnever q hrollback r hr hstatus

def testConfig : CoordinatorConfig := { txnId := ⟨1, ⟨100, 0⟩, 1⟩ }

/-- Two participants vote yes; the first call to the second one is lost, and the record
is pushed after it has been committed. -/
def bothYes : List TwoPhaseAction :=
  [.execute 1 [1, 2] ⟨100, 0⟩, .declareWriteSpans, .resolve [1, 2],
    .vote (some (.ok (.yes ⟨101, 0⟩))), .vote (some (.ok (.yes ⟨102, 0⟩))), .decide, .stage,
    .commit ⟨103, 0⟩, .tell true, .call (.push 9 ⟨104, 0⟩), .tell false, .tell true,
    .finishCommit, .forget, .deliver 0]

theorem participants_agree_bothYes :
    (Run.after (step testConfig) {} bothYes).received =
      [(1, .commit ⟨103, 0⟩), (2, .commit ⟨103, 0⟩), (2, .commit ⟨103, 0⟩)] ∧
    ∃ r, (Run.after (step testConfig) {} bothYes).last = some r ∧ r.status = .committed ∧
      r.commitTs = ⟨103, 0⟩ := by
  have hreceived : (Run.after (step testConfig) {} bothYes).received =
      [(1, .commit ⟨103, 0⟩), (2, .commit ⟨103, 0⟩), (2, .commit ⟨103, 0⟩)] := by decide +kernel
  refine ⟨hreceived, (participants_agree (Run.run_eq_some_after (by decide +kernel))
    (by decide +kernel)).2.1 1 ⟨103, 0⟩ ?_⟩
  rw [hreceived]
  decide

/-- One participant votes no. The record is finalised as committed before the rollback is
sent; `registry.abort` then fails, which is ignored, and the committed record is forgotten. -/
theorem rollback_of_committed :
    ((Run.after (step testConfig) {}
      [.execute 1 [1] ⟨100, 0⟩, .declareWriteSpans, .resolve [1], .vote (some (.ok (.no "conflict"))),
        .decide, .call (.finalise (.commit ⟨200, 0⟩)), .tell true, .abort, .forget]).received =
          [(1, .rollback)]) ∧
    ((Run.after (step testConfig) {}
      [.execute 1 [1] ⟨100, 0⟩, .declareWriteSpans, .resolve [1], .vote (some (.ok (.no "conflict"))),
        .decide, .call (.finalise (.commit ⟨200, 0⟩)), .tell true, .abort, .forget]).last.map
          fun r => (r.status, r.commitTs)) = some (.committed, ⟨200, 0⟩) := by
  decide +kernel

end TwoPhaseSystem

end AionDb.TwoPhase
