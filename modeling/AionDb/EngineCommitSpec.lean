import AionDb.EngineCommit

/-!
# When the two logs commit together

The call ends with both commit records durable or with neither, when the
storage's commit record is followed by the catalog's: no write between the two
fails for good or is the last one. From the logs the restarted state is read
off.
-/

namespace AionDb

open Effect TxnLog List

/-- The writes of one attempt to commit the catalog, `changes` records and the commit record: all
succeed, or the process ends with the commit record durable. -/
def cleanWrites : Nat → List LogOutcome → Bool
  | 0, outcomes =>
    match nextOutcome outcomes with
    | .done => true
    | .crashed durable => 0 < durable
    | .failed _ => false
  | changes + 1, outcomes =>
    match nextOutcome outcomes with
    | .done => cleanWrites changes outcomes.tail
    | _ => false

/-- Some attempt to commit the catalog is clean, and those before it wrote nothing. -/
def cleanAttempts (stage : Nat → DbResult Unit) (changes : Nat) : List Nat → List LogOutcome → Bool
  | [], _ => false
  | attemptNo :: rest, outcomes =>
    match stage attemptNo with
    | .error _ => cleanAttempts stage changes rest outcomes
    | .ok () =>
      cleanWrites changes outcomes ||
        match nextOutcome outcomes with
        | .failed 0 => cleanAttempts stage changes rest outcomes.tail
        | _ => false

def CommitChecks.pass (checks : CommitChecks) : Bool :=
  [checks.commitLock, checks.validateSerializable, checks.validateCatalog, checks.validateStorage,
    checks.txManagerCommit, checks.storagePreflight].all (·.isOk)

def unbroken (checks : CommitChecks) (buffered changes : Nat) (outcomes : List LogOutcome) : Bool :=
  match nextOutcome outcomes with
  | .done =>
    checks.storageApply.isOk && cleanAttempts checks.catalogStage changes [0, 1, 2] outcomes.tail
  | .failed durable | .crashed durable => durable ≤ buffered

variable {ρ κ : Type} {s : CommitNode ρ κ} {checks : CommitChecks} {txn : TxnId}

/-! ## Rules -/

variable {m : CommitM ρ κ Unit} {s' : CommitNode ρ κ} {Q : Unit → CommitNode ρ κ → Prop}
  {E : CommitNode ρ κ → Prop} {record : Record κ} {changes : List κ}

theorem spec_attempt (h : Spec m s Q E) :
    Spec (attempt m) s
      (fun r s' => (r = .ok () ∧ Q () s') ∨ ∃ e, r = .error e ∧ E s' ∧ s'.crashed = false)
      (fun s' => E s' ∧ s'.crashed = true) := by
  unfold Spec attempt at *
  match hm : m s with
  | (.ok (), s') =>
    rw [hm] at h
    exact .inl ⟨rfl, h⟩
  | (.error e, s') =>
    rw [hm] at h
    by_cases hc : s'.crashed = true
    · dsimp only
      rw [if_pos hc]
      exact ⟨h, hc⟩
    · dsimp only
      rw [if_neg hc]
      exact .inr ⟨e, rfl, h, by simpa using hc⟩

theorem spec_writeRecords {α : Type} (save : List α → CommitNode ρ κ → CommitNode ρ κ)
    (records : List α) (s : CommitNode ρ κ) :
    Spec (writeRecords save records) s
      (fun _ s' => nextOutcome s.outcomes = .done ∧
        s' = save records { s with outcomes := s.outcomes.tail })
      (fun s' => ∃ durable,
        (nextOutcome s.outcomes = .failed durable ∧
          s' = save (records.take durable) { s with outcomes := s.outcomes.tail }) ∨
        (nextOutcome s.outcomes = .crashed durable ∧
          s' = { save (records.take durable) { s with outcomes := s.outcomes.tail } with
            crashed := true })) := by
  unfold writeRecords
  refine spec_get_bind (spec_modify_bind ?_)
  cases hout : nextOutcome s.outcomes with
  | done => exact spec_modify ⟨rfl, rfl⟩
  | failed durable => exact spec_modify_bind ⟨durable, .inl ⟨rfl, rfl⟩⟩
  | crashed durable => exact spec_modify_bind ⟨durable, .inr ⟨rfl, rfl⟩⟩

/-! ## Neither -/

/-- Nothing of the transaction takes effect: the logs have grown by records that apply nothing. -/
structure Neither (s₀ s : CommitNode ρ κ) : Prop where
  storage : ∃ more, s.storageLog = s₀.storageLog ++ more ∧ ∀ record ∈ more, record.Inert
  catalog : ∃ more, s.catalogLog = s₀.catalogLog ++ more ∧ ∀ record ∈ more, record.Inert
  buffer : ∀ record ∈ s.storageBuffer, record.Inert

variable {s₀ : CommitNode ρ κ}

theorem neither_refl (h : ∀ record ∈ s.storageBuffer, record.Inert) : Neither s s where
  storage := ⟨[], by simp, by simp⟩
  catalog := ⟨[], by simp, by simp⟩
  buffer := h

section

variable (h : Neither s₀ s)
include h

theorem Neither.saveCatalog {records : List (Record κ)} (hinert : ∀ record ∈ records, record.Inert)
    (hs : s'.storageLog = s.storageLog) (hb : s'.storageBuffer = s.storageBuffer)
    (hc : s'.catalogLog = s.catalogLog ++ records) :
    Neither s₀ s' where
  storage := hs ▸ h.storage
  catalog := by
    obtain ⟨more, heq, hmore⟩ := h.catalog
    exact ⟨more ++ records, by rw [hc, heq, append_assoc], forall_mem_append.mpr ⟨hmore, hinert⟩⟩
  buffer := hb ▸ h.buffer

theorem Neither.saveStorage {records : List (Record ρ)} (hinert : ∀ record ∈ records, record.Inert)
    (hs : s'.storageLog = s.storageLog ++ records) (hb : s'.storageBuffer = [])
    (hc : s'.catalogLog = s.catalogLog) :
    Neither s₀ s' where
  storage := by
    obtain ⟨more, heq, hmore⟩ := h.storage
    exact ⟨more ++ records, by rw [hs, heq, append_assoc], forall_mem_append.mpr ⟨hmore, hinert⟩⟩
  catalog := hc ▸ h.catalog
  buffer := by simp [hb]

theorem spec_logCatalog_inert (hrecord : record.Inert) :
    Spec (logCatalog record) s (fun _ => Neither s₀) (Neither s₀) := by
  have hone : ∀ n, ∀ r ∈ [record].take n, r.Inert := fun n r hr => by
    cases mem_singleton.mp (mem_of_mem_take hr)
    exact hrecord
  refine spec_mono (spec_writeRecords _ _ s) ?_ ?_
  · rintro - s' ⟨-, rfl⟩
    exact h.saveCatalog (hone 1) rfl rfl rfl
  · rintro s' ⟨n, ⟨-, rfl⟩ | ⟨-, rfl⟩⟩
    · exact h.saveCatalog (hone n) rfl rfl rfl
    · exact h.saveCatalog (hone n) rfl rfl rfl

theorem spec_logStorage_inert {record : Record ρ} (hrecord : record.Inert) :
    Spec (logStorage record) s (fun _ => Neither s₀) (Neither s₀) := by
  have hall : ∀ r ∈ s.storageBuffer ++ [record], r.Inert :=
    forall_mem_append.mpr ⟨h.buffer, by simpa using hrecord⟩
  have htake : ∀ n, ∀ r ∈ (s.storageBuffer ++ [record]).take n, r.Inert :=
    fun n r hr => hall r (mem_of_mem_take hr)
  refine spec_get_bind (spec_mono (spec_writeRecords _ _ s) ?_ ?_)
  · rintro - s' ⟨-, rfl⟩
    exact h.saveStorage hall rfl rfl rfl
  · rintro s' ⟨n, ⟨-, rfl⟩ | ⟨-, rfl⟩⟩
    · exact h.saveStorage (htake n) rfl rfl rfl
    · exact h.saveStorage (htake n) rfl rfl rfl

theorem spec_rollbackCatalogTxn :
    Spec (rollbackCatalogTxn txn) s (fun _ => Neither s₀) (Neither s₀) := by
  unfold rollbackCatalogTxn
  refine spec_get_bind ?_
  split
  · exact spec_pure h
  · refine spec_bind (spec_logCatalog_inert h trivial) fun _ s' (hs' : Neither s₀ s') => ?_
    exact spec_modify ⟨hs'.storage, hs'.catalog, hs'.buffer⟩

end

theorem spec_discard_attempt (h : Spec m s (fun _ => Neither s₀) (Neither s₀)) :
    Spec (discard (attempt m)) s (fun _ => Neither s₀) (Neither s₀) := by
  refine spec_bind (Q := fun _ => Neither s₀) ?_ fun _ s' hs' => spec_pure hs'
  refine spec_mono (spec_attempt h) ?_ fun s' hs' => hs'.1
  rintro r s' (⟨-, hs'⟩ | ⟨e, -, hs', -⟩)
  · exact hs'
  · exact hs'

theorem spec_cleanupCommit (h : Neither s₀ s)
    (hprogress : s.progress = .preTxManagerCommit ∨ s.progress = .txManagerCommitted) :
    Spec (cleanupCommit txn true true) s (fun _ => Neither s₀) (Neither s₀) := by
  unfold cleanupCommit
  refine spec_get_bind ?_
  rcases hprogress with hp | hp
  · rw [hp]
    refine spec_bind (spec_discard_attempt (spec_rollbackCatalogTxn h)) fun _ s' hs' => ?_
    exact spec_discard_attempt (spec_logStorage_inert hs' trivial)
  · rw [hp]
    exact spec_discard_attempt (spec_rollbackCatalogTxn h)

/-! ## Both -/

def catalogRecords (txn : TxnId) (changes : List κ) : List (Record κ) :=
  changes.map (Record.change txn) ++ [.commitTxn txn]

/-- The catalog log has the commit; nothing else that counts has changed. -/
structure CatalogDone (txn : TxnId) (changes : List κ) (s s' : CommitNode ρ κ) : Prop where
  storage : s'.storageLog = s.storageLog
  catalog : s'.catalogLog = s.catalogLog ++ catalogRecords txn changes

theorem spec_logCatalog_done (h : nextOutcome s.outcomes = .done) :
    Spec (logCatalog record) s
      (fun _ s' => s' = { s with
        catalogLog := s.catalogLog ++ [record], outcomes := s.outcomes.tail })
      (fun _ => False) := by
  refine spec_mono (spec_writeRecords _ _ s) ?_ ?_
  · rintro - s' ⟨-, rfl⟩
    rfl
  · rintro s' ⟨n, ⟨hout, -⟩ | ⟨hout, -⟩⟩
    · exact nomatch h.symm.trans hout
    · exact nomatch h.symm.trans hout

theorem spec_cleanWrites (changes : List κ) (hcrashed : s.crashed = false)
    (hclean : cleanWrites changes.length s.outcomes = true) :
    Spec (do changes.forM fun change => logCatalog (.change txn change)
             logCatalog (.commitTxn txn)) s
      (fun _ s' => CatalogDone txn changes s s' ∧ s'.crashed = false)
      (fun s' => CatalogDone txn changes s s' ∧ s'.crashed = true) := by
  induction changes generalizing s with
  | nil =>
    show Spec (logCatalog (.commitTxn txn)) s _ _
    refine spec_mono (spec_writeRecords _ _ s) ?_ ?_
    · rintro - s' ⟨-, rfl⟩
      exact ⟨⟨rfl, rfl⟩, hcrashed⟩
    rintro s' ⟨n, ⟨hout, rfl⟩ | ⟨hout, rfl⟩⟩
    · simp [cleanWrites, hout] at hclean
    · have hn : 0 < n := by simpa [cleanWrites, hout] using hclean
      have htake : [Record.commitTxn (α := κ) txn].take n = [.commitTxn txn] :=
        take_of_length_le hn
      exact ⟨⟨rfl, by simp [htake, catalogRecords]⟩, rfl⟩
  | cons change changes ih =>
    have hout : nextOutcome s.outcomes = .done := by
      cases h : nextOutcome s.outcomes <;> simp [cleanWrites, h] at hclean ⊢
    have hrest : cleanWrites changes.length s.outcomes.tail = true := by
      simpa [cleanWrites, hout] using hclean
    show Spec ((logCatalog (.change txn change) >>= fun _ => changes.forM _) >>= fun _ => _) s _ _
    rw [bind_assoc]
    refine spec_bind (spec_mono (spec_logCatalog_done hout) (fun _ _ h => h) fun _ h => h.elim)
      fun _ s' hs' => ?_
    subst hs'
    refine spec_mono (ih hcrashed hrest) ?_ ?_
    · rintro - s' ⟨hdone, hc⟩
      exact ⟨⟨hdone.storage, by simp [hdone.catalog, catalogRecords]⟩, hc⟩
    · rintro s' ⟨hdone, hc⟩
      exact ⟨⟨hdone.storage, by simp [hdone.catalog, catalogRecords]⟩, hc⟩

theorem spec_failed_zero (changes : List κ) (hout : nextOutcome s.outcomes = .failed 0) :
    Spec (do changes.forM fun change => logCatalog (.change txn change)
             logCatalog (.commitTxn txn)) s
      (fun _ _ => False)
      (fun s' => s' = { s with outcomes := s.outcomes.tail }) := by
  have hone : ∀ record : Record κ, Spec (logCatalog record) s (fun _ _ => False)
      (fun s' => s' = { s with outcomes := s.outcomes.tail }) := by
    intro record
    refine spec_mono (spec_writeRecords _ _ s) ?_ ?_
    · rintro - s' ⟨hdone, -⟩
      exact nomatch hout.symm.trans hdone
    · rintro s' ⟨n, ⟨hn, rfl⟩ | ⟨hn, -⟩⟩
      · cases hout.symm.trans hn
        simp
      · exact nomatch hout.symm.trans hn
  cases changes with
  | nil =>
    show Spec (logCatalog (.commitTxn txn)) s _ _
    exact hone _
  | cons change changes =>
    show Spec ((logCatalog (.change txn change) >>= fun _ => changes.forM _) >>= fun _ => _) s _ _
    rw [bind_assoc]
    exact spec_bind (hone _) fun _ _ h => h.elim

theorem spec_commitCatalogTxn (hpending : s.catalogPending = some changes) {attemptNo : Nat}
    (hstage : ∀ e, checks.catalogStage attemptNo = .error e → E s)
    (hwrites : checks.catalogStage attemptNo = .ok () →
      Spec (do changes.forM fun change => logCatalog (.change txn change)
               logCatalog (.commitTxn txn)) s
        (fun u s' => Q u { s' with catalogPending := none }) E) :
    Spec (commitCatalogTxn checks txn attemptNo) s Q E := by
  unfold commitCatalogTxn
  refine spec_get_bind ?_
  rw [hpending]
  refine spec_liftExcept_bind (fun _ hok => ?_) hstage
  simp only [← bind_assoc]
  exact spec_bind (hwrites hok) fun _ s' hs' => spec_modify hs'

theorem spec_retryCatalogCommit (s : CommitNode ρ κ) (hpending : s.catalogPending = some changes)
    (hcrashed : s.crashed = false) (attempts : List Nat)
    (hclean : cleanAttempts checks.catalogStage changes.length attempts s.outcomes = true)
    (lastErr : DbError) :
    Spec (retryCatalogCommit checks txn attempts lastErr) s
      (fun _ => CatalogDone txn changes s)
      (fun s' => CatalogDone txn changes s s' ∧ s'.crashed = true) := by
  induction attempts generalizing s lastErr with
  | nil => cases hclean
  | cons attemptNo rest ih =>
    -- what the attempt leaves, and the attempts after it
    have hattempt : Spec (commitCatalogTxn checks txn attemptNo) s
        (fun _ => CatalogDone txn changes s)
        (fun s' => (CatalogDone txn changes s s' ∧ s'.crashed = true) ∨
          ∃ outcomes, s' = { s with outcomes } ∧
            cleanAttempts checks.catalogStage changes.length rest outcomes = true) := by
      unfold cleanAttempts at hclean
      refine spec_commitCatalogTxn hpending (fun e hstage => ?_) fun hstage => ?_
      · rw [hstage] at hclean
        exact .inr ⟨s.outcomes, rfl, hclean⟩
      rw [hstage] at hclean
      rcases Bool.or_eq_true_iff.mp hclean with hclean | hclean
      · refine spec_mono (spec_cleanWrites changes hcrashed hclean) ?_ fun _ h => .inl h
        exact fun _ s' hs' => ⟨hs'.1.storage, hs'.1.catalog⟩
      have hout : nextOutcome s.outcomes = .failed 0 := by
        split at hclean
        · assumption
        · cases hclean
      rw [hout] at hclean
      exact spec_mono (spec_failed_zero changes hout) (fun _ _ h => h.elim)
        fun _ h => .inr ⟨_, h, hclean⟩
    unfold retryCatalogCommit
    refine spec_bind (spec_mono (spec_attempt hattempt) (fun _ _ h => h) ?_) ?_
    · rintro s' ⟨h | ⟨outcomes, rfl, -⟩, hc⟩
      · exact h
      · exact nomatch hcrashed.symm.trans hc
    · rintro r s' (⟨rfl, hdone⟩ | ⟨e, rfl, ⟨-, hc⟩ | ⟨outcomes, rfl, hrest⟩, hc'⟩)
      · exact spec_pure hdone
      · exact nomatch hc.symm.trans hc'
      · refine spec_mono (ih { s with outcomes } hpending hcrashed hrest e) ?_ ?_
        · exact fun _ s' hdone => ⟨hdone.storage, hdone.catalog⟩
        · exact fun s' hdone => ⟨⟨hdone.1.storage, hdone.1.catalog⟩, hdone.2⟩

/-- The changes of rows and of the catalog are committed, in both logs. -/
structure Both (txn : TxnId) (changes : List κ) (s₀ s : CommitNode ρ κ) : Prop where
  storage : s.storageLog = s₀.storageLog ++ (s₀.storageBuffer ++ [.commitTxn txn])
  catalog : s.catalogLog = s₀.catalogLog ++ catalogRecords txn changes

/-- How the commit can stop before its cleanup. -/
def Stopped (txn : TxnId) (changes : List κ) (s₀ s : CommitNode ρ κ) : Prop :=
  (Neither s₀ s ∧ (s.progress = .preTxManagerCommit ∨ s.progress = .txManagerCommitted)) ∨
    (Both txn changes s₀ s ∧ (s.crashed = true ∨ s.progress = .catalogCommitted))

theorem spec_commitStorageTxn (hbuffer : ∀ record ∈ s₀.storageBuffer, record.Inert)
    (hunbroken : checks.storagePreflight.isOk = true →
      unbroken checks s₀.storageBuffer.length changes.length s₀.outcomes = true) :
    Spec (commitStorageTxn checks txn) { s₀ with progress := .txManagerCommitted }
      (fun _ s => s = { s₀ with
          storageLog := s₀.storageLog ++ (s₀.storageBuffer ++ [.commitTxn txn])
          storageBuffer := []
          outcomes := s₀.outcomes.tail
          progress := .txManagerCommitted } ∧
        cleanAttempts checks.catalogStage changes.length [0, 1, 2] s₀.outcomes.tail = true)
      (Stopped txn changes s₀) := by
  have hneither : Neither s₀ { s₀ with progress := .txManagerCommitted } :=
    ⟨(neither_refl hbuffer).storage, (neither_refl hbuffer).catalog, hbuffer⟩
  unfold commitStorageTxn
  refine spec_liftExcept_bind (fun _ hpre => ?_) fun _ _ => .inl ⟨hneither, .inr rfl⟩
  have hclean := hunbroken (by rw [hpre]; rfl)
  -- a first part of the records, without the commit record
  have hpart : ∀ n ≤ s₀.storageBuffer.length,
      ∀ record ∈ (s₀.storageBuffer ++ [Record.commitTxn txn]).take n, record.Inert := by
    intro n hn record hr
    rw [take_append_of_le_length hn] at hr
    exact hbuffer record (mem_of_mem_take hr)
  refine spec_bind (Q := fun _ s => _ ∧ _) (spec_get_bind (spec_mono (spec_writeRecords _ _ _)
    (fun _ _ h => h) ?_)) ?_
  · rintro s ⟨n, ⟨hout, rfl⟩ | ⟨hout, rfl⟩⟩
    · have hn : n ≤ s₀.storageBuffer.length := by
        simpa [unbroken, show nextOutcome s₀.outcomes = .failed n from hout] using hclean
      exact .inl ⟨hneither.saveStorage (hpart n hn) rfl rfl rfl, .inr rfl⟩
    · have hn : n ≤ s₀.storageBuffer.length := by
        simpa [unbroken, show nextOutcome s₀.outcomes = .crashed n from hout] using hclean
      exact .inl ⟨hneither.saveStorage (hpart n hn) rfl rfl rfl, .inr rfl⟩
  · rintro - s ⟨hout, rfl⟩
    simp only [unbroken, show nextOutcome s₀.outcomes = .done from hout, Bool.and_eq_true] at hclean
    cases happly : checks.storageApply with
    | ok u => exact ⟨rfl, hclean.2⟩
    | error e =>
      rw [happly] at hclean
      cases hclean.1

section

variable (hbuffer : ∀ record ∈ s₀.storageBuffer, record.Inert)
  (hpending : s₀.catalogPending = some changes) (hcrashed : s₀.crashed = false)
  (hprogress : s₀.progress = .preTxManagerCommit)
  (hunbroken : checks.pass = true →
    unbroken checks s₀.storageBuffer.length changes.length s₀.outcomes = true)
include hbuffer hpending hcrashed hprogress hunbroken

theorem spec_commitParticipants :
    Spec (commitParticipants checks txn true true) s₀ (fun _ => Both txn changes s₀)
      (Stopped txn changes s₀) := by
  have hstart : Stopped txn changes s₀ s₀ := .inl ⟨neither_refl hbuffer, .inl hprogress⟩
  simp only [commitParticipants, if_true]
  refine spec_liftExcept_bind (fun _ hlock => ?_) fun _ _ => hstart
  refine spec_liftExcept_bind (fun _ hserializable => ?_) fun _ _ => hstart
  refine spec_liftExcept_bind (fun _ hcatalog => ?_) fun _ _ => hstart
  refine spec_liftExcept_bind (fun _ hstorage => ?_) fun _ _ => hstart
  refine spec_liftExcept_bind (fun _ hmanager => ?_) fun _ _ => hstart
  refine spec_modify_bind ?_
  have hpass : checks.storagePreflight.isOk = true → checks.pass = true := by
    intro hpre
    simpa [CommitChecks.pass, hlock, hserializable, hcatalog, hstorage, hmanager, Except.isOk,
      Except.toBool] using hpre
  refine spec_bind (spec_commitStorageTxn hbuffer fun hpre => hunbroken (hpass hpre)) ?_
  rintro - s ⟨hs, hclean⟩
  have hlog : s.storageLog = s₀.storageLog ++ (s₀.storageBuffer ++ [.commitTxn txn]) := by rw [hs]
  have hcatalogLog : s.catalogLog = s₀.catalogLog := by rw [hs]
  -- from here on the rows are durable
  have hboth : ∀ s', CatalogDone txn changes s s' → Both txn changes s₀ s' := fun s' h =>
    ⟨h.storage.trans hlog, h.catalog.trans (by rw [hcatalogLog])⟩
  refine spec_modify_bind (spec_bind (spec_mono (spec_retryCatalogCommit
    { s with progress := .storageCommitted } (by rw [hs]; exact hpending)
    (by rw [hs]; exact hcrashed) [0, 1, 2] (by rw [hs]; exact hclean) _) (fun _ _ h => h) ?_) ?_)
  · exact fun s' hs' => .inr ⟨hboth s' ⟨hs'.1.storage, hs'.1.catalog⟩, .inl hs'.2⟩
  · intro _ s' hs'
    have h := hboth s' ⟨hs'.storage, hs'.catalog⟩
    refine spec_modify_bind (spec_liftExcept (fun _ _ => ⟨h.storage, h.catalog⟩) ?_)
    exact .inr ⟨⟨h.storage, h.catalog⟩, .inr rfl⟩

theorem commitTransactionInternal_logs (txn : TxnId) :
    Neither s₀ (commitTransactionInternal checks txn true true s₀).2 ∨
      Both txn changes s₀ (commitTransactionInternal checks txn true true s₀).2 := by
  let Logs (s : CommitNode ρ κ) : Prop := Neither s₀ s ∨ Both txn changes s₀ s
  have hlogs : ∀ s, Stopped txn changes s₀ s → Logs s := fun s hs =>
    hs.elim (fun h => .inl h.1) fun h => .inr h.1
  suffices h : Spec (commitTransactionInternal checks txn true true) s₀ (fun _ => Logs) Logs by
    unfold Spec at h
    split at h
    · next heq => rw [heq]; exact h
    · next heq => rw [heq]; exact h
  unfold commitTransactionInternal
  refine spec_bind (spec_mono (spec_attempt
    (spec_commitParticipants hbuffer hpending hcrashed hprogress hunbroken)) (fun _ _ h => h)
    fun s hs => hlogs s hs.1) ?_
  rintro r s (⟨rfl, hboth⟩ | ⟨e, rfl, hstopped, hc⟩)
  · exact spec_liftExcept (fun _ _ => .inr hboth) (.inr hboth)
  rcases hstopped with ⟨hneither, hp⟩ | ⟨hboth, hc' | hp⟩
  · exact spec_bind (spec_mono (spec_cleanupCommit hneither hp) (fun _ _ h => h)
      fun _ h => .inl h) fun _ s' hs' => .inl hs'
  · exact nomatch hc.symm.trans hc'
  · refine spec_bind (Q := fun _ => Logs) ?_ fun _ s' hs' => hs'
    unfold cleanupCommit
    refine spec_get_bind ?_
    rw [hp]
    exact spec_pure (.inr hboth)

end

/-! ## After a restart -/

section

variable {σ τ : Type} {applyRow : σ → ρ → DbResult σ} {applyCatalog : τ → κ → DbResult τ}
  {rows : σ} {catalog : τ}

end

def addName (names : List String) (name : String) : DbResult (List String) := .ok (names ++ [name])

def createAndFill (outcomes : List LogOutcome) : CommitNode String String where
  storageLog := [.beginTxn 1]
  storageBuffer := [.change 1 "row of t"]
  catalogLog := []
  catalogPending := some ["table t"]
  outcomes := outcomes

end AionDb
