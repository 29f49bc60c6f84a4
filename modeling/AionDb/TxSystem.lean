import AionDb.LibRun
import AionDb.TxSpec

/-!
# Interleaved transactions over one manager

Every session runs one transaction in the order the engine's commit and
rollback paths call the manager: `begin`, any recording calls, then
`validate_commit`, `commit` and `finish_commit` with the timestamp `commit`
returned, or `rollback` followed by `rollback_txn`. A step of the system is
one call of one session, so a run is an arbitrary interleaving of the calls of
any number of sessions.
-/

namespace AionDb

open Std TransactionManager

open TransactionManager (Access keeps holds)

inductive Phase where
  | running
  | rejected
  | validated
  | committed (commitTs : Nat)
  | finished (commitTs : Nat)
  | rolledBack
  | ended
deriving DecidableEq

namespace Phase

def isActive : Phase → Bool
  | running | rejected | validated => true
  | _ => false

def isTracked : Phase → Bool
  | running | rejected | validated | committed _ => true
  | _ => false

def commitTs? : Phase → Option Nat
  | committed ts | finished ts => some ts
  | _ => none

def isFinished : Phase → Bool
  | finished _ => true
  | _ => false

/-- Between `commit`, which took the timestamp, and `finish_commit`, which stores it. -/
def isInFlight : Phase → Bool
  | committed _ => true
  | _ => false

end Phase

structure Session where
  handle : ActiveTransaction
  phase : Phase := .running
  recorded : List Access := []
deriving DecidableEq

structure TxSystem where
  mgr : TransactionManager := {}
  sessions : ExtTreeMap TxnId Session := ∅
deriving DecidableEq

inductive TxCall where
  | begin (isolation : IsolationLevel)
  | record (txn : TxnId) (access : Access)
  | validateCommit (txn : TxnId)
  | commit (txn : TxnId)
  | finishCommit (txn : TxnId)
  | rollback (txn : TxnId)
  | rollbackTxn (txn : TxnId)
deriving DecidableEq

namespace TxSystem

def put (s : TxSystem) (t : TxnId) (c : Session) (m : TransactionManager) : TxSystem :=
  { mgr := m, sessions := s.sessions.insert t c }

/-- One call. `none` when the session is not at a point where the engine makes it. -/
def step (s : TxSystem) : TxCall → Option TxSystem
  | .begin isolation =>
    match s.mgr.begin isolation with
    | (.ok h, m) => some (s.put h.id { handle := h } m)
    | (.error _, m) => some { s with mgr := m }
  | .record t a => do
    let c ← s.sessions[t]?
    guard (c.phase = .running)
    match s.mgr.record t a with
    | (.ok _, m) => some (s.put t { c with recorded := a :: c.recorded } m)
    | (.error _, m) => some { s with mgr := m }
  | .validateCommit t => do
    let c ← s.sessions[t]?
    guard (c.phase = .running)
    match s.mgr.validateCommit c.handle with
    | (.ok _, m) => some (s.put t { c with phase := .validated } m)
    | (.error _, m) => some (s.put t { c with phase := .rejected } m)
  | .commit t => do
    let c ← s.sessions[t]?
    guard (c.phase = .validated)
    match s.mgr.commit c.handle with
    | (.ok r, m) => some (s.put t { c with phase := .committed r.commitTs } m)
    | (.error _, m) => some (s.put t { c with phase := .rejected } m)
  | .finishCommit t => do
    let c ← s.sessions[t]?
    match c.phase with
    | .committed ts =>
      match s.mgr.finishCommit t ts with
      | (.ok _, m) => some (s.put t { c with phase := .finished ts } m)
      | (.error _, m) => some { s with mgr := m }
    | _ => none
  | .rollback t => do
    let c ← s.sessions[t]?
    guard (c.phase.isActive = true)
    match s.mgr.rollback c.handle with
    | (.ok _, m) => some (s.put t { c with phase := .rolledBack } m)
    | (.error _, m) => some { s with mgr := m }
  | .rollbackTxn t => do
    let c ← s.sessions[t]?
    guard (c.phase = .rolledBack)
    match s.mgr.rollbackTxn t with
    | (.ok _, m) => some (s.put t { c with phase := .ended } m)
    | (.error _, m) => some { s with mgr := m }

def phase? (s : TxSystem) (t : TxnId) : Option Phase := s.sessions[t]?.map (·.phase)

def recordedBy (s : TxSystem) (t : TxnId) : List Access :=
  s.sessions[t]?.elim [] (·.recorded)

def isFinished (s : TxSystem) (t : TxnId) : Bool := (s.phase? t).any (·.isFinished)

def isInFlight (s : TxSystem) (t : TxnId) : Bool := (s.phase? t).any (·.isInFlight)

@[simp] theorem put_mgr (s : TxSystem) (t : TxnId) (c : Session) (m : TransactionManager) :
    (s.put t c m).mgr = m := rfl

@[simp] theorem put_sessions (s : TxSystem) (t u : TxnId) (c : Session) (m : TransactionManager) :
    (s.put t c m).sessions[u]? = if t = u then some c else s.sessions[u]? := by
  simp [put, ExtTreeMap.getElem?_insert]

/-! ## The invariant of a session -/

/-- How the manager's tracked entry of a session relates to what it recorded. A
transaction of the first level has no entry until it writes. -/
def Tracks (c : Session) : Option SerializableTxnState → Prop
  | none => c.handle.isolation = .readCommitted ∧ ∀ a ∈ c.recorded, a.isWrite = false
  | some e => e.startTs = c.handle.startTs ∧
      ∀ a, keeps c.handle.isolation a = true → (holds e a ↔ a ∈ c.recorded)

structure SessionInv (m : TransactionManager) (t : TxnId) (c : Session) : Prop where
  id_eq : c.handle.id = t
  pos : t ≠ 0
  lt_next : t < m.nextTxnId
  start_le : c.handle.startTs ≤ m.commitTs
  active : m.activeTxns[t]? =
    if c.phase.isActive then some ⟨c.handle.isolation, c.handle.startTs⟩ else none
  tracked : c.phase.isTracked = true → Tracks c m.trackedTxns[t]?
  stamp_le : ∀ ts, c.phase.commitTs? = some ts → ts ≤ m.commitTs

structure Inv (s : TxSystem) : Prop where
  session : ∀ t c, s.sessions[t]? = some c → SessionInv s.mgr t c
  untracked : ∀ t, s.mgr.nextTxnId ≤ t → s.mgr.trackedTxns[t]? = none

/-! ## What a step does

Under the invariant no call of a session fails except where a counter runs
out or validation finds a conflict; `Effect` lists what is left. -/

inductive Effect (s : TxSystem) : TxCall → TxSystem → Prop
  | beginFailed {isolation : IsolationLevel} (next : Nat) (hle : s.mgr.nextTxnId ≤ next) :
      Effect s (.begin isolation) { s with mgr := { s.mgr with nextTxnId := next } }
  | begun {isolation : IsolationLevel} (h : ActiveTransaction) (hid : h.id = s.mgr.nextTxnId)
      (hpos : s.mgr.nextTxnId ≠ 0) (hiso : h.isolation = isolation)
      (hstart : h.startTs = s.mgr.commitTs) :
      Effect s (.begin isolation) (s.put s.mgr.nextTxnId { handle := h }
        { s.mgr with
          nextTxnId := s.mgr.nextTxnId + 1
          activeTxns := s.mgr.activeTxns.insert s.mgr.nextTxnId ⟨isolation, s.mgr.commitTs⟩
          trackedTxns :=
            if isolation ≠ .readCommitted then
              s.mgr.trackedTxns.insert s.mgr.nextTxnId { startTs := s.mgr.commitTs }
            else s.mgr.trackedTxns })
  | recorded {t : TxnId} {a : Access} {c : Session} (hc : s.sessions[t]? = some c)
      (hphase : c.phase = .running) :
      Effect s (.record t a) (s.put t { c with recorded := a :: c.recorded }
        { s.mgr with
          trackedTxns :=
            if keeps c.handle.isolation a then
              s.mgr.trackedTxns.insert t (TransactionManager.addAccess
                (s.mgr.trackedTxns[t]?.getD { startTs := c.handle.startTs }) a)
            else s.mgr.trackedTxns })
  | rejected {call : TxCall} {t : TxnId} {c : Session} (hc : s.sessions[t]? = some c)
      (hcall : call = .validateCommit t ∨ call = .commit t) (hphase : c.phase.isActive = true) :
      Effect s call (s.put t { c with phase := .rejected } s.mgr)
  | validatedReadCommitted {t : TxnId} {c : Session} (hc : s.sessions[t]? = some c)
      (hphase : c.phase = .running) (hiso : c.handle.isolation = .readCommitted) :
      Effect s (.validateCommit t) (s.put t { c with phase := .validated } s.mgr)
  | validated {t : TxnId} {c : Session} {e : SerializableTxnState}
      (hc : s.sessions[t]? = some c) (hphase : c.phase = .running)
      (hiso : c.handle.isolation ≠ .readCommitted) (he : s.mgr.trackedTxns[t]? = some e)
      (hok : s.mgr.validationConflict t e (c.handle.isolation = .serializable) = none) :
      Effect s (.validateCommit t) (s.put t { c with phase := .validated }
        { s.mgr with trackedTxns := s.mgr.trackedTxns.insert t { e with validated := true } })
  | committed {t : TxnId} {c : Session} (hc : s.sessions[t]? = some c)
      (hphase : c.phase = .validated) :
      Effect s (.commit t) (s.put t { c with phase := .committed (s.mgr.commitTs + 1) }
        { s.mgr with
          commitTs := s.mgr.commitTs + 1
          activeTxns := s.mgr.activeTxns.erase t })
  | finished {t : TxnId} {c : Session} {ts : Nat} (hc : s.sessions[t]? = some c)
      (hphase : c.phase = .committed ts) :
      Effect s (.finishCommit t) (s.put t { c with phase := .finished ts }
        (TransactionManager.pruneCommitCaches
          { s.mgr.trackedTxns[t]?.elim s.mgr (s.mgr.stampWrites · ts) with
            trackedTxns := s.mgr.trackedTxns.erase t }))
  | rolledBack {t : TxnId} {c : Session} (hc : s.sessions[t]? = some c)
      (hphase : c.phase.isActive = true) :
      Effect s (.rollback t) (s.put t { c with phase := .rolledBack }
        (TransactionManager.pruneCommitCaches
          { s.mgr with
            activeTxns := s.mgr.activeTxns.erase t
            trackedTxns := s.mgr.trackedTxns.erase t }))
  | ended {t : TxnId} {c : Session} (hc : s.sessions[t]? = some c)
      (hphase : c.phase = .rolledBack) :
      Effect s (.rollbackTxn t) (s.put t { c with phase := .ended }
        (TransactionManager.pruneCommitCaches
          { s.mgr with trackedTxns := s.mgr.trackedTxns.erase t }))

variable {s s' : TxSystem} {call : TxCall} {t : TxnId} {c : Session} {β : Type}
  {m m' : TransactionManager} {u : TxnId}

theorem SessionInv.handle_active (h : SessionInv m t c) (hp : c.phase.isActive = true) :
    m.activeTxns[c.handle.id]? = some ⟨c.handle.isolation, c.handle.startTs⟩ := by
  rw [h.id_eq, h.active, if_pos hp]

theorem SessionInv.not_active (h : SessionInv m t c) (hp : c.phase.isActive = false) :
    t ∉ m.activeTxns := by
  have := h.active
  rw [hp] at this
  simpa using this

theorem bind_guard_eq_some {o : Option Session} {p : Session → Prop} [DecidablePred p]
    {k : Session → Option TxSystem} (h : (do let c ← o; guard (p c); k c) = some s') :
    ∃ c, o = some c ∧ p c ∧ k c = some s' := by
  obtain ⟨c, hc, h⟩ := Option.bind_eq_some_iff.mp h
  by_cases hp : p c
  · exact ⟨c, hc, hp, by simpa [guard, hp] using h⟩
  · simp [guard, hp] at h

theorem step_effect (hI : Inv s) (h : s.step call = some s') : Effect s call s' := by
  cases call with
  | begin isolation =>
    simp only [step] at h
    rcases hb : s.mgr.begin isolation with ⟨e | hd, m⟩
    · rw [hb] at h
      obtain ⟨next, hle, rfl⟩ := begin_error hb
      cases h
      exact .beginFailed next hle
    · rw [hb] at h
      obtain ⟨hid, hpos, hiso, hstart, rfl⟩ := begin_ok hb
      cases h
      rw [hid]
      exact .begun hd hid hpos hiso hstart
  | record t a =>
    obtain ⟨c, hc, hp, h⟩ := bind_guard_eq_some h
    have hs := hI.session t c hc
    have hact := hs.handle_active (by rw [hp]; rfl)
    rw [hs.id_eq] at hact
    rw [record_eq hs.pos hact] at h
    cases h
    convert Effect.recorded hc hp
    split <;> rfl
  | validateCommit t =>
    obtain ⟨c, hc, hp, h⟩ := bind_guard_eq_some h
    have hs := hI.session t c hc
    have hact := hs.handle_active (by rw [hp]; rfl)
    by_cases hiso : c.handle.isolation = .readCommitted
    · rw [validateCommit_readCommitted hact hiso] at h
      cases h
      exact .validatedReadCommitted hc hp hiso
    · have htr := hs.tracked (by rw [hp]; rfl)
      cases he : s.mgr.trackedTxns[t]? with
      | none => rw [he] at htr; exact absurd htr.1 hiso
      | some e =>
        rw [← hs.id_eq] at he
        rcases validateCommit_cases hact hiso he with
          ⟨err, herr⟩ | ⟨hok, heq⟩
        · rw [herr] at h
          cases h
          exact .rejected hc (.inl rfl) (by rw [hp]; rfl)
        · rw [heq] at h
          cases h
          rw [hs.id_eq] at he hok ⊢
          exact .validated hc hp hiso he hok
  | commit t =>
    obtain ⟨c, hc, hp, h⟩ := bind_guard_eq_some h
    have hs := hI.session t c hc
    have hact := hs.handle_active (by rw [hp]; rfl)
    rcases commit_cases hact with ⟨err, herr⟩ | heq
    · rw [herr] at h
      cases h
      exact .rejected hc (.inr rfl) (by rw [hp]; rfl)
    · rw [heq] at h
      cases h
      rw [hs.id_eq]
      exact .committed hc hp
  | finishCommit t =>
    obtain ⟨c, hc, h⟩ := Option.bind_eq_some_iff.mp h
    have hs := hI.session t c hc
    cases hp : c.phase with
    | committed ts =>
      have hact := hs.not_active (by rw [hp]; rfl)
      simp only [hp, finishCommit_eq hs.pos hact] at h
      cases h
      exact .finished hc hp
    | _ => simp [hp] at h
  | rollback t =>
    obtain ⟨c, hc, hp, h⟩ := bind_guard_eq_some h
    have hs := hI.session t c hc
    rw [rollback_eq (hs.handle_active hp)] at h
    cases h
    rw [hs.id_eq]
    exact .rolledBack hc hp
  | rollbackTxn t =>
    obtain ⟨c, hc, hp, h⟩ := bind_guard_eq_some h
    rw [rollbackTxn_eq (hI.session t c hc).pos] at h
    cases h
    exact .ended hc hp

/-! ## The invariant is kept -/

theorem SessionInv.frame (h : SessionInv m t c) (hnext : m.nextTxnId ≤ m'.nextTxnId)
    (hts : m.commitTs ≤ m'.commitTs) (hact : m'.activeTxns[t]? = m.activeTxns[t]?)
    (htr : m'.trackedTxns[t]? = m.trackedTxns[t]?) : SessionInv m' t c where
  id_eq := h.id_eq
  pos := h.pos
  lt_next := h.lt_next.trans_le hnext
  start_le := h.start_le.trans hts
  active := hact.trans h.active
  tracked hp := by rw [htr]; exact h.tracked hp
  stamp_le ts hc := (h.stamp_le ts hc).trans hts

theorem Inv.put (hI : Inv s) (hnext : s.mgr.nextTxnId ≤ m.nextTxnId)
    (hts : s.mgr.commitTs ≤ m.commitTs)
    (hact : ∀ u, u ≠ t → m.activeTxns[u]? = s.mgr.activeTxns[u]?)
    (htr : ∀ u, u ≠ t → m.trackedTxns[u]? = s.mgr.trackedTxns[u]?) (hc : SessionInv m t c) :
    Inv (s.put t c m) where
  session u d hd := by
    rw [put_sessions] at hd
    split at hd
    · rename_i htu
      subst htu
      cases hd
      exact hc
    · rename_i htu
      have hut := Ne.symm htu
      exact (hI.session u d hd).frame hnext hts (hact u hut) (htr u hut)
  untracked u hu := by
    rw [put_mgr, htr u (hc.lt_next.trans_le hu).ne']
    exact hI.untracked u (hnext.trans hu)

theorem inv_init : Inv {} where
  session t c h := by simp at h
  untracked t _ := by simp

theorem getElem?_erase_of_ne (m : ExtTreeMap TxnId β) (h : u ≠ t) : (m.erase t)[u]? = m[u]? := by
  simp [ExtTreeMap.getElem?_erase, Ne.symm h]

theorem getElem?_insert_of_ne (m : ExtTreeMap TxnId β) (h : u ≠ t) (v : β) :
    (m.insert t v)[u]? = m[u]? := by
  simp [ExtTreeMap.getElem?_insert, Ne.symm h]

theorem Tracks.record {o : Option SerializableTxnState} (h : Tracks c o) (a : Access) :
    Tracks { c with recorded := a :: c.recorded }
      (if keeps c.handle.isolation a then
        some (TransactionManager.addAccess (o.getD { startTs := c.handle.startTs }) a)
      else o) := by
  split
  · cases o with
    | none =>
      refine ⟨by simp, fun b hb => ?_⟩
      have hb' : b ∉ c.recorded := by
        intro hmem
        simp [keeps, h.1, h.2 b hmem] at hb
      simp [holds_addAccess, not_holds_fresh, hb']
    | some e =>
      refine ⟨by simp [h.1], fun b hb => ?_⟩
      simp [holds_addAccess, h.2 b hb]
  · rename_i hk
    cases o with
    | none =>
      refine ⟨h.1, fun b hb => ?_⟩
      rcases List.mem_cons.mp hb with rfl | hb
      · simp only [keeps, Bool.or_eq_true, not_or, Bool.not_eq_true] at hk
        exact hk.1
      · exact h.2 b hb
    | some e =>
      refine ⟨h.1, fun b hb => ?_⟩
      have hne : b ≠ a := by rintro rfl; exact hk hb
      simp [h.2 b hb, hne]

theorem SessionInv.leave {p : Phase} (h : SessionInv m t c) (hnext : m'.nextTxnId = m.nextTxnId)
    (hts : m'.commitTs = m.commitTs) (hact : m'.activeTxns[t]? = none) (hp : p.isTracked = false)
    (hpa : p.isActive = false)
    (hstamp : ∀ ts, p.commitTs? = some ts → c.phase.commitTs? = some ts) :
    SessionInv m' t { c with phase := p } where
  id_eq := h.id_eq
  pos := h.pos
  lt_next := by rw [hnext]; exact h.lt_next
  start_le := by rw [hts]; exact h.start_le
  active := by simp [hact, hpa]
  tracked hp' := by simp [hp] at hp'
  stamp_le ts hc := by rw [hts]; exact h.stamp_le ts (hstamp ts hc)

theorem inv_step (hI : Inv s) (h : s.step call = some s') : Inv s' := by
  cases step_effect hI h with
  | beginFailed next hle =>
    exact ⟨fun u d hd => (hI.session u d hd).frame hle le_rfl rfl rfl,
      fun u hu => hI.untracked u (hle.trans hu)⟩
  | begun hd hid hpos hiso hstart =>
    refine hI.put (Nat.le_succ _) le_rfl (fun u hu => getElem?_insert_of_ne _ hu _)
      (fun u hu => ?_) ⟨hid, hpos, Nat.lt_succ_self _, hstart.le, ?_, fun _ => ?_, ?_⟩
    · dsimp only
      split
      · exact getElem?_insert_of_ne _ hu _
      · rfl
    · simp [Phase.isActive, hiso, hstart]
    · dsimp only
      split
      · rw [ExtTreeMap.getElem?_insert_self]
        exact ⟨hstart.symm, fun a _ => by simp [not_holds_fresh]⟩
      · rename_i hrc
        rw [hI.untracked _ le_rfl]
        exact ⟨by simpa [hiso] using hrc, by simp⟩
    · simp [Phase.commitTs?]
  | @recorded t a c hc hphase =>
    have hs := hI.session t c hc
    refine hI.put le_rfl le_rfl (fun _ _ => rfl) (fun u hu => ?_)
      ⟨hs.id_eq, hs.pos, hs.lt_next, hs.start_le, hs.active, fun hp => ?_, hs.stamp_le⟩
    · dsimp only
      split
      · exact getElem?_insert_of_ne _ hu _
      · rfl
    · have := (hs.tracked hp).record a
      dsimp only
      split at this <;> simp_all
  | @rejected _ t c hc hcall hphase =>
    have hs := hI.session t c hc
    have htr : c.phase.isTracked = true := by
      revert hphase; cases c.phase <;> simp [Phase.isActive, Phase.isTracked]
    refine hI.put le_rfl le_rfl (fun _ _ => rfl) (fun _ _ => rfl)
      ⟨hs.id_eq, hs.pos, hs.lt_next, hs.start_le, ?_, fun _ => hs.tracked htr, ?_⟩
    · rw [hs.active, if_pos hphase]; rfl
    · simp [Phase.commitTs?]
  | @validatedReadCommitted t c hc hphase hiso =>
    have hs := hI.session t c hc
    refine hI.put le_rfl le_rfl (fun _ _ => rfl) (fun _ _ => rfl)
      ⟨hs.id_eq, hs.pos, hs.lt_next, hs.start_le, ?_, fun _ => ?_, ?_⟩
    · rw [hs.active, hphase]; rfl
    · exact hs.tracked (by rw [hphase]; rfl)
    · simp [Phase.commitTs?]
  | @validated t c e hc hphase hiso he hok =>
    have hs := hI.session t c hc
    have htr := hs.tracked (by rw [hphase]; rfl)
    rw [he] at htr
    refine hI.put le_rfl le_rfl (fun _ _ => rfl) (fun u hu => getElem?_insert_of_ne _ hu _)
      ⟨hs.id_eq, hs.pos, hs.lt_next, hs.start_le, ?_, fun _ => ?_, ?_⟩
    · rw [hs.active, hphase]; rfl
    · rw [ExtTreeMap.getElem?_insert_self]
      refine ⟨htr.1, fun a ha => ?_⟩
      rw [← htr.2 a ha]
      cases a <;> rfl
    · simp [Phase.commitTs?]
  | @committed t c hc hphase =>
    have hs := hI.session t c hc
    refine hI.put le_rfl (Nat.le_succ _) (fun u hu => getElem?_erase_of_ne _ hu)
      (fun _ _ => rfl)
      ⟨hs.id_eq, hs.pos, hs.lt_next, hs.start_le.trans (Nat.le_succ _), ?_, fun _ => ?_, ?_⟩
    · simp [Phase.isActive]
    · exact hs.tracked (by rw [hphase]; rfl)
    · rintro ts ⟨⟩
      exact le_rfl
  | @finished t c ts hc hphase =>
    have hs := hI.session t c hc
    have hact : s.mgr.activeTxns[t]? = none := by rw [hs.active, hphase]; rfl
    refine hI.put ?_ ?_ ?_ ?_ (hs.leave ?_ ?_ ?_ rfl rfl ?_)
    all_goals cases s.mgr.trackedTxns[t]? <;>
      simp [TransactionManager.stampWrites, hact, hphase, Phase.commitTs?]
    all_goals exact fun u hu => getElem?_erase_of_ne _ hu
  | @rolledBack t c hc hphase =>
    have hs := hI.session t c hc
    refine hI.put ?_ ?_ ?_ ?_ (hs.leave ?_ ?_ ?_ rfl rfl ?_)
    all_goals simp [Phase.commitTs?]
    all_goals exact fun u hu => getElem?_erase_of_ne _ hu
  | @ended t c hc hphase =>
    have hs := hI.session t c hc
    have hact : s.mgr.activeTxns[t]? = none := by rw [hs.active, hphase]; rfl
    refine hI.put ?_ ?_ ?_ ?_ (hs.leave ?_ ?_ ?_ rfl rfl ?_)
    all_goals simp [Phase.commitTs?, hact]
    all_goals exact fun u hu => getElem?_erase_of_ne _ hu

end TxSystem

end AionDb
