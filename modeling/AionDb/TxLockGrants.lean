import AionDb.LibModes
import AionDb.LibRun
import AionDb.TxLock

/-!
# The modes a transaction was granted

The lock manager as a system of 16 shards. A step is one round of a request of
any transaction, or the visit of one shard by `release_txn`, which takes the
shards one after another; every sequence of calls, and every interleaving of
their rounds, is a run.

The lock table keeps one mode for a transaction and a target. The history
next to it keeps every mode that a request on the target was granted, until
the transaction releases the target.
-/

namespace AionDb

def lockShards : Nat := 16

/-- The shard of a target is that of its table. -/
def targetShardIdx (target : LockTarget) : Fin lockShards :=
  ⟨target.tableId * 0x9E3779B97F4A7C15 % 2 ^ 64 % lockShards, Nat.mod_lt _ (by decide)⟩

/-- The entry points for a lock; a round of `acquire` is told whether its caller was parked
before and whether its time is up. -/
inductive LockRequest where
  | acquire (target : LockTarget) (parked expired : Bool)
  | acquireNowait (target : LockTarget)
  | tryAcquireTableLockNowait (tableId : RelationId)

def LockRequest.target : LockRequest → LockTarget
  | acquire target _ _ | acquireNowait target => target
  | tryAcquireTableLockNowait tableId => .table tableId

def LockState.serve (s : LockState) (txn : TxnId) (mode : LockMode) :
    LockRequest → LockState × Option (DbResult Unit)
  | .acquire target parked expired => s.acquireRound txn target mode parked expired
  | .acquireNowait target =>
    let r := s.acquireNowait txn target mode
    (r.1, some r.2)
  | .tryAcquireTableLockNowait tableId =>
    let r := s.tryAcquireTableLockNowait txn tableId mode
    (r.1, some r.2)

theorem LockState.serve_effect (s : LockState) (txn : TxnId) (mode : LockMode) (r : LockRequest) :
    RoundEffect s txn r.target mode (s.serve txn mode r).1 (s.serve txn mode r).2 := by
  cases r with
  | acquire target parked expired => exact s.acquireRound_effect txn target mode parked expired
  | acquireNowait target => exact s.nowait_effect txn target mode _
  | tryAcquireTableLockNowait tableId => exact s.nowait_effect txn (.table tableId) mode _

inductive LockCall where
  | request (txn : TxnId) (mode : LockMode) (r : LockRequest)
  | releaseTxn (shard : Fin lockShards) (txn : TxnId)

structure LockHistory where
  shards : Fin lockShards → LockState := fun _ => {}
  granted : List (LockTarget × LockGrant) := []

namespace LockHistory

def shardOf (h : LockHistory) (target : LockTarget) : LockState :=
  h.shards (targetShardIdx target)

def heldMode (h : LockHistory) (txn : TxnId) (target : LockTarget) : Option LockMode :=
  (h.shardOf target).heldMode txn target

def outcome (h : LockHistory) (txn : TxnId) (mode : LockMode) (r : LockRequest) :
    Option (DbResult Unit) :=
  ((h.shardOf r.target).serve txn mode r).2

def put (h : LockHistory) (shard : Fin lockShards) (st : LockState) : LockHistory :=
  { h with shards := Function.update h.shards shard st }

def step (h : LockHistory) : LockCall → Option LockHistory
  | .request txn mode r =>
    let h' := h.put (targetShardIdx r.target) ((h.shardOf r.target).serve txn mode r).1
    some (
      if h.outcome txn mode r = some (.ok ()) then
        { h' with granted := (r.target, ⟨txn, mode⟩) :: h'.granted }
      else h')
  | .releaseTxn shard txn =>
    some { h.put shard ((h.shards shard).releaseTxn txn) with
      granted := h.granted.filter fun g => !(targetShardIdx g.1 = shard && g.2.txn = txn) }

/-- A request that goes through leaves the transaction with a mode that keeps away whoever
the mode it held, or the one it asked for, keeps away. -/
def KeepsBoth (h : LockHistory) : LockCall → Prop
  | .request txn mode r => h.outcome txn mode r = some (.ok ()) →
      ∀ held ∈ h.heldMode txn r.target,
        Covers (strongestLockMode held mode) held ∧ Covers (strongestLockMode held mode) mode
  | .releaseTxn _ _ => True

instance (h : LockHistory) (call : LockCall) : Decidable (h.KeepsBoth call) := by
  cases call <;> unfold KeepsBoth <;> infer_instance

/-- Holders of one target go together, and what was granted is still held. -/
structure Inv (h : LockHistory) : Prop where
  sound : ∀ shard, (h.shards shard).Sound
  compatible : ∀ target t₁ t₂ m₁ m₂, t₁ ≠ t₂ → h.heldMode t₁ target = some m₁ →
    h.heldMode t₂ target = some m₂ → lockModesCompatible m₁ m₂ = true
  covered : ∀ target txn mode, (target, LockGrant.mk txn mode) ∈ h.granted →
    ∃ held, h.heldMode txn target = some held ∧ Covers held mode

theorem inv_init : Inv {} where
  sound _ := LockState.sound_empty
  compatible target t₁ t₂ m₁ m₂ _ h := by simp [heldMode, shardOf, LockState.heldMode] at h
  covered target txn mode h := by cases h

variable {h : LockHistory}

theorem shards_put (h : LockHistory) (shard : Fin lockShards) (st : LockState)
    (i : Fin lockShards) : (h.put shard st).shards i = if i = shard then st else h.shards i := by
  simp [put, Function.update_apply]

theorem heldMode_put (h : LockHistory) (shard : Fin lockShards) (st : LockState) (txn : TxnId)
    (target : LockTarget) :
    (h.put shard st).heldMode txn target =
      if targetShardIdx target = shard then st.heldMode txn target else h.heldMode txn target := by
  unfold heldMode shardOf
  rw [shards_put]
  split <;> rfl

variable {st : LockState} {mode : LockMode} {txn : TxnId} {target : LockTarget}
  {shard : Fin lockShards}

theorem Inv.sound_put (hi : h.Inv) (hst : st.Sound) (i : Fin lockShards) :
    ((h.put shard st).shards i).Sound := by
  rw [shards_put]
  split
  · exact hst
  · exact hi.sound i

theorem Inv.put (hi : h.Inv) (hgrants : st.grants = (h.shards shard).grants)
    (hmodes : st.heldByTxn = (h.shards shard).heldByTxn) : (h.put shard st).Inv := by
  have hsame : ∀ txn target, (h.put shard st).heldMode txn target = h.heldMode txn target := by
    intro txn target
    rw [heldMode_put]
    split
    · next heq =>
      subst heq
      rw [LockState.heldMode, hmodes]
      rfl
    · rfl
  refine ⟨hi.sound_put ((hi.sound shard).congr hgrants hmodes), ?_, ?_⟩
  · simpa only [hsame] using hi.compatible
  · intro target txn mode hmem
    rw [hsame]
    exact hi.covered target txn mode hmem

theorem Inv.modes (hi : h.Inv) :
    ModeTable.Sound lockModesCompatible (fun target txn => h.heldMode txn target)
      fun target txn mode => (target, LockGrant.mk txn mode) ∈ h.granted :=
  ⟨hi.compatible, hi.covered⟩

theorem Inv.of_modes (hsound : ∀ shard, (h.shards shard).Sound)
    (hmodes : ModeTable.Sound lockModesCompatible (fun target txn => h.heldMode txn target)
      fun target txn mode => (target, LockGrant.mk txn mode) ∈ h.granted) : h.Inv :=
  ⟨hsound, hmodes.compatible, hmodes.covered⟩

theorem Inv.grant (hi : h.Inv) (hgrants : st.grants = ((h.shardOf target).grant txn target mode).grants)
    (hheld : st.heldByTxn = ((h.shardOf target).grant txn target mode).heldByTxn)
    (hfree : (h.shardOf target).blockers txn target mode = [])
    (hcovers : ∀ held ∈ h.heldMode txn target, Covers mode held) :
    (h.put (targetShardIdx target) st).Inv := by
  have hst : st.Sound := ((hi.sound (targetShardIdx target)).grant txn target mode).congr
    hgrants hheld
  have hmodes : ∀ t u, (h.put (targetShardIdx target) st).heldMode u t =
      if t = target ∧ u = txn then some mode else h.heldMode u t := by
    intro t u
    simp only [heldMode_put, and_comm]
    by_cases hs : targetShardIdx t = targetShardIdx target
    · rw [if_pos hs, heldMode, shardOf, hs, ← shardOf, ← LockState.heldMode_grant]
      rw [LockState.heldMode, LockState.heldMode, hheld]
    · have ht : t ≠ target := fun heq => hs (heq ▸ rfl)
      simp [hs, ht]
  refine .of_modes (hi.sound_put hst) (hi.modes.grant lockModesCompatible_comm hmodes ?_ hcovers
    fun t u m hm => .inl hm)
  intro u m hu hm
  by_contra hno
  have hmem : u ∈ (h.shardOf target).blockers txn target mode :=
    (hi.sound _).mem_blockers.mpr ⟨hu, m, hm, Bool.not_eq_true _ ▸ hno⟩
  rw [hfree] at hmem
  cases hmem

theorem Inv.record (hi : h.Inv) {held : LockMode} (hheld : h.heldMode txn target = some held)
    (hcovers : Covers held mode) :
    Inv { h with granted := (target, ⟨txn, mode⟩) :: h.granted } where
  sound := hi.sound
  compatible := hi.compatible
  covered target' txn' mode' hmem := by
    rcases List.mem_cons.mp hmem with heq | hmem
    · cases heq
      exact ⟨held, hheld, hcovers⟩
    · exact hi.covered target' txn' mode' hmem

theorem Inv.releaseTxn (hi : h.Inv) (shard : Fin lockShards) (txn : TxnId) :
    Inv { h.put shard ((h.shards shard).releaseTxn txn) with
      granted := h.granted.filter fun g => !(targetShardIdx g.1 = shard && g.2.txn = txn) } := by
  have hheld : ∀ t u, (h.put shard ((h.shards shard).releaseTxn txn)).heldMode u t =
      if targetShardIdx t = shard ∧ u = txn then none else h.heldMode u t := by
    intro t u
    rw [heldMode_put, LockState.heldMode_releaseTxn]
    by_cases hs : targetShardIdx t = shard
    · simp [hs, heldMode, shardOf]
    · simp [hs]
  refine .of_modes (hi.sound_put ((hi.sound shard).releaseTxn txn))
    (hi.modes.release (fun t u => targetShardIdx t = shard ∧ u = txn) hheld ?_)
  intro t u m hmem
  obtain ⟨hmem, hkept⟩ := List.mem_filter.mp hmem
  exact ⟨hmem, fun heq => by simp [heq.1, heq.2] at hkept⟩

theorem covers_wanted (hkeeps : ∀ held ∈ h.heldMode txn target,
      Covers (strongestLockMode held mode) held ∧ Covers (strongestLockMode held mode) mode) :
    (∀ held ∈ h.heldMode txn target, Covers ((h.shardOf target).wanted txn target mode) held) ∧
      Covers ((h.shardOf target).wanted txn target mode) mode := by
  have hwanted : (h.shardOf target).wanted txn target mode =
      effectiveMode (h.heldMode txn target) mode := rfl
  rw [hwanted]
  cases hh : h.heldMode txn target with
  | none => exact ⟨fun held hmem => (by cases hmem), Covers.refl mode⟩
  | some held =>
    refine ⟨fun held' hmem => ?_, (hkeeps held hh).2⟩
    cases hmem
    exact (hkeeps held hh).1

theorem Inv.step (hi : h.Inv) {call : LockCall} (hkeeps : h.KeepsBoth call) {h' : LockHistory}
    (hstep : h.step call = some h') : h'.Inv := by
  cases call with
  | releaseTxn shard txn =>
    cases hstep
    exact hi.releaseTxn shard txn
  | request txn mode r =>
    cases hstep
    have heffect := (h.shardOf r.target).serve_effect txn mode r
    have houtcome : h.outcome txn mode r = ((h.shardOf r.target).serve txn mode r).2 := rfl
    simp only [KeepsBoth, houtcome] at hkeeps
    simp only [houtcome]
    generalize (h.shardOf r.target).serve txn mode r = served at heffect hkeeps ⊢
    obtain ⟨st, out⟩ := served
    -- what is recorded is covered by the mode the caller holds after the round
    cases heffect with
    | held hheld =>
      rw [if_pos rfl]
      refine Inv.record (hi.put ?_ ?_) ?_ (covers_wanted (hkeeps rfl)).2
      · rfl
      · rfl
      · rw [heldMode_put, if_pos rfl]
        exact hheld
    | granted hfree =>
      rw [if_pos rfl]
      obtain ⟨hold, hnew⟩ := covers_wanted (hkeeps rfl)
      refine Inv.record (hi.grant ?_ ?_ hfree hold) ?_ hnew
      · rfl
      · rfl
      · rw [heldMode_put, if_pos rfl]
        exact (LockState.heldMode_grant ..).trans (if_pos ⟨rfl, rfl⟩)
    | deadlock hcycle | unavailable | parked hclear => exact hi.put rfl rfl

/-- Over any calls whose granted requests keep what their callers held, two transactions never
hold conflicting grants on a target, and what was granted is still covered by what is held. -/
theorem granted_modes_stay_compatible {calls : List LockCall} {h : LockHistory}
    (hkeeps : Run.Along step KeepsBoth {} calls) (hrun : Run.run step {} calls = some h) :
    (∀ target t₁ t₂ m₁ m₂, t₁ ≠ t₂ → (target, LockGrant.mk t₁ m₁) ∈ h.granted →
      (target, LockGrant.mk t₂ m₂) ∈ h.granted → lockModesCompatible m₁ m₂ = true) ∧
    ∀ target txn mode, (target, LockGrant.mk txn mode) ∈ h.granted →
      ∃ held, h.heldMode txn target = some held ∧ Covers held mode := by
  have hi : h.Inv := Run.run_preserves_along (fun hi hP hs => hi.step hP hs) inv_init hkeeps hrun
  exact ⟨fun target t₁ t₂ m₁ m₂ hne h₁ h₂ =>
    hi.modes.granted_compatible lockModesCompatible_comm hne h₁ h₂, hi.covered⟩

/-- A reader and a writer of one table; the second writer of the table has to wait. -/
def upgradeCalls : List LockCall :=
  [.request 1 .accessShare (.acquire (.table 7) false false),
   .request 1 .update (.acquire (.table 7) false false),
   .request 2 .rowExclusive (.acquireNowait (.table 7)),
   .request 2 .update (.acquire (.table 7) false false)]

theorem granted_modes_stay_compatible_upgrade : lockModesCompatible .update .rowExclusive = true :=
  (granted_modes_stay_compatible (by decide +kernel : Run.Along step KeepsBoth {} upgradeCalls)
    (Run.run_eq_some_after (by decide +kernel))).1 (.table 7) 1 2 .update .rowExclusive
      (by decide) (by decide +kernel) (by decide +kernel)

/-- A scan of a table under a predicate lock, then an insert of the same transaction: the
predicate lock is gone, and another transaction inserts into the scanned table. -/
def droppedPredicateCalls : List LockCall :=
  [.request 1 .predicateRead (.acquire (.table 7) false false),
   .request 1 .rowExclusive (.acquire (.table 7) false false),
   .request 2 .rowExclusive (.acquire (.table 7) false false)]

theorem predicate_lock_dropped_by_upgrade :
    ∃ h, Run.run step {} droppedPredicateCalls = some h ∧
      (.table 7, ⟨1, .predicateRead⟩) ∈ h.granted ∧
      (.table 7, ⟨2, .rowExclusive⟩) ∈ h.granted ∧
      lockModesCompatible .predicateRead .rowExclusive = false :=
  ⟨_, Run.run_eq_some_after (by decide +kernel), by decide +kernel, by decide +kernel, rfl⟩

end LockHistory

end AionDb
