import AionDb.Core
import AionDb.LibMap
import AionDb.LibReach

/-!
# The lock table of a shard

`WaitGraphLockManager` keeps its locks in 16 shards, each with the grants on its
targets, the modes every transaction holds, and a wait-for graph. A call of
`acquire` runs in rounds under the mutex of the shard: a round grants the
lock, refuses it, or leaves the caller parked until it is woken for another one.

The grants of a target and the modes of a transaction are kept twice; `Sound`
says that they agree, and what a round does is then said in terms of
`heldMode` alone.
-/

namespace AionDb

open Std Relation ExtTreeMap List

/-! ## Modes -/

inductive LockMode where
  | accessShare
  | predicateRead
  | rowExclusive
  | accessExclusive
  | keyShare
  | update
deriving DecidableEq

def LockMode.all : List LockMode :=
  [.accessShare, .predicateRead, .rowExclusive, .accessExclusive, .keyShare, .update]

def lockModeRank : LockMode → Nat
  | .accessShare => 0
  | .predicateRead => 1
  | .keyShare => 2
  | .rowExclusive => 3
  | .update => 4
  | .accessExclusive => 5

/-- Of two modes the one of higher rank; the current one when they are equal. -/
def strongestLockMode (current requested : LockMode) : LockMode :=
  if lockModeRank requested ≤ lockModeRank current then current else requested

def lockModesCompatible : LockMode → LockMode → Bool
  | .accessExclusive, _ | _, .accessExclusive => false
  | .update, .update | .update, .keyShare | .keyShare, .update => false
  | .predicateRead, .rowExclusive | .predicateRead, .update => false
  | .rowExclusive, .predicateRead | .update, .predicateRead => false
  | _, _ => true

theorem lockModesCompatible_comm (a b : LockMode) :
    lockModesCompatible a b = lockModesCompatible b a := by
  cases a <;> cases b <;> rfl

/-- Whoever is kept away by a holder of `weak` is kept away by a holder of `strong`. -/
def Covers (strong weak : LockMode) : Prop :=
  ∀ m, lockModesCompatible strong m = true → lockModesCompatible weak m = true

instance (strong weak : LockMode) : Decidable (Covers strong weak) :=
  decidable_of_iff
    (∀ m ∈ LockMode.all, lockModesCompatible strong m = true → lockModesCompatible weak m = true)
    ⟨fun h m => h m (by cases m <;> decide), fun h m _ => h m⟩

theorem Covers.refl (m : LockMode) : Covers m m := fun _ => id

def effectiveMode (held : Option LockMode) (requested : LockMode) : LockMode :=
  held.elim requested (strongestLockMode · requested)

/-! ## Targets -/

inductive LockTarget where
  | table (tableId : RelationId)
  | tuple (tableId : RelationId) (tupleId : TupleId)
deriving DecidableEq

namespace LockTarget

def tableId : LockTarget → RelationId
  | table r | tuple r _ => r

def debug : LockTarget → String
  | table r => s!"Table(RelationId({r}))"
  | tuple r t => s!"Tuple \x7b table_id: RelationId({r}), tuple_id: TupleId({t}) \x7d"

def key : LockTarget → Nat × Nat × Nat
  | table r => (0, r, 0)
  | tuple r t => (1, r, t)

theorem key_injective {a b : LockTarget} (h : a.key = b.key) : a = b := by
  cases a <;> cases b <;> simp_all [key]

/-- The derived order: tables come before tuples. -/
abbrev cmp : LockTarget → LockTarget → Ordering :=
  compareLex (compareOn fun t => t.key.1)
    (compareLex (compareOn fun t => t.key.2.1) (compareOn fun t => t.key.2.2))

instance : LawfulEqCmp cmp where
  eq_of_compare {a b} h := by
    obtain ⟨h1, h2⟩ := compareLex_eq_eq.mp h
    obtain ⟨h2, h3⟩ := compareLex_eq_eq.mp h2
    exact key_injective (Prod.ext (LawfulEqCmp.eq_of_compare h1)
      (Prod.ext (LawfulEqCmp.eq_of_compare h2) (LawfulEqCmp.eq_of_compare h3)))

end LockTarget

/-! ## The state of a shard -/

structure LockGrant where
  txn : TxnId
  mode : LockMode
deriving DecidableEq

structure LockState where
  grants : ExtTreeMap LockTarget (List LockGrant) LockTarget.cmp := ∅
  heldByTxn : ExtTreeMap TxnId (ExtTreeMap LockTarget LockMode LockTarget.cmp) := ∅
  waitFor : ExtTreeMap TxnId (List TxnId) := ∅
  waitersPerTarget : ExtTreeMap LockTarget Nat LockTarget.cmp := ∅

/-- The grant of `txn` gets a new mode; a transaction without a grant gets one. -/
def setGrant (txn : TxnId) (mode : LockMode) : List LockGrant → List LockGrant
  | [] => [{ txn, mode }]
  | g :: gs => if g.txn = txn then { g with mode } :: gs else g :: setGrant txn mode gs

def retainOthers (txn : TxnId)
    (grants : ExtTreeMap LockTarget (List LockGrant) LockTarget.cmp) (target : LockTarget) :
    ExtTreeMap LockTarget (List LockGrant) LockTarget.cmp :=
  match grants[target]? with
  | none => grants
  | some gs =>
    let kept := gs.filter (·.txn ≠ txn)
    if kept.isEmpty then grants.erase target else grants.insert target kept

namespace LockState

variable (s : LockState)

def heldMode (txn : TxnId) (target : LockTarget) : Option LockMode :=
  s.heldByTxn[txn]?.bind fun (targets : ExtTreeMap LockTarget LockMode LockTarget.cmp) =>
    targets[target]?

def grantsOn (target : LockTarget) : List LockGrant := s.grants[target]?.getD []

def blockers (txn : TxnId) (target : LockTarget) (mode : LockMode) : List TxnId :=
  ((s.grantsOn target).filter fun g => g.txn ≠ txn && !lockModesCompatible g.mode mode).map (·.txn)

def grant (txn : TxnId) (target : LockTarget) (mode : LockMode) : LockState :=
  { s with
    grants := s.grants.insert target (setGrant txn mode (s.grantsOn target))
    heldByTxn := s.heldByTxn.insert txn ((s.heldByTxn[txn]?.getD ∅).insert target mode)
    waitFor := s.waitFor.erase txn }

def releaseTxn (txn : TxnId) : LockState :=
  { s with
    grants := ((s.heldByTxn[txn]?.getD ∅).keys).foldl (retainOthers txn) s.grants
    heldByTxn := s.heldByTxn.erase txn
    waitFor := (s.waitFor.erase txn).map fun _ blockers => blockers.filter (· ≠ txn) }

def waitsOn (txn : TxnId) : List TxnId := s.waitFor[txn]?.getD []

/-- The walk over the wait-for graph; it pops no more nodes than there are edges. -/
def reachable (start target : TxnId) : Bool :=
  Reach.search s.waitsOn target
    (2 + (s.waitFor.keys.map fun t => (s.waitsOn t).length).sum) [start] []

def wouldDeadlock (waitingTxn : TxnId) (blockers : List TxnId) : Bool :=
  blockers.any (s.reachable · waitingTxn)

def incrementWaiter (target : LockTarget) : LockState :=
  { s with waitersPerTarget :=
      s.waitersPerTarget.insert target (s.waitersPerTarget[target]?.getD 0 + 1) }

def decrementWaiter (target : LockTarget) : LockState :=
  match s.waitersPerTarget[target]? with
  | none => s
  | some count => { s with waitersPerTarget :=
      if count - 1 = 0 then s.waitersPerTarget.erase target
      else s.waitersPerTarget.insert target (count - 1) }

def stopWaiting (txn : TxnId) : LockState := { s with waitFor := s.waitFor.erase txn }

def unpark (parked : Bool) (target : LockTarget) : LockState :=
  if parked then s.decrementWaiter target else s

def park (parked : Bool) (target : LockTarget) : LockState :=
  if parked then s else s.incrementWaiter target

/-- One round of the loop of `acquire`. Without an outcome the caller is parked. -/
def acquireRound (txn : TxnId) (target : LockTarget) (requested : LockMode)
    (parked expired : Bool) : LockState × Option (DbResult Unit) :=
  let held := s.heldMode txn target
  let effective := effectiveMode held requested
  if held = some effective then
    ((s.stopWaiting txn).unpark parked target, some (.ok ()))
  else
    let blockers := s.blockers txn target effective
    if blockers.isEmpty then
      ((s.grant txn target effective).unpark parked target, some (.ok ()))
    else
      let waiting := { s with waitFor := s.waitFor.insert txn blockers }
      if waiting.wouldDeadlock txn blockers then
        ((waiting.stopWaiting txn).unpark parked target, some (.error
          (.transaction .deadlockDetected s!"deadlock detected while waiting on {target.debug}")))
      else if expired then
        ((waiting.stopWaiting txn).unpark parked target, some (.error
          (.transaction .lockNotAvailable s!"lock wait timeout exceeded on {target.debug}")))
      else (waiting.park parked target, none)

/-- A request that is refused, with the given text, where `acquire` would wait. -/
def nowait (txn : TxnId) (target : LockTarget) (requested : LockMode) (refusal : String) :
    LockState × DbResult Unit :=
  let held := s.heldMode txn target
  let effective := effectiveMode held requested
  if held = some effective then (s.stopWaiting txn, .ok ())
  else if (s.blockers txn target effective).isEmpty then
    (s.grant txn target effective, .ok ())
  else (s.stopWaiting txn, .error (.transaction .lockNotAvailable refusal))

def acquireNowait (txn : TxnId) (target : LockTarget) (requested : LockMode) :
    LockState × DbResult Unit :=
  s.nowait txn target requested s!"could not obtain lock on {target.debug}"

def tryAcquireTableLockNowait (txn : TxnId) (tableId : RelationId) (mode : LockMode) :
    LockState × DbResult Unit :=
  s.nowait txn (.table tableId) mode
    s!"lock wait timeout exceeded on {(LockTarget.table tableId).debug}"

end LockState

/-! ## What the operations do to the modes -/

theorem map_txn_setGrant (txn : TxnId) (mode : LockMode) (gs : List LockGrant) :
    (setGrant txn mode gs).map (·.txn) =
      if txn ∈ gs.map (·.txn) then gs.map (·.txn) else gs.map (·.txn) ++ [txn] := by
  induction gs with
  | nil => rfl
  | cons g gs ih =>
    unfold setGrant
    by_cases hg : g.txn = txn
    · simp [hg]
    · simp only [if_neg hg, map_cons, ih, mem_cons, Ne.symm hg, false_or]
      split <;> simp

theorem mem_setGrant {txn : TxnId} {mode : LockMode} {gs : List LockGrant}
    (hnodup : (gs.map (·.txn)).Nodup) {g : LockGrant} :
    g ∈ setGrant txn mode gs ↔ g = ⟨txn, mode⟩ ∨ (g ∈ gs ∧ g.txn ≠ txn) := by
  induction gs with
  | nil => simp [setGrant]
  | cons g0 gs ih =>
    obtain ⟨hnot, hrest⟩ := nodup_cons.mp hnodup
    unfold setGrant
    split
    · next heq =>
      have hothers : ∀ g ∈ gs, g.txn ≠ txn := fun g hg hgt =>
        hnot (mem_map.mpr ⟨g, hg, hgt.trans heq.symm⟩)
      rw [mem_cons, mem_cons, heq]
      refine or_congr_right ⟨fun hg => ⟨.inr hg, hothers g hg⟩, ?_⟩
      rintro ⟨rfl | hg, hne⟩
      · exact absurd heq hne
      · exact hg
    · next hne =>
      rw [mem_cons, ih hrest, mem_cons]
      constructor
      · rintro (rfl | h | ⟨hg, hgt⟩)
        · exact .inr ⟨.inl rfl, hne⟩
        · exact .inl h
        · exact .inr ⟨.inr hg, hgt⟩
      · rintro (h | ⟨rfl | hg, hgt⟩)
        · exact .inr (.inl h)
        · exact .inl rfl
        · exact .inr (.inr ⟨hg, hgt⟩)

theorem getElem?_retainOthers (txn : TxnId)
    (grants : ExtTreeMap LockTarget (List LockGrant) LockTarget.cmp) (target t : LockTarget) :
    (retainOthers txn grants target)[t]?.getD [] =
      if t = target then (grants[t]?.getD []).filter (·.txn ≠ txn) else grants[t]?.getD [] := by
  unfold retainOthers
  by_cases ht : t = target
  · subst ht
    cases hg : grants[t]? with
    | none => simp [hg]
    | some gs =>
      simp only [if_true, Option.getD_some]
      split
      · next hempty => simpa using (isEmpty_iff.mp hempty).symm
      · simp
  · rw [if_neg ht]
    cases hg : grants[target]? with
    | none => rfl
    | some gs =>
      simp only
      split <;> simp [getElem?_erase, ExtTreeMap.getElem?_insert, Ne.symm ht]

theorem getElem?_foldl_retainOthers (txn : TxnId) (targets : List LockTarget)
    (grants : ExtTreeMap LockTarget (List LockGrant) LockTarget.cmp) (t : LockTarget) :
    (targets.foldl (retainOthers txn) grants)[t]?.getD [] =
      if t ∈ targets then (grants[t]?.getD []).filter (·.txn ≠ txn) else grants[t]?.getD [] := by
  induction targets generalizing grants with
  | nil => simp
  | cons target targets ih =>
    rw [foldl_cons, ih, getElem?_retainOthers]
    by_cases ht : t = target <;> by_cases hmem : t ∈ targets <;> simp [ht, hmem]

namespace LockState

variable {s : LockState}

@[simp]
theorem heldMode_grant (txn : TxnId) (target : LockTarget) (mode : LockMode) (u : TxnId)
    (t : LockTarget) :
    (s.grant txn target mode).heldMode u t =
      if u = txn ∧ t = target then some mode else s.heldMode u t := by
  by_cases hu : u = txn
  · subst hu
    by_cases ht : t = target
    · simp [heldMode, grant, ht]
    · cases hh : s.heldByTxn[u]? <;>
        simp [heldMode, grant, ht, hh, ExtTreeMap.getElem?_insert, Ne.symm ht]
  · simp [heldMode, grant, hu, ExtTreeMap.getElem?_insert, Ne.symm hu]

@[simp]
theorem heldMode_releaseTxn (txn u : TxnId) (t : LockTarget) :
    (s.releaseTxn txn).heldMode u t = if u = txn then none else s.heldMode u t := by
  by_cases hu : u = txn <;>
    simp [heldMode, releaseTxn, hu, getElem?_erase, @eq_comm _ txn]

@[simp]
theorem waitFor_releaseTxn (txn u : TxnId) :
    (s.releaseTxn txn).waitFor[u]? =
      if u = txn then none else s.waitFor[u]?.map (·.filter (· ≠ txn)) := by
  by_cases hu : u = txn <;>
    simp [releaseTxn, hu, getElem?_erase, @eq_comm _ txn]

theorem grantsOn_grant (txn : TxnId) (target : LockTarget) (mode : LockMode) (t : LockTarget) :
    (s.grant txn target mode).grantsOn t =
      if t = target then setGrant txn mode (s.grantsOn t) else s.grantsOn t := by
  by_cases ht : t = target
  · subst ht
    simp [grantsOn, grant]
  · simp [grantsOn, grant, ht, ExtTreeMap.getElem?_insert, Ne.symm ht]

/-- The grants of the targets and the modes of the transactions say the same. -/
structure Sound (s : LockState) : Prop where
  mem_grantsOn : ∀ txn target mode,
    ⟨txn, mode⟩ ∈ s.grantsOn target ↔ s.heldMode txn target = some mode
  nodup : ∀ target, ((s.grantsOn target).map (·.txn)).Nodup

theorem sound_empty : Sound {} where
  mem_grantsOn txn target mode := by simp [grantsOn, heldMode]
  nodup target := by simp [grantsOn]

theorem Sound.congr (h : s.Sound) {s' : LockState} (hg : s'.grants = s.grants)
    (hh : s'.heldByTxn = s.heldByTxn) : s'.Sound := by
  refine ⟨fun txn target mode => ?_, fun target => ?_⟩
  · rw [grantsOn, heldMode, hg, hh]
    exact h.mem_grantsOn txn target mode
  · rw [grantsOn, hg]
    exact h.nodup target

theorem Sound.grant (h : s.Sound) (txn : TxnId) (target : LockTarget) (mode : LockMode) :
    (s.grant txn target mode).Sound where
  mem_grantsOn u t m := by
    rw [grantsOn_grant, heldMode_grant]
    by_cases ht : t = target
    · rw [if_pos ht, mem_setGrant (h.nodup t), h.mem_grantsOn]
      by_cases hu : u = txn
      · simp [hu, ht, eq_comm]
      · simp [hu]
    · simp [ht, h.mem_grantsOn]
  nodup t := by
    rw [grantsOn_grant]
    split
    · rw [map_txn_setGrant]
      split
      · exact h.nodup t
      · next hnot =>
        exact nodup_append.mpr ⟨h.nodup t, by simp, fun a ha b hb => by
          rw [mem_singleton.mp hb]
          exact fun heq => hnot (heq ▸ ha)⟩
    · exact h.nodup t

theorem Sound.grantsOn_releaseTxn (h : s.Sound) (txn : TxnId) (t : LockTarget) :
    (s.releaseTxn txn).grantsOn t = (s.grantsOn t).filter (·.txn ≠ txn) := by
  have hfold : (s.releaseTxn txn).grantsOn t =
      if t ∈ (s.heldByTxn[txn]?.getD ∅).keys then (s.grantsOn t).filter (·.txn ≠ txn)
      else s.grantsOn t := getElem?_foldl_retainOthers ..
  rw [hfold]
  split
  · rfl
  next hnot =>
  symm
  rw [filter_eq_self]
  intro g hg
  have hheld := (h.mem_grantsOn g.txn t g.mode).mp hg
  simp only [ne_eq, decide_not, Bool.not_eq_eq_eq_not, Bool.not_true, decide_eq_false_iff_not]
  rintro rfl
  apply hnot
  cases hh : s.heldByTxn[g.txn]? with
  | none => simp [heldMode, hh] at hheld
  | some targets =>
    rw [Option.getD_some, ExtTreeMap.mem_keys, mem_iff_isSome_getElem?]
    have hmode : targets[t]? = some g.mode := by simpa [heldMode, hh] using hheld
    rw [hmode]
    rfl

theorem Sound.releaseTxn (h : s.Sound) (txn : TxnId) : (s.releaseTxn txn).Sound where
  mem_grantsOn u t m := by
    rw [h.grantsOn_releaseTxn, heldMode_releaseTxn, mem_filter, h.mem_grantsOn]
    by_cases hu : u = txn <;> simp [hu]
  nodup t := by
    rw [h.grantsOn_releaseTxn]
    exact (h.nodup t).sublist (filter_sublist.map _)

theorem Sound.mem_blockers (h : s.Sound) {txn u : TxnId} {target : LockTarget} {mode : LockMode} :
    u ∈ s.blockers txn target mode ↔
      u ≠ txn ∧ ∃ m, s.heldMode u target = some m ∧ lockModesCompatible m mode = false := by
  simp only [blockers, mem_map, mem_filter, Bool.and_eq_true, decide_eq_true_eq,
    Bool.not_eq_true', ← h.mem_grantsOn]
  constructor
  · rintro ⟨⟨t, m⟩, ⟨hg, hne, hm⟩, rfl⟩
    exact ⟨hne, m, hg, hm⟩
  · rintro ⟨hne, m, hg, hm⟩
    exact ⟨⟨u, m⟩, ⟨hg, hne, hm⟩, rfl⟩

theorem reachable_iff (start target : TxnId) :
    s.reachable start target = true ↔ ReflTransGen (Reach.Edge s.waitsOn) start target := by
  refine Reach.search_iff s.waitFor.nodup_keys (fun t ht => ?_) (by omega)
  rw [ExtTreeMap.mem_keys, mem_iff_isSome_getElem?]
  by_contra hnone
  simp [waitsOn, Option.not_isSome_iff_eq_none.mp hnone] at ht

theorem wouldDeadlock_iff (txn : TxnId) (blockers : List TxnId) :
    s.wouldDeadlock txn blockers = true ↔
      ∃ b ∈ blockers, ReflTransGen (Reach.Edge s.waitsOn) b txn := by
  simp [wouldDeadlock, reachable_iff]

/-! ## What a round can do -/

abbrev wanted (s : LockState) (txn : TxnId) (target : LockTarget) (requested : LockMode) :
    LockMode :=
  effectiveMode (s.heldMode txn target) requested

abbrev waiting (s : LockState) (txn : TxnId) (blockers : List TxnId) : LockState :=
  { s with waitFor := s.waitFor.insert txn blockers }

/-- The ways a request ends or goes on; the number of waiters is left open. -/
inductive RoundEffect (s : LockState) (txn : TxnId) (target : LockTarget)
    (requested : LockMode) : LockState → Option (DbResult Unit) → Prop
  | held {w} (hheld : s.heldMode txn target = some (s.wanted txn target requested)) :
      RoundEffect s txn target requested { s.stopWaiting txn with waitersPerTarget := w }
        (some (.ok ()))
  | granted {w} (hfree : s.blockers txn target (s.wanted txn target requested) = []) :
      RoundEffect s txn target requested
        { s.grant txn target (s.wanted txn target requested) with waitersPerTarget := w }
        (some (.ok ()))
  | deadlock {w message}
      (hcycle : (s.waiting txn (s.blockers txn target (s.wanted txn target requested))).wouldDeadlock
        txn (s.blockers txn target (s.wanted txn target requested)) = true) :
      RoundEffect s txn target requested { s.stopWaiting txn with waitersPerTarget := w }
        (some (.error (.transaction .deadlockDetected message)))
  | unavailable {w message} :
      RoundEffect s txn target requested { s.stopWaiting txn with waitersPerTarget := w }
        (some (.error (.transaction .lockNotAvailable message)))
  | parked {w}
      (hclear : (s.waiting txn (s.blockers txn target (s.wanted txn target requested))).wouldDeadlock
        txn (s.blockers txn target (s.wanted txn target requested)) = false) :
      RoundEffect s txn target requested
        { s.waiting txn (s.blockers txn target (s.wanted txn target requested)) with
          waitersPerTarget := w } none

theorem unpark_eq (s : LockState) (parked : Bool) (target : LockTarget) :
    ∃ w, s.unpark parked target = { s with waitersPerTarget := w } := by
  unfold unpark decrementWaiter
  split
  · split
    · exact ⟨_, rfl⟩
    · exact ⟨_, rfl⟩
  · exact ⟨_, rfl⟩

theorem park_eq (s : LockState) (parked : Bool) (target : LockTarget) :
    ∃ w, s.park parked target = { s with waitersPerTarget := w } := by
  unfold park incrementWaiter
  split <;> exact ⟨_, rfl⟩

theorem stopWaiting_waiting (s : LockState) (txn : TxnId) (blockers : List TxnId) :
    (s.waiting txn blockers).stopWaiting txn = s.stopWaiting txn := by
  have hsame : (s.waitFor.insert txn blockers).erase txn = s.waitFor.erase txn := by
    refine ext_getElem? fun t => ?_
    by_cases ht : t = txn <;>
      simp [getElem?_erase, ExtTreeMap.getElem?_insert, ht, @eq_comm _ txn]
  simp [stopWaiting, hsame]

theorem acquireRound_effect (s : LockState) (txn : TxnId) (target : LockTarget)
    (requested : LockMode) (parked expired : Bool) :
    RoundEffect s txn target requested
      (s.acquireRound txn target requested parked expired).1
      (s.acquireRound txn target requested parked expired).2 := by
  unfold acquireRound
  simp only
  split
  · next hheld =>
    obtain ⟨w, hw⟩ := unpark_eq (s.stopWaiting txn) parked target
    rw [hw]
    exact .held hheld
  split
  · next hfree =>
    obtain ⟨w, hw⟩ :=
      unpark_eq (s.grant txn target (s.wanted txn target requested)) parked target
    rw [hw]
    exact .granted (isEmpty_iff.mp hfree)
  split
  · next hcycle =>
    obtain ⟨w, hw⟩ := unpark_eq (s.stopWaiting txn) parked target
    rw [stopWaiting_waiting, hw]
    exact .deadlock hcycle
  next hclear =>
  split
  · obtain ⟨w, hw⟩ := unpark_eq (s.stopWaiting txn) parked target
    rw [stopWaiting_waiting, hw]
    exact .unavailable
  · obtain ⟨w, hw⟩ := park_eq
      (s.waiting txn (s.blockers txn target (s.wanted txn target requested))) parked target
    rw [hw]
    exact .parked (Bool.not_eq_true _ ▸ hclear)

theorem nowait_effect (s : LockState) (txn : TxnId) (target : LockTarget) (requested : LockMode)
    (refusal : String) :
    RoundEffect s txn target requested (s.nowait txn target requested refusal).1
      (some (s.nowait txn target requested refusal).2) := by
  unfold nowait
  simp only
  split
  · next hheld => exact .held hheld
  split
  · next hfree => exact .granted (isEmpty_iff.mp hfree)
  · exact .unavailable

end LockState

end AionDb
