import AionDb.LibRun
import AionDb.TxLock

/-!
# Deadlock detection in a shard

A transaction is in at most one call; a parked one may be woken at any time.

A transaction that is parked waits for everyone who holds a mode its own does
not go with: these are the true edges, `Waits`. The wait-for graph holds the
edges that were true when the transaction parked. `Inv` relates the two: the
recorded edges of a transaction that holds a lock are the true ones, and they
close no cycle. What keeps them true while others are granted locks is
`GrantIsRecorded`.
-/

namespace AionDb

open Std Relation ExtTreeMap Option

structure LockShard where
  state : LockState := {}
  parked : ExtTreeMap TxnId (LockTarget × LockMode) := ∅

inductive LockAction where
  | acquire (txn : TxnId) (target : LockTarget) (requested : LockMode) (expired : Bool)
  | wake (txn : TxnId) (expired : Bool)
  | acquireNowait (txn : TxnId) (target : LockTarget) (requested : LockMode)
  | releaseTxn (txn : TxnId)

namespace LockShard

/-- The caller is parked when its round ended without an outcome, and not otherwise. -/
def settle (s : LockShard) (txn : TxnId) (target : LockTarget) (requested : LockMode)
    (round : LockState × Option (DbResult Unit)) : LockShard :=
  { state := round.1
    parked :=
      if round.2.isSome then s.parked.erase txn else s.parked.insert txn (target, requested) }

def step (s : LockShard) : LockAction → Option LockShard
  | .acquire txn target requested expired =>
    if s.parked.contains txn then none
    else some (s.settle txn target requested
      (s.state.acquireRound txn target requested false expired))
  | .wake txn expired => do
    let (target, requested) ← s.parked[txn]?
    some (s.settle txn target requested (s.state.acquireRound txn target requested true expired))
  | .acquireNowait txn target requested =>
    if s.parked.contains txn then none
    else
      let r := s.state.acquireNowait txn target requested
      some (s.settle txn target requested (r.1, some r.2))
  | .releaseTxn txn => some { s with state := s.state.releaseTxn txn }

def request? (s : LockShard) : LockAction → Option (TxnId × LockTarget × LockMode)
  | .acquire txn target requested _ | .acquireNowait txn target requested =>
    some (txn, target, requested)
  | .wake txn _ => s.parked[txn]?.map fun r => (txn, r.1, r.2)
  | .releaseTxn _ => none

/-- `u` is parked for a mode that does not go with one `v` holds. -/
def Waits (s : LockShard) (u v : TxnId) : Prop :=
  ∃ target requested, s.parked[u]? = some (target, requested) ∧
    v ∈ s.state.blockers u target (s.state.wanted u target requested)

abbrev Recorded (s : LockShard) : TxnId → TxnId → Prop := Reach.Edge s.state.waitsOn

/-- A granted lock stands in the way of a parked transaction exactly when the wait-for graph
has the edge. -/
def GrantIsRecorded (s : LockShard) (a : LockAction) : Prop :=
  ∀ r ∈ s.request? a,
    s.state.blockers r.1 r.2.1 (s.state.wanted r.1 r.2.1 r.2.2) = [] →
    ∀ p ∈ s.parked.toList, p.1 ≠ r.1 → p.2.1 = r.2.1 →
      ∀ recorded ∈ s.state.waitFor[p.1]?,
        (lockModesCompatible (s.state.wanted r.1 r.2.1 r.2.2)
          (s.state.wanted p.1 p.2.1 p.2.2) = false ↔ r.1 ∈ recorded)
deriving Decidable

def HoldsNothing (s : LockShard) (txn : TxnId) : Prop :=
  ∀ target, s.state.heldMode txn target = none

structure Inv (s : LockShard) : Prop where
  sound : s.state.Sound
  /-- The recorded edges of a parked transaction are the true ones, or it blocks nobody. -/
  exact_edges : ∀ u target requested, s.parked[u]? = some (target, requested) →
    (s.state.waitFor[u]? = none ∧ s.HoldsNothing u) ∨
    ∃ recorded, s.state.waitFor[u]? = some recorded ∧
      ∀ v, v ∈ recorded ↔ v ∈ s.state.blockers u target (s.state.wanted u target requested)
  waiting_parked : ∀ u, u ∈ s.state.waitFor → u ∈ s.parked
  acyclic : ∀ u, ¬TransGen s.Recorded u u

theorem inv_init : Inv {} where
  sound := LockState.sound_empty
  exact_edges u target requested h := by simp at h
  waiting_parked u h := by simp at h
  acyclic u h := by
    obtain ⟨v, hv, -⟩ := TransGen.head'_iff.mp h
    have hnone : v ∈ (∅ : ExtTreeMap TxnId (List TxnId))[u]?.getD [] := hv
    simp at hnone

variable {s : LockShard} {st : LockState} {txn u v : TxnId} {target : LockTarget}
  {requested : LockMode}

theorem mem_blockers_congr {st' : LockState} (hst : st.Sound) (hst' : st'.Sound)
    (hu : st'.heldMode u target = st.heldMode u target)
    (hv : st'.heldMode v target = st.heldMode v target) :
    v ∈ st'.blockers u target (st'.wanted u target requested) ↔
      v ∈ st.blockers u target (st.wanted u target requested) := by
  rw [hst.mem_blockers, hst'.mem_blockers, LockState.wanted, LockState.wanted, hu, hv]

theorem recorded_of_waitFor {recorded : List TxnId} (h : s.state.waitFor[u]? = some recorded) :
    s.Recorded u v ↔ v ∈ recorded := by
  simp [Recorded, Reach.Edge, LockState.waitsOn, h]

theorem exists_waitFor_of_recorded (h : s.Recorded u v) :
    ∃ recorded, s.state.waitFor[u]? = some recorded ∧ v ∈ recorded := by
  cases hw : s.state.waitFor[u]? with
  | none => simp [Recorded, Reach.Edge, LockState.waitsOn, hw] at h
  | some recorded => exact ⟨recorded, rfl, (recorded_of_waitFor hw).mp h⟩

section

variable (hi : s.Inv)
include hi

theorem Inv.leave (hsound : st.Sound) (hwait : st.waitFor = s.state.waitFor.erase txn)
    (hheld : ∀ u target, u ≠ txn → st.heldMode u target = s.state.heldMode u target)
    (hedge : ∀ u target requested recorded, u ≠ txn → s.parked[u]? = some (target, requested) →
      s.state.waitFor[u]? = some recorded →
      (txn ∈ recorded ↔ txn ∈ st.blockers u target (st.wanted u target requested))) :
    Inv { state := st, parked := s.parked.erase txn } := by
  have hwaitFor : ∀ u, st.waitFor[u]? = if u = txn then none else s.state.waitFor[u]? := by
    intro u
    rw [hwait, getElem?_erase]
    by_cases hu : u = txn <;> simp [hu, @eq_comm _ txn]
  refine ⟨hsound, fun u target requested hu => ?_, fun u hu => ?_, fun u hcycle => ?_⟩
  · rw [getElem?_erase] at hu
    have hne : u ≠ txn := fun heq => by simp [heq] at hu
    have hpark : s.parked[u]? = some (target, requested) := by simpa [Ne.symm hne] using hu
    rw [hwaitFor, if_neg hne]
    rcases hi.exact_edges u target requested hpark with ⟨hnone, hnothing⟩ | ⟨recorded, hrec, hex⟩
    · exact .inl ⟨hnone, fun t => (hheld u t hne).trans (hnothing t)⟩
    · refine .inr ⟨recorded, hrec, fun v => ?_⟩
      by_cases hv : v = txn
      · subst hv
        exact hedge u target requested recorded hne hpark hrec
      · rw [hex, mem_blockers_congr hi.sound hsound (hheld u target hne) (hheld v target hv)]
  · have hu : (st.waitFor[u]?).isSome = true := mem_iff_isSome_getElem?.mp hu
    rw [hwaitFor] at hu
    split at hu
    · cases hu
    · next hne =>
      have hmem := hi.waiting_parked u (mem_iff_isSome_getElem?.mpr hu)
      rw [mem_erase]
      exact ⟨fun heq => hne (LawfulEqCmp.eq_of_compare heq).symm, hmem⟩
  · refine hi.acyclic u (TransGen.mono (fun a b hab => ?_) u u hcycle)
    obtain ⟨recorded, hrec, hb⟩ := exists_waitFor_of_recorded hab
    have hrec : st.waitFor[a]? = some recorded := hrec
    rw [hwaitFor] at hrec
    split at hrec
    · cases hrec
    · exact (recorded_of_waitFor hrec).mpr hb

theorem Inv.park {w}
    (hclear : (s.state.waiting txn
        (s.state.blockers txn target (s.state.wanted txn target requested))).wouldDeadlock txn
      (s.state.blockers txn target (s.state.wanted txn target requested)) = false) :
    Inv {
      state := { s.state.waiting txn
        (s.state.blockers txn target (s.state.wanted txn target requested)) with
        waitersPerTarget := w }
      parked := s.parked.insert txn (target, requested) } := by
  generalize hb : s.state.blockers txn target (s.state.wanted txn target requested) = bs at *
  have hwaitFor : ∀ u, (s.state.waiting txn bs).waitFor[u]? =
      if u = txn then some bs else s.state.waitFor[u]? := by
    intro u
    by_cases hu : u = txn <;> simp [hu, getElem?_insert, @eq_comm _ txn]
  refine ⟨hi.sound.congr rfl rfl, fun u t m hu => ?_, fun u hu => ?_, ?_⟩
  · have hrec := hwaitFor u
    by_cases hne : u = txn
    · subst hne
      rw [getElem?_insert_self] at hu
      cases hu
      rw [if_pos rfl] at hrec
      exact .inr ⟨bs, hrec, fun v => by rw [← hb]; rfl⟩
    · rw [getElem?_insert, if_neg fun heq => hne (LawfulEqCmp.eq_of_compare heq).symm] at hu
      rw [if_neg hne] at hrec
      rcases hi.exact_edges u t m hu with ⟨hnone, hnothing⟩ | ⟨recorded, hr, hex⟩
      · exact .inl ⟨hrec.trans hnone, hnothing⟩
      · exact .inr ⟨recorded, hrec.trans hr, hex⟩
  · rw [mem_insert] at hu ⊢
    exact hu.imp id (hi.waiting_parked u)
  · refine Reach.acyclic_of_newEdges (R := s.Recorded) (a := txn) ?_ hi.acyclic ?_
    · intro x y hx hxy
      obtain ⟨recorded, hrec, hy⟩ := exists_waitFor_of_recorded hxy
      exact (recorded_of_waitFor (((hwaitFor x).trans (if_neg hx)).symm.trans hrec)).mpr hy
    · intro b htb hback
      obtain ⟨recorded, hrec, hmem⟩ := exists_waitFor_of_recorded htb
      have hbs : recorded = bs := by
        have := ((hwaitFor txn).trans (if_pos rfl)).symm.trans hrec
        exact (Option.some.inj this).symm
      have hdead : (s.state.waiting txn bs).wouldDeadlock txn bs = true :=
        (LockState.wouldDeadlock_iff txn bs).mpr ⟨b, hbs ▸ hmem, hback⟩
      rw [hclear] at hdead
      cases hdead

theorem Inv.releaseTxn (txn : TxnId) : Inv { s with state := s.state.releaseTxn txn } := by
  refine ⟨hi.sound.releaseTxn txn, fun u target requested hu => ?_, fun u hu => ?_,
    fun u hcycle => ?_⟩
  · rw [LockState.waitFor_releaseTxn]
    by_cases hne : u = txn
    · subst hne
      exact .inl ⟨if_pos rfl, fun t => by simp⟩
    rw [if_neg hne]
    rcases hi.exact_edges u target requested hu with ⟨hnone, hnothing⟩ | ⟨recorded, hrec, hex⟩
    · exact .inl ⟨by rw [hnone]; rfl, fun t => by simp [hne, hnothing t]⟩
    · refine .inr ⟨recorded.filter (· ≠ txn), by rw [hrec]; rfl, fun v => ?_⟩
      rw [List.mem_filter, hex, hi.sound.mem_blockers, (hi.sound.releaseTxn txn).mem_blockers,
        LockState.wanted, LockState.wanted]
      by_cases hv : v = txn <;> simp [hne, hv]
  · have hu : ((s.state.releaseTxn txn).waitFor[u]?).isSome = true :=
      mem_iff_isSome_getElem?.mp hu
    rw [LockState.waitFor_releaseTxn] at hu
    split at hu
    · cases hu
    · rw [isSome_map] at hu
      exact hi.waiting_parked u (mem_iff_isSome_getElem?.mpr hu)
  · refine hi.acyclic u (TransGen.mono (fun a b hab => ?_) u u hcycle)
    obtain ⟨recorded, hrec, hb⟩ := exists_waitFor_of_recorded hab
    have hrec : (s.state.releaseTxn txn).waitFor[a]? = some recorded := hrec
    rw [LockState.waitFor_releaseTxn] at hrec
    split at hrec
    · cases hrec
    · obtain ⟨old, hold, rfl⟩ := map_eq_some_iff.mp hrec
      exact (recorded_of_waitFor hold).mpr (List.mem_filter.mp hb).1

theorem Inv.settle {out : Option (DbResult Unit)} {a : LockAction} (hrecorded : s.GrantIsRecorded a)
    (hreq : s.request? a = some (txn, target, requested))
    (heffect : s.state.RoundEffect txn target requested st out) :
    (s.settle txn target requested (st, out)).Inv := by
  have hstop {w} : Inv {
      state := { s.state.stopWaiting txn with waitersPerTarget := w }
      parked := s.parked.erase txn } := by
    refine hi.leave (hi.sound.congr rfl rfl) rfl (fun u t _ => rfl) ?_
    intro u t m recorded _ hpark hrec
    rcases hi.exact_edges u t m hpark with ⟨hnone, -⟩ | ⟨recorded', hrec', hex⟩
    · rw [hnone] at hrec
      cases hrec
    · cases hrec.symm.trans hrec'
      exact hex txn
  cases heffect with
  | held hheld => exact hstop
  | deadlock hcycle => exact hstop
  | unavailable => exact hstop
  | parked hclear => exact hi.park hclear
  | granted hfree =>
    -- the caller's mode is new on the target, so its edges there are the condition's
    have hsound := hi.sound.grant txn target (s.state.wanted txn target requested)
    refine hi.leave (hsound.congr rfl rfl) rfl
      (fun u t hu => (LockState.heldMode_grant ..).trans (if_neg fun heq => hu heq.1)) ?_
    intro u t m recorded hu hpark hrec
    have hmodes := LockState.heldMode_grant (s := s.state) txn target
      (s.state.wanted txn target requested)
    by_cases ht : t = target
    · subst ht
      have hblocks := @LockState.Sound.mem_blockers _ hsound u txn t (s.state.wanted u t m)
      rw [hmodes, if_pos ⟨rfl, rfl⟩] at hblocks
      have hwants : (s.state.grant txn t (s.state.wanted txn t requested)).wanted u t m =
          s.state.wanted u t m := by
        rw [LockState.wanted, hmodes, if_neg fun heq => hu heq.1]
      rw [← hrecorded _ hreq hfree (u, t, m) (mem_toList_iff_getElem?_eq_some.mpr hpark) hu rfl
        recorded hrec]
      refine Iff.trans ?_ (hwants ▸ hblocks.symm)
      simp [Ne.symm hu, hwants]
    · rcases hi.exact_edges u t m hpark with ⟨hnone, -⟩ | ⟨recorded', hrec', hex⟩
      · rw [hnone] at hrec
        cases hrec
      · cases hrec.symm.trans hrec'
        rw [hex]
        exact (mem_blockers_congr hi.sound hsound
          ((hmodes u t).trans (if_neg fun heq => ht heq.2))
          ((hmodes txn t).trans (if_neg fun heq => ht heq.2))).symm

theorem Inv.step {a : LockAction} (hrecorded : s.GrantIsRecorded a) {s' : LockShard}
    (hstep : s.step a = some s') : s'.Inv := by
  cases a with
  | acquire txn target requested expired =>
    simp only [LockShard.step] at hstep
    split at hstep
    · cases hstep
    · cases hstep
      exact hi.settle hrecorded rfl (LockState.acquireRound_effect ..)
  | wake txn expired =>
    simp only [LockShard.step, bind_eq_bind, bind_eq_some_iff] at hstep
    obtain ⟨⟨target, requested⟩, hpark, hstep⟩ := hstep
    cases hstep
    exact hi.settle hrecorded (by simp [request?, hpark]) (LockState.acquireRound_effect ..)
  | acquireNowait txn target requested =>
    simp only [LockShard.step] at hstep
    split at hstep
    · cases hstep
    · cases hstep
      exact hi.settle hrecorded rfl (LockState.nowait_effect ..)
  | releaseTxn txn =>
    cases hstep
    exact hi.releaseTxn txn

/-! ## Cycles -/

theorem Waits.not_holdsNothing (h : s.Waits u v) : ¬s.HoldsNothing v := by
  obtain ⟨target, requested, -, hv⟩ := h
  obtain ⟨-, m, hm, -⟩ := hi.sound.mem_blockers.mp hv
  intro hnothing
  rw [hnothing target] at hm
  cases hm

theorem Waits.recorded (h : s.Waits u v) (hu : ¬s.HoldsNothing u) : s.Recorded u v := by
  obtain ⟨target, requested, hpark, hv⟩ := h
  rcases hi.exact_edges u target requested hpark with ⟨-, hnothing⟩ | ⟨recorded, hrec, hex⟩
  · exact absurd hnothing hu
  · exact (recorded_of_waitFor hrec).mpr ((hex v).mpr hv)

theorem Inv.no_cycle (u : TxnId) : ¬TransGen s.Waits u u := by
  intro hcycle
  -- every transaction of a cycle is waited for, so it holds something
  have hholds : ¬s.HoldsNothing u := by
    obtain ⟨v, -, hv⟩ := TransGen.tail'_iff.mp hcycle
    exact hv.not_holdsNothing hi
  have hwalk : ∀ v, TransGen s.Waits u v → TransGen s.Recorded u v ∧ ¬s.HoldsNothing v := by
    intro v hv
    induction hv with
    | single h => exact ⟨.single (h.recorded hi hholds), h.not_holdsNothing hi⟩
    | tail _ h ih => exact ⟨ih.1.tail (h.recorded hi ih.2), h.not_holdsNothing hi⟩
  exact hi.acyclic u (hwalk u hcycle).1

theorem Inv.cycle_of_wouldDeadlock (hdead : (s.state.waiting txn
        (s.state.blockers txn target (s.state.wanted txn target requested))).wouldDeadlock txn
      (s.state.blockers txn target (s.state.wanted txn target requested)) = true) :
    TransGen (Waits { s with parked := s.parked.insert txn (target, requested) }) txn txn := by
  obtain ⟨b, hb, hpath⟩ := (LockState.wouldDeadlock_iff ..).mp hdead
  have hfirst : Waits { s with parked := s.parked.insert txn (target, requested) } txn b :=
    ⟨target, requested, getElem?_insert_self, hb⟩
  refine .head' hfirst (ReflTransGen.mono (fun u v huv => ?_) b txn hpath)
  by_cases hu : u = txn
  · subst hu
    refine ⟨target, requested, getElem?_insert_self, ?_⟩
    simpa [Reach.Edge, LockState.waitsOn] using huv
  · have hold : v ∈ s.state.waitFor[u]?.getD [] := by
      simpa [Reach.Edge, LockState.waitsOn, getElem?_insert, Ne.symm hu] using huv
    obtain ⟨recorded, hrec, hv⟩ := exists_waitFor_of_recorded hold
    have hmem := hi.waiting_parked u (mem_iff_isSome_getElem?.mpr (by rw [hrec]; rfl))
    obtain ⟨⟨t, m⟩, hpark⟩ :=
      isSome_iff_exists.mp (mem_iff_isSome_getElem?.mp hmem)
    rcases hi.exact_edges u t m hpark with ⟨hnone, -⟩ | ⟨recorded', hrec', hex⟩
    · rw [hnone] at hrec
      cases hrec
    · cases hrec.symm.trans hrec'
      refine ⟨t, m, ?_, (hex v).mp hv⟩
      rw [getElem?_insert, if_neg fun heq => hu (LawfulEqCmp.eq_of_compare heq).symm]
      exact hpark

end

/-- In every state that granted locks reach without changing who blocks the parked
transactions, nobody is in a cycle, and a deadlock is reported only when parking would make
one. -/
theorem deadlock_detection_exact {actions : List LockAction} {s : LockShard}
    (hrecorded : Run.Along step GrantIsRecorded {} actions)
    (hrun : Run.run step {} actions = some s) :
    (∀ u, ¬TransGen s.Waits u u) ∧
    ∀ txn target requested parked expired message,
      (s.state.acquireRound txn target requested parked expired).2 =
        some (.error (.transaction .deadlockDetected message)) →
      TransGen (Waits { s with parked := s.parked.insert txn (target, requested) }) txn txn := by
  have hi : s.Inv :=
    Run.run_preserves_along (fun hi hP hs => hi.step hP hs) inv_init hrecorded hrun
  refine ⟨hi.no_cycle, fun txn target requested parked expired message hout => ?_⟩
  have heffect := s.state.acquireRound_effect txn target requested parked expired
  rw [hout] at heffect
  generalize (s.state.acquireRound txn target requested parked expired).1 = st at heffect
  cases heffect with
  | deadlock hcycle => exact hi.cycle_of_wouldDeadlock hcycle

def crossedUpdates : List LockAction :=
  [.acquire 1 (.tuple 7 1) .update false, .acquire 2 (.tuple 7 2) .update false,
   .acquire 1 (.tuple 7 2) .update false]

theorem deadlock_detection_exact_crossed :
    TransGen (Waits { Run.after step {} crossedUpdates with
      parked := (Run.after step {} crossedUpdates).parked.insert 2 (.tuple 7 1, .update) }) 2 2 :=
  (deadlock_detection_exact (by decide +kernel : Run.Along step GrantIsRecorded {} crossedUpdates)
    (Run.run_eq_some_after (by decide +kernel))).2 2 (.tuple 7 1) .update false false _
      (by decide +kernel : _ = some (Except.error (DbError.transaction .deadlockDetected
        s!"deadlock detected while waiting on {(LockTarget.tuple 7 1).debug}")))

/-- Transaction 1 parks behind 2; then 3 is granted the same lock as 2, and parks behind 1. -/
def overtakenWaiter : List LockAction :=
  [.acquire 1 (.tuple 7 1) .update false, .acquire 2 (.table 7) .accessShare false,
   .acquire 1 (.table 7) .accessExclusive false, .acquire 3 (.table 7) .accessShare false,
   .acquire 3 (.tuple 7 1) .update false]

theorem undetected_cycle_behind_late_grant :
    ∃ s, Run.run step {} overtakenWaiter = some s ∧ TransGen s.Waits 1 1 := by
  refine ⟨_, Run.run_eq_some_after (by decide +kernel), ?_⟩
  have hfirst : (Run.after step {} overtakenWaiter).Waits 1 3 :=
    ⟨.table 7, .accessExclusive, by decide +kernel, by decide +kernel⟩
  have hback : (Run.after step {} overtakenWaiter).Waits 3 1 :=
    ⟨.tuple 7 1, .update, by decide +kernel, by decide +kernel⟩
  exact .head hfirst (.single hback)

end LockShard

end AionDb
