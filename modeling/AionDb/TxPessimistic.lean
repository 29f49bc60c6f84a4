import AionDb.TxDistributed
import AionDb.LibRun
import Mathlib.Data.Finset.Basic

/-!
# Pessimistic locks of distributed transactions

A key has one entry: a mode, the owners, the waiters and one expiry for all of
them. `try_lock` grants or queues; `release` promotes the last waiter when the
last owner leaves.

Which locks are held is said by the calls themselves: a lock is held from the
call that granted it, or the release that promoted its waiter, until it is released or a
call on its key reads a clock at or behind its expiry.
-/

namespace AionDb.Pessimistic

open Std ExtTreeMap Function List Option

inductive LockMode where
  | shared
  | exclusive
deriving DecidableEq

structure LockEntry where
  mode : LockMode
  owners : Finset DistributedTxnId := ∅
  waiters : List DistributedTxnId := []
  expiresAtUs : Nat

inductive LockOutcome where
  | granted
  | wait (holders : Finset DistributedTxnId)
deriving DecidableEq

abbrev LockKey := Nat × List UInt8

abbrev lockKeyCmp : LockKey → LockKey → Ordering :=
  compareLex (compareOn Prod.fst) (compareOn Prod.snd)

instance : LawfulEqCmp lockKeyCmp where
  eq_of_compare {a b} h := by
    obtain ⟨h1, h2⟩ := compareLex_eq_eq.mp h
    exact Prod.ext (LawfulEqCmp.eq_of_compare h1) (LawfulEqCmp.eq_of_compare h2)

abbrev LockTable := ExtTreeMap LockKey LockEntry lockKeyCmp

/-! ## One entry -/

namespace LockEntry

variable (e : LockEntry) (txn : DistributedTxnId)

def Expired (now : Nat) : Prop := e.owners ≠ ∅ ∧ e.expiresAtUs ≤ now
deriving Decidable

def clearExpired (now : Nat) : LockEntry :=
  if e.Expired now then { e with owners := ∅, waiters := [] } else e

def lock (mode : LockMode) (expiresAt : Nat) : LockOutcome × LockEntry :=
  if e.owners = ∅ then
    (.granted, { e with mode, owners := {txn}, expiresAtUs := expiresAt })
  else if txn ∈ e.owners then
    -- A second lock of an owner changes the mode for all owners.
    (.granted, { e with
      mode := if mode = .exclusive then .exclusive else e.mode
      expiresAtUs := max e.expiresAtUs expiresAt })
  else if e.mode = .shared ∧ mode = .shared then
    (.granted, { e with
      owners := insert txn e.owners, expiresAtUs := max e.expiresAtUs expiresAt })
  else
    (.wait e.owners, { e with
      waiters := if txn ∈ e.waiters then e.waiters else e.waiters ++ [txn] })

def promotes : Option DistributedTxnId :=
  if e.owners.erase txn = ∅ then e.waiters.getLast? else none

def release : Option LockEntry :=
  if e.owners.erase txn = ∅ then
    match e.waiters.getLast? with
    | some next => some { e with owners := {next}, waiters := e.waiters.dropLast }
    | none => none
  else some { e with owners := e.owners.erase txn }

def releaseAll : Option LockEntry :=
  if txn ∈ e.owners then
    (e.release txn).map fun e => { e with waiters := e.waiters.filter (· ≠ txn) }
  else some { e with waiters := e.waiters.filter (· ≠ txn) }

end LockEntry

/-! ## The manager -/

def expiryOf (now ttl : Nat) : Nat := min (now + ttl) u64Max

def tryLock (m : LockTable) (key : LockKey) (txn : DistributedTxnId) (mode : LockMode)
    (ttl now : Nat) : LockOutcome × LockTable :=
  let entry := m[key]?.getD { mode, expiresAtUs := expiryOf now ttl }
  let r := (entry.clearExpired now).lock txn mode (expiryOf now ttl)
  (r.1, m.insert key r.2)

def release (m : LockTable) (key : LockKey) (txn : DistributedTxnId) : LockTable :=
  match m[key]? with
  | none => m
  | some entry =>
    match entry.release txn with
    | none => m.erase key
    | some entry' => m.insert key entry'

def releaseAll (m : LockTable) (txn : DistributedTxnId) : LockTable × Nat :=
  (m.filterMap fun _ entry => entry.releaseAll txn,
    (m.toList.filter fun entry => txn ∈ entry.2.owners).length)

/-! ## Which locks are held -/

structure Held where
  txn : DistributedTxnId
  mode : LockMode
  expiresAt : Nat
deriving DecidableEq

structure LockSystem where
  table : LockTable := ∅
  held : LockKey → List Held := fun _ => []
  asked : LockKey → List (DistributedTxnId × LockMode) := fun _ => []

inductive LockAction where
  | tryLock (key : LockKey) (txn : DistributedTxnId) (mode : LockMode) (ttl now : Nat)
  | release (key : LockKey) (txn : DistributedTxnId)
  | releaseAll (txn : DistributedTxnId)

/-- The held locks after a `try_lock`: those whose time is not over, and the new one. -/
def heldAfterTry (held : List Held) (outcome : LockOutcome) (txn : DistributedTxnId)
    (mode : LockMode) (expiresAt now : Nat) : List Held :=
  held.filter (now < ·.expiresAt) ++
    if outcome = .granted then [⟨txn, mode, expiresAt⟩] else []

def askedAfterTry (asked : List (DistributedTxnId × LockMode)) (cleared : Bool)
    (outcome : LockOutcome) (txn : DistributedTxnId) (mode : LockMode) :
    List (DistributedTxnId × LockMode) :=
  (if cleared then [] else asked) ++ if outcome = .granted then [] else [(txn, mode)]

/-- The locks after `txn` has left: a promoted waiter holds what it asked for. -/
def heldAfterRelease (held : List Held) (asked : List (DistributedTxnId × LockMode))
    (expiresAt : Nat) (txn : DistributedTxnId) (promoted : Option DistributedTxnId) : List Held :=
  held.filter (·.txn ≠ txn) ++
    (asked.filter fun p => promoted = some p.1).map fun p => ⟨p.1, p.2, expiresAt⟩

def askedAfterRelease (asked : List (DistributedTxnId × LockMode))
    (promoted : Option DistributedTxnId) : List (DistributedTxnId × LockMode) :=
  asked.filter fun p => promoted ≠ some p.1

namespace LockSystem

def cleared (s : LockSystem) (key : LockKey) (now : Nat) : Bool :=
  s.table[key]?.any fun e => e.Expired now

def promoted (s : LockSystem) (key : LockKey) (txn : DistributedTxnId) : Option DistributedTxnId :=
  s.table[key]?.bind (·.promotes txn)

/-- The same for `release_all`, which looks only at the keys the transaction owns. -/
def promotedByAll (s : LockSystem) (key : LockKey) (txn : DistributedTxnId) :
    Option DistributedTxnId :=
  s.table[key]?.bind fun e => if txn ∈ e.owners then e.promotes txn else none

def expiresAt (s : LockSystem) (key : LockKey) : Nat := (s.table[key]?.map (·.expiresAtUs)).getD 0

def step (s : LockSystem) : LockAction → Option LockSystem
  | .tryLock key txn mode ttl now =>
    let r := Pessimistic.tryLock s.table key txn mode ttl now
    some {
      table := r.2
      held := update s.held key (heldAfterTry (s.held key) r.1 txn mode (expiryOf now ttl) now)
      asked := update s.asked key (askedAfterTry (s.asked key) (s.cleared key now) r.1 txn mode) }
  | .release key txn =>
    some {
      table := Pessimistic.release s.table key txn
      held := update s.held key
        (heldAfterRelease (s.held key) (s.asked key) (s.expiresAt key) txn (s.promoted key txn))
      asked := update s.asked key (askedAfterRelease (s.asked key) (s.promoted key txn)) }
  | .releaseAll txn =>
    some {
      table := (Pessimistic.releaseAll s.table txn).1
      held := fun key => heldAfterRelease (s.held key) (s.asked key) (s.expiresAt key) txn
        (s.promotedByAll key txn)
      asked := fun key => (askedAfterRelease (s.asked key) (s.promotedByAll key txn)).filter
        (·.1 ≠ txn) }

/-! ## Two slips -/

/-- An owner does not raise its lock to exclusive beside other owners. -/
def AloneWhenRaised (s : LockSystem) (key : LockKey) (txn : DistributedTxnId) (mode : LockMode)
    (now : Nat) : Prop :=
  ∀ e ∈ s.table[key]?, ¬e.Expired now → txn ∈ e.owners → mode = .exclusive →
    e.mode = .exclusive ∨ e.owners ⊆ {txn}
deriving Decidable

/-- A promoted waiter that asked for an exclusive lock finds an exclusive entry. -/
def PromotedAsAsked (s : LockSystem) (key : LockKey) (promoted : Option DistributedTxnId) : Prop :=
  ∀ e ∈ s.table[key]?, ∀ p ∈ s.asked key, promoted = some p.1 → p.2 = .exclusive →
    e.mode = .exclusive
deriving Decidable

/-- The call is not one of those that grant more than the entry says. -/
def Covered (s : LockSystem) : LockAction → Prop
  | .tryLock key txn mode _ now => s.AloneWhenRaised key txn mode now
  | .release key txn => s.PromotedAsAsked key (s.promoted key txn)
  | .releaseAll txn => ∀ key ∈ s.table.keys, s.PromotedAsAsked key (s.promotedByAll key txn)

instance (s : LockSystem) (a : LockAction) : Decidable (s.Covered a) := by
  cases a <;> unfold Covered <;> infer_instance

/-! ## Exclusion -/

/-- The held locks of a key are those of owners, within the expiry of the entry,
and an exclusive one makes the entry exclusive, which then has one owner. -/
structure KeyInv (e : LockEntry) (held : List Held) : Prop where
  owner : ∀ h ∈ held, h.txn ∈ e.owners ∧ h.expiresAt ≤ e.expiresAtUs
  exclusive : ∀ h ∈ held, h.mode = .exclusive → e.mode = .exclusive
  single : e.mode = .exclusive → ∀ a ∈ e.owners, ∀ b ∈ e.owners, a = b

def Backed : Option LockEntry → List Held → Prop
  | some e, held => KeyInv e held
  | none, held => held = []

def Inv (s : LockSystem) : Prop := ∀ key, Backed s.table[key]? (s.held key)

theorem KeyInv.excludes {e : LockEntry} {held : List Held} (h : KeyInv e held) {a b : Held}
    (ha : a ∈ held) (hb : b ∈ held) (hne : a.txn ≠ b.txn) : a.mode = .shared := by
  cases hmode : a.mode with
  | shared => rfl
  | exclusive =>
    exact absurd (h.single (h.exclusive a ha hmode) _ (h.owner a ha).1 _ (h.owner b hb).1) hne

variable {e : LockEntry} {held : List Held} {asked : List (DistributedTxnId × LockMode)}
  {txn : DistributedTxnId} {mode : LockMode} {now expires : Nat}

theorem KeyInv.clearExpired (h : KeyInv e held) :
    KeyInv (e.clearExpired now) (held.filter (now < ·.expiresAt)) := by
  unfold LockEntry.clearExpired
  split
  · rename_i hexp
    have hnone : held.filter (now < ·.expiresAt) = [] := by
      refine filter_eq_nil_iff.mpr fun a ha => ?_
      have := (h.owner a ha).2
      have := hexp.2
      simp only [decide_eq_true_eq]
      omega
    rw [hnone]
    exact ⟨nofun, nofun, fun _ => nofun⟩
  · exact ⟨fun a ha => h.owner a (mem_of_mem_filter ha),
      fun a ha => h.exclusive a (mem_of_mem_filter ha), h.single⟩

theorem KeyInv.lock (h : KeyInv e held)
    (halone : txn ∈ e.owners → mode = .exclusive → e.mode = .exclusive ∨ e.owners ⊆ {txn}) :
    KeyInv (e.lock txn mode expires).2
      (held ++ if (e.lock txn mode expires).1 = .granted then [⟨txn, mode, expires⟩] else []) := by
  unfold LockEntry.lock
  split
  · -- The first owner.
    rename_i hempty
    have hnone : held = [] := eq_nil_iff_forall_not_mem.mpr fun a ha => by
      have := (h.owner a ha).1
      rw [hempty] at this
      simp at this
    subst hnone
    refine ⟨fun a ha => ?_, fun a ha => ?_, fun _ a ha b hb => ?_⟩
    · rw [if_pos rfl, nil_append, mem_singleton] at ha
      subst ha
      simp
    · rw [if_pos rfl, nil_append, mem_singleton] at ha
      subst ha
      exact id
    · exact (Finset.mem_singleton.mp ha).trans (Finset.mem_singleton.mp hb).symm
  split
  · -- An owner again.
    rename_i hmem
    refine ⟨fun a ha => ?_, fun a ha hmode => ?_, fun hmode a ha b hb => ?_⟩
    · rw [if_pos rfl] at ha
      rcases mem_append.mp ha with ha | ha
      · exact ⟨(h.owner a ha).1, le_max_of_le_left (h.owner a ha).2⟩
      · cases mem_singleton.mp ha
        exact ⟨hmem, le_max_right _ _⟩
    · rw [if_pos rfl] at ha
      rcases mem_append.mp ha with ha | ha
      · simp only [h.exclusive a ha hmode, ite_self]
      · cases mem_singleton.mp ha
        exact if_pos hmode
    · by_cases hex : mode = .exclusive
      · rcases halone hmem hex with hmode' | hsub
        · exact h.single hmode' a ha b hb
        · exact (Finset.mem_singleton.mp (hsub ha)).trans (Finset.mem_singleton.mp (hsub hb)).symm
      · simp only [hex, if_false] at hmode
        exact h.single hmode a ha b hb
  split
  · -- One more shared owner.
    rename_i hshared
    refine ⟨fun a ha => ?_, fun a ha hmode => ?_, fun hmode => ?_⟩
    · rw [if_pos rfl] at ha
      rcases mem_append.mp ha with ha | ha
      · exact ⟨Finset.mem_insert_of_mem (h.owner a ha).1, le_max_of_le_left (h.owner a ha).2⟩
      · cases mem_singleton.mp ha
        exact ⟨Finset.mem_insert_self _ _, le_max_right _ _⟩
    · rw [if_pos rfl] at ha
      rcases mem_append.mp ha with ha | ha
      · exact h.exclusive a ha hmode
      · cases mem_singleton.mp ha
        rw [hshared.2] at hmode
        cases hmode
    · exact absurd (hshared.1.symm.trans hmode) nofun
  · -- A waiter.
    simp only [reduceCtorEq, if_false, append_nil]
    exact ⟨h.owner, h.exclusive, h.single⟩

theorem KeyInv.release (h : KeyInv e held)
    (hasked : ∀ p ∈ asked, e.promotes txn = some p.1 → p.2 = .exclusive → e.mode = .exclusive) :
    Backed (e.release txn) (heldAfterRelease held asked e.expiresAtUs txn (e.promotes txn)) := by
  have howner : ∀ a ∈ held.filter (·.txn ≠ txn), a ∈ held ∧ a.txn ∈ e.owners.erase txn := by
    intro a ha
    rw [mem_filter, decide_eq_true_eq] at ha
    exact ⟨ha.1, Finset.mem_erase.mpr ⟨ha.2, (h.owner a ha.1).1⟩⟩
  unfold LockEntry.release heldAfterRelease
  by_cases hlast : e.owners.erase txn = ∅
  · have hnone : held.filter (·.txn ≠ txn) = [] :=
      eq_nil_iff_forall_not_mem.mpr fun a ha => by
        have := (howner a ha).2
        rw [hlast] at this
        simp at this
    rw [if_pos hlast, hnone, nil_append]
    simp only [LockEntry.promotes, if_pos hlast] at hasked ⊢
    cases hwait : e.waiters.getLast? with
    | none => simp [Backed]
    | some next =>
      rw [hwait] at hasked
      refine ⟨fun a ha => ?_, fun a ha hmode => ?_, fun _ a ha b hb => ?_⟩
      · obtain ⟨p, hp, rfl⟩ := mem_map.mp ha
        have hnext := of_decide_eq_true (mem_filter.mp hp).2
        exact ⟨Finset.mem_singleton.mpr (Option.some.inj hnext).symm, Nat.le_refl _⟩
      · obtain ⟨p, hp, rfl⟩ := mem_map.mp ha
        obtain ⟨hp, hnext⟩ := mem_filter.mp hp
        exact hasked p hp (of_decide_eq_true hnext) hmode
      · exact (Finset.mem_singleton.mp ha).trans (Finset.mem_singleton.mp hb).symm
  · rw [if_neg hlast]
    simp only [LockEntry.promotes, if_neg hlast, reduceCtorEq, decide_false, filter_false,
      map_nil, append_nil]
    exact ⟨fun a ha => ⟨(howner a ha).2, (h.owner a (howner a ha).1).2⟩,
      fun a ha => h.exclusive a (howner a ha).1,
      fun hmode a ha b hb => h.single hmode a (Finset.mem_of_mem_erase ha) b
        (Finset.mem_of_mem_erase hb)⟩

variable {entry : Option LockEntry} {key : LockKey}

theorem Backed.map_waiters (f : List DistributedTxnId → List DistributedTxnId)
    (h : Backed entry held) :
    Backed (entry.map fun e => { e with waiters := f e.waiters }) held := by
  cases entry with
  | none => exact h
  | some e => exact ⟨h.owner, h.exclusive, h.single⟩

theorem KeyInv.releaseAll (h : KeyInv e held)
    (hasked : ∀ p ∈ asked, (if txn ∈ e.owners then e.promotes txn else none) = some p.1 →
      p.2 = .exclusive → e.mode = .exclusive) :
    Backed (e.releaseAll txn)
      (heldAfterRelease held asked e.expiresAtUs txn
        (if txn ∈ e.owners then e.promotes txn else none)) := by
  unfold LockEntry.releaseAll
  split
  · rename_i hmem
    simp only [if_pos hmem] at hasked
    exact (h.release hasked).map_waiters (·.filter (· ≠ txn))
  · simp only [heldAfterRelease, reduceCtorEq, decide_false, filter_false, map_nil, append_nil]
    exact ⟨fun a ha => h.owner a (mem_of_mem_filter ha),
      fun a ha => h.exclusive a (mem_of_mem_filter ha), h.single⟩

/-! ## Every run -/

variable {s s' : LockSystem} {a : LockAction}

theorem inv_init : Inv {} := fun _ => by simp [Backed]

theorem Backed.entryOrNew (h : Backed entry held) :
    KeyInv (entry.getD { mode, expiresAtUs := expires }) held := by
  cases entry with
  | some e => exact h
  | none =>
    cases h
    exact ⟨nofun, nofun, fun _ => nofun⟩

theorem inv_tryLock (hinv : s.Inv) {ttl : Nat} (halone : s.AloneWhenRaised key txn mode now) :
    Backed (Pessimistic.tryLock s.table key txn mode ttl now).2[key]?
      (heldAfterTry (s.held key) (Pessimistic.tryLock s.table key txn mode ttl now).1 txn mode
        (expiryOf now ttl) now) := by
  simp only [Pessimistic.tryLock, getElem?_insert_self, heldAfterTry]
  refine ((hinv key).entryOrNew.clearExpired).lock fun hmem hmode => ?_
  cases hentry : s.table[key]? with
  | none =>
    rw [hentry] at hmem
    simp [LockEntry.clearExpired, LockEntry.Expired] at hmem
  | some e =>
    simp only [hentry, getD_some, LockEntry.clearExpired] at hmem ⊢
    split at hmem
    · simp at hmem
    · rename_i hexp
      rw [if_neg hexp]
      exact halone e hentry hexp hmem hmode

theorem Backed.released {drop : LockEntry → Option LockEntry}
    {next : LockEntry → Option DistributedTxnId} (h : Backed entry held)
    (hdrop : ∀ e ∈ entry, KeyInv e held →
      Backed (drop e) (heldAfterRelease held asked e.expiresAtUs txn (next e))) :
    Backed (entry.bind drop) (heldAfterRelease held asked ((entry.map (·.expiresAtUs)).getD 0) txn
      (entry.bind next)) := by
  cases entry with
  | none =>
    cases h
    simp [Backed, heldAfterRelease]
  | some e => exact hdrop e rfl h

theorem inv_release (hinv : s.Inv) (hasked : s.PromotedAsAsked key (s.promoted key txn)) :
    Backed (Pessimistic.release s.table key txn)[key]?
      (heldAfterRelease (s.held key) (s.asked key) (s.expiresAt key) txn (s.promoted key txn)) := by
  have htable : (Pessimistic.release s.table key txn)[key]? = s.table[key]?.bind (·.release txn) := by
    unfold Pessimistic.release
    cases hentry : s.table[key]? with
    | none => exact hentry
    | some e => cases hrel : e.release txn <;> simp [hrel]
  rw [htable]
  refine (hinv key).released fun e he hkey => hkey.release fun p hp hprom => hasked e he p hp ?_
  rwa [promoted, he]

theorem inv_releaseAll (hinv : s.Inv) (hasked : s.PromotedAsAsked key (s.promotedByAll key txn)) :
    Backed (Pessimistic.releaseAll s.table txn).1[key]?
      (heldAfterRelease (s.held key) (s.asked key) (s.expiresAt key) txn
        (s.promotedByAll key txn)) := by
  simp only [Pessimistic.releaseAll, getElem?_filterMap']
  refine (hinv key).released fun e he hkey => hkey.releaseAll fun p hp hprom => hasked e he p hp ?_
  rwa [promotedByAll, he]

theorem getElem?_release_of_ne {m : LockTable} {k : LockKey} (hne : k ≠ key) :
    (Pessimistic.release m key txn)[k]? = m[k]? := by
  unfold Pessimistic.release
  split
  · rfl
  · split <;> simp [getElem?_erase, ExtTreeMap.getElem?_insert, hne.symm]

theorem step_inv (hinv : s.Inv) (hcov : s.Covered a) (hstep : s.step a = some s') : s'.Inv := by
  cases a with (cases hstep)
  | tryLock key txn mode ttl now =>
    intro k
    by_cases hk : k = key
    · subst hk
      simpa only [update_self] using inv_tryLock hinv hcov
    · simpa [update_of_ne hk, Pessimistic.tryLock, ExtTreeMap.getElem?_insert,
        Ne.symm hk] using hinv k
  | release key txn =>
    intro k
    by_cases hk : k = key
    · subst hk
      simpa only [update_self] using inv_release hinv hcov
    · simpa only [update_of_ne hk, getElem?_release_of_ne hk] using hinv k
  | releaseAll txn =>
    intro k
    refine inv_releaseAll hinv fun e he => ?_
    exact hcov k (mem_keys.mpr (mem_iff_isSome_getElem?.mpr (by rw [he]; rfl))) e he

/-- Two locks that different transactions hold on a key are both shared, as long as no
owner raises its lock beside others and no waiter is promoted beyond the mode of
the entry. -/
theorem held_locks_exclude {as : List LockAction} (hrun : Run.run step {} as = some s)
    (hcov : Run.Along step Covered {} as) {key : LockKey} {a b : Held} (ha : a ∈ s.held key)
    (hb : b ∈ s.held key) (hne : a.txn ≠ b.txn) : a.mode = .shared ∧ b.mode = .shared := by
  have hinv : s.Inv := Run.run_preserves_along step_inv inv_init hcov hrun
  have hkey := hinv key
  cases hentry : s.table[key]? with (rw [hentry] at hkey)
  | none => simp [show s.held key = [] from hkey] at ha
  | some e => exact ⟨hkey.excludes ha hb hne, hkey.excludes hb ha hne.symm⟩

def txnA : DistributedTxnId := ⟨1, .zero, 1⟩
def txnB : DistributedTxnId := ⟨1, .zero, 2⟩
def txnC : DistributedTxnId := ⟨1, .zero, 3⟩

/-- An exclusive lock passes to a waiter, is released, and then two share the key. -/
def handedOn : List LockAction :=
  [.tryLock (0, [7]) txnA .exclusive 100 0, .tryLock (0, [7]) txnB .exclusive 100 0,
    .release (0, [7]) txnA, .release (0, [7]) txnB,
    .tryLock (0, [7]) txnA .shared 100 1, .tryLock (0, [7]) txnB .shared 100 2]

theorem held_locks_exclude_handedOn :
    ⟨txnA, .shared, 101⟩ ∈ (Run.after step {} handedOn).held (0, [7]) ∧
    ⟨txnB, .shared, 102⟩ ∈ (Run.after step {} handedOn).held (0, [7]) ∧
    (Held.mk txnA .shared 101).mode = .shared ∧ (Held.mk txnB .shared 102).mode = .shared := by
  have ha : ⟨txnA, .shared, 101⟩ ∈ (Run.after step {} handedOn).held (0, [7]) := by
    decide +kernel
  have hb : ⟨txnB, .shared, 102⟩ ∈ (Run.after step {} handedOn).held (0, [7]) := by
    decide +kernel
  exact ⟨ha, hb, held_locks_exclude (Run.run_eq_some_after (by decide +kernel))
    (by decide +kernel) ha hb (by decide)⟩

/-- An owner raises its lock beside another one; and a waiter for an exclusive lock is
promoted on an entry that stays shared, beside which a shared lock is then granted. -/
theorem exclusive_beside_shared :
    ((Run.after step {} [.tryLock (0, [7]) txnA .shared 100 0,
      .tryLock (0, [7]) txnB .shared 100 0, .tryLock (0, [7]) txnA .exclusive 100 1]).held (0, [7]) =
        [⟨txnA, .shared, 100⟩, ⟨txnB, .shared, 100⟩, ⟨txnA, .exclusive, 101⟩]) ∧
    ((Run.after step {} [.tryLock (0, [7]) txnA .shared 100 0,
      .tryLock (0, [7]) txnB .exclusive 100 0, .release (0, [7]) txnA,
      .tryLock (0, [7]) txnC .shared 100 1]).held (0, [7]) =
        [⟨txnB, .exclusive, 100⟩, ⟨txnC, .shared, 101⟩]) := by
  decide +kernel

end LockSystem

end AionDb.Pessimistic
