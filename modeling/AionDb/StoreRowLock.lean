import AionDb.Core
import AionDb.LibModes
import AionDb.LibRun
import Mathlib.Data.Finset.Sort

/-!
# The lock table of the storage engine

Split-phase writes take an intent lock on the table and a lock on the row. The
table keeps one mode for a transaction and a key, the one that is greatest in
the order of the enumeration. Rows have two modes and the order is that of
their strength; of the intent modes, IX and S are ordered although neither keeps
away all that the other does.
-/

namespace AionDb.RowLocks

open Function

inductive RowLockMode where
  | shared
  | exclusive
deriving DecidableEq

inductive IntentLockMode where
  | intentShared
  | intentExclusive
  | shared
  | exclusive
deriving DecidableEq

def RowLockMode.rank : RowLockMode → Nat
  | shared => 0
  | exclusive => 1

def IntentLockMode.rank : IntentLockMode → Nat
  | intentShared => 0
  | intentExclusive => 1
  | shared => 2
  | exclusive => 3

def RowLockMode.compatible (granted requested : RowLockMode) : Bool :=
  granted = .shared ∧ requested = .shared

def IntentLockMode.compatible : IntentLockMode → IntentLockMode → Bool
  | .intentShared, .intentShared | .intentExclusive, .intentShared | .shared, .intentShared
  | .intentShared, .intentExclusive | .intentExclusive, .intentExclusive
  | .intentShared, .shared | .shared, .shared => true
  | _, _ => false

structure Grant (M : Type) where
  txn : TxnId
  mode : M
deriving DecidableEq

variable {K M : Type}

def upgrade (rank : M → Nat) (txn : TxnId) (mode : M) : List (Grant M) → List (Grant M)
  | [] => [⟨txn, mode⟩]
  | g :: gs =>
    if g.txn = txn then (if rank g.mode < rank mode then ⟨g.txn, mode⟩ else g) :: gs
    else g :: upgrade rank txn mode gs

structure Locks (K M : Type) where
  grants : K → List (Grant M) := fun _ => []
  byTxn : TxnId → Finset K := fun _ => ∅

namespace Locks

variable [DecidableEq K] (l : Locks K M)

def canGrant (compatible : M → M → Bool) (txn : TxnId) (key : K) (mode : M) : Bool :=
  (l.grants key).all fun g => g.txn = txn || compatible g.mode mode

def grant (rank : M → Nat) (txn : TxnId) (key : K) (mode : M) : Locks K M where
  grants := update l.grants key (upgrade rank txn mode (l.grants key))
  byTxn := update l.byTxn txn (insert key (l.byTxn txn))

def releaseTxn (txn : TxnId) : Locks K M where
  grants := fun key =>
    if key ∈ l.byTxn txn then (l.grants key).filter (·.txn ≠ txn) else l.grants key
  byTxn := update l.byTxn txn ∅

def blockers (compatible : M → M → Bool) (txn : TxnId) (key : K) (mode : M) : Finset TxnId :=
  (((l.grants key).filter fun g => g.txn ≠ txn && !compatible g.mode mode).map (·.txn)).toFinset

def held (key : K) (txn : TxnId) : Option M :=
  ((l.grants key).find? (·.txn = txn)).map (·.mode)

end Locks

structure RowLockTable where
  tables : Locks RelationId IntentLockMode := {}
  rows : Locks TupleKey RowLockMode := {}

inductive LockCall where
  | tryAcquireTableLock (txn : TxnId) (tableId : RelationId) (mode : IntentLockMode)
  | acquireTableLock (txn : TxnId) (tableId : RelationId) (mode : IntentLockMode)
  | tryAcquireRowLock (txn : TxnId) (key : TupleKey) (mode : RowLockMode)
  | acquireRowLock (txn : TxnId) (key : TupleKey) (mode : RowLockMode)
  | releaseTxn (txn : TxnId)

namespace RowLockTable

def showTxns (txns : Finset TxnId) : String :=
  ", ".intercalate ((txns.sort (· ≤ ·)).map fun txn => s!"TxnId({txn})")

def tryAcquireTableLock (t : RowLockTable) (txn : TxnId) (tableId : RelationId)
    (mode : IntentLockMode) : Bool × RowLockTable :=
  if t.tables.canGrant IntentLockMode.compatible txn tableId mode then
    (true, { t with tables := t.tables.grant IntentLockMode.rank txn tableId mode })
  else (false, t)

def acquireTableLock (t : RowLockTable) (txn : TxnId) (tableId : RelationId)
    (mode : IntentLockMode) : DbResult Unit × RowLockTable :=
  let r := t.tryAcquireTableLock txn tableId mode
  if r.1 then (.ok (), r.2)
  else
    let blockers := showTxns (t.tables.blockers IntentLockMode.compatible txn tableId mode)
    (.error (.internalMsg (s!"table lock conflict on RelationId({tableId}): " ++
      s!"blocked by transactions \x7b{blockers}\x7d")), t)

def tryAcquireRowLock (t : RowLockTable) (txn : TxnId) (key : TupleKey) (mode : RowLockMode) :
    Bool × RowLockTable :=
  if t.rows.canGrant RowLockMode.compatible txn key mode then
    (true, { t with rows := t.rows.grant RowLockMode.rank txn key mode })
  else (false, t)

def acquireRowLock (t : RowLockTable) (txn : TxnId) (key : TupleKey) (mode : RowLockMode) :
    DbResult Unit × RowLockTable :=
  let r := t.tryAcquireRowLock txn key mode
  if r.1 then (.ok (), r.2)
  else
    let blockers := showTxns (t.rows.blockers RowLockMode.compatible txn key mode)
    (.error (.internalMsg (s!"row lock conflict on RelationId({key.1})/TupleId({key.2}): " ++
      s!"blocked by transactions \x7b{blockers}\x7d")), t)

def releaseTxn (t : RowLockTable) (txn : TxnId) : RowLockTable :=
  { tables := t.tables.releaseTxn txn, rows := t.rows.releaseTxn txn }

end RowLockTable

/-- The lock table, and every intent mode granted since its transaction's last release. -/
structure LockLog where
  table : RowLockTable := {}
  granted : List (RelationId × Grant IntentLockMode) := []

namespace LockLog

def record (granted : Bool) (txn : TxnId) (tableId : RelationId) (mode : IntentLockMode)
    (s : LockLog) : LockLog :=
  if granted then { s with granted := (tableId, ⟨txn, mode⟩) :: s.granted } else s

def step (s : LockLog) : LockCall → Option LockLog
  | .tryAcquireTableLock txn tableId mode =>
    let r := s.table.tryAcquireTableLock txn tableId mode
    some (record r.1 txn tableId mode { s with table := r.2 })
  | .acquireTableLock txn tableId mode =>
    let r := s.table.acquireTableLock txn tableId mode
    some (record r.1.isOk txn tableId mode { s with table := r.2 })
  | .tryAcquireRowLock txn key mode =>
    some { s with table := (s.table.tryAcquireRowLock txn key mode).2 }
  | .acquireRowLock txn key mode => some { s with table := (s.table.acquireRowLock txn key mode).2 }
  | .releaseTxn txn =>
    some { table := s.table.releaseTxn txn, granted := s.granted.filter (·.2.txn ≠ txn) }

/-- IX and S: each keeps away a mode that the other lets in. -/
def Crossed (held mode : IntentLockMode) : Prop :=
  held = .intentExclusive ∧ mode = .shared ∨ held = .shared ∧ mode = .intentExclusive

instance : DecidableRel Crossed := fun _ _ => inferInstanceAs (Decidable (_ ∨ _))

/-- The call does not ask for S on top of IX, nor for IX on top of S. -/
def Uncrossed (s : LockLog) : LockCall → Prop
  | .tryAcquireTableLock txn tableId mode | .acquireTableLock txn tableId mode =>
    ∀ held ∈ s.table.tables.held tableId txn, ¬ Crossed held mode
  | _ => True

instance (s : LockLog) (call : LockCall) : Decidable (s.Uncrossed call) := by
  cases call <;> unfold Uncrossed <;> infer_instance

abbrev Covers := ModeTable.Covers IntentLockMode.compatible

def merged (old : Option IntentLockMode) (mode : IntentLockMode) : IntentLockMode :=
  match old with
  | none => mode
  | some m => if m.rank < mode.rank then mode else m

theorem compatible_comm (m n : IntentLockMode) : m.compatible n = n.compatible m := by
  cases m <;> cases n <;> rfl

theorem covers_merged {old : Option IntentLockMode} {mode : IntentLockMode}
    (h : ∀ held ∈ old, ¬ Crossed held mode) :
    Covers (merged old mode) mode ∧ ∀ held ∈ old, Covers (merged old mode) held := by
  cases old with
  | none => exact ⟨fun _ => id, nofun⟩
  | some m =>
    have hboth : Covers (merged (some m) mode) mode ∧ Covers (merged (some m) mode) m := by
      have hm := h m rfl
      constructor <;> intro other <;> revert hm <;> cases m <;> cases mode <;> cases other <;>
        decide
    exact ⟨hboth.1, by rintro held ⟨⟩; exact hboth.2⟩

/-! ## What the table has for a transaction -/

theorem find?_upgrade (txn u : TxnId) (mode : IntentLockMode) (gs : List (Grant IntentLockMode)) :
    ((upgrade IntentLockMode.rank txn mode gs).find? (·.txn = u)).map (·.mode) =
      if u = txn then some (merged ((gs.find? (·.txn = txn)).map (·.mode)) mode)
      else (gs.find? (·.txn = u)).map (·.mode) := by
  induction gs with
  | nil => by_cases hu : u = txn <;> simp [upgrade, merged, hu, eq_comm]
  | cons g gs ih =>
    unfold upgrade
    by_cases hg : g.txn = txn
    · by_cases hu : u = txn
      · subst hu
        rw [if_pos hg, if_pos rfl]
        unfold merged
        split <;> simp_all
      · have hgu : ¬ g.txn = u := fun h => hu (h.symm.trans hg)
        rw [if_pos hg, if_neg hu]
        split <;> simp [hgu]
    · rw [if_neg hg]
      by_cases hu : u = txn
      · subst hu
        simpa [hg] using ih
      · by_cases hgu : g.txn = u <;> simp_all

theorem held_grant (l : Locks RelationId IntentLockMode) (txn u : TxnId) (key k : RelationId)
    (mode : IntentLockMode) :
    (l.grant IntentLockMode.rank txn key mode).held k u =
      if k = key ∧ u = txn then some (merged (l.held key txn) mode) else l.held k u := by
  unfold Locks.held Locks.grant
  by_cases hk : k = key
  · subst hk
    simp only [Function.update_self, find?_upgrade, true_and]
  · simp [hk]

theorem held_releaseTxn {l : Locks RelationId IntentLockMode} (txn : TxnId)
    (hlisted : ∀ key u m, l.held key u = some m → key ∈ l.byTxn u) (k : RelationId) (u : TxnId) :
    (l.releaseTxn txn).held k u = if u = txn then none else l.held k u := by
  unfold Locks.held Locks.releaseTxn
  by_cases hk : k ∈ l.byTxn txn
  · simp only [if_pos hk, List.find?_filter]
    by_cases hu : u = txn
    · simp [hu]
    · rw [if_neg hu]
      congr 2
      funext g
      by_cases hg : g.txn = u <;> simp [hg, hu]
  · simp only [if_neg hk]
    split
    · next hu =>
      subst hu
      exact Option.eq_none_iff_forall_ne_some.mpr fun m hm => hk (hlisted k u m hm)
    · rfl

/-! ## What stays true -/

structure Inv (s : LockLog) : Prop where
  listed : ∀ key txn m, s.table.tables.held key txn = some m → key ∈ s.table.tables.byTxn txn
  modes : ModeTable.Sound IntentLockMode.compatible s.table.tables.held
    fun key txn mode => (key, Grant.mk txn mode) ∈ s.granted

theorem inv_init : Inv {} where
  listed := by rintro _ _ _ ⟨⟩
  modes := ⟨by rintro _ _ _ _ _ _ ⟨⟩, by rintro _ _ _ ⟨⟩⟩

variable {s : LockLog} {txn : TxnId} {tableId : RelationId} {mode : IntentLockMode}

theorem Inv.congr (h : s.Inv) {t : RowLockTable} (ht : t.tables = s.table.tables) :
    Inv { s with table := t } where
  listed := by simpa only [ht] using h.listed
  modes := by simpa only [ht] using h.modes

theorem compatible_of_canGrant {l : Locks RelationId IntentLockMode}
    (hfree : l.canGrant IntentLockMode.compatible txn tableId mode = true) {u : TxnId}
    {m : IntentLockMode} (hu : u ≠ txn) (hm : l.held tableId u = some m) :
    m.compatible mode = true := by
  obtain ⟨g, hg, rfl⟩ := Option.map_eq_some_iff.mp hm
  have hmem := List.all_eq_true.mp hfree g (List.mem_of_find?_eq_some hg)
  have htxn : g.txn = u := by simpa using List.find?_some hg
  simpa [htxn, hu] using hmem

theorem Inv.tryAcquireTableLock (h : s.Inv)
    (hun : ∀ held ∈ s.table.tables.held tableId txn, ¬ Crossed held mode) :
    Inv (record (s.table.tryAcquireTableLock txn tableId mode).1 txn tableId mode
      { s with table := (s.table.tryAcquireTableLock txn tableId mode).2 }) := by
  unfold RowLockTable.tryAcquireTableLock
  split
  · next hfree =>
    obtain ⟨hnew, hold⟩ := covers_merged hun
    have hheld := fun k u => held_grant s.table.tables txn u tableId k mode
    refine ⟨?_, h.modes.grant compatible_comm hheld ?_ hold ?_⟩
    · intro key u m hm
      show key ∈ update s.table.tables.byTxn txn _ u
      have hm := (hheld key u).symm.trans hm
      by_cases hu : u = txn
      · subst hu
        rw [Function.update_self, Finset.mem_insert]
        by_cases hk : key = tableId
        · exact .inl hk
        · exact .inr (h.listed key u m (by simpa [hk] using hm))
      · rw [Function.update_of_ne hu]
        exact h.listed key u m (by simpa [hu] using hm)
    · -- the merged mode is the requested one or the one that was held
      intro u m hu hm
      cases hown : s.table.tables.held tableId txn with
      | none => exact compatible_of_canGrant hfree hu hm
      | some own =>
        simp only [merged]
        split
        · exact compatible_of_canGrant hfree hu hm
        · exact h.modes.compatible tableId u txn m own hu hm hown
    · intro key u m hmem
      rcases List.mem_cons.mp hmem with heq | hmem
      · cases heq
        exact .inr ⟨rfl, rfl, hnew⟩
      · exact .inl hmem
  · exact h

theorem Inv.releaseTxn (h : s.Inv) (txn : TxnId) :
    Inv { table := s.table.releaseTxn txn, granted := s.granted.filter (·.2.txn ≠ txn) } := by
  have hheld := held_releaseTxn txn h.listed
  refine ⟨?_, h.modes.release (fun _ u => u = txn) hheld ?_⟩
  · intro key u m hm
    have hm := (hheld key u).symm.trans hm
    rw [Option.ite_none_left_eq_some] at hm
    show key ∈ update s.table.tables.byTxn txn ∅ u
    rw [Function.update_of_ne hm.1]
    exact h.listed key u m hm.2
  · intro key u m hmem
    simpa using hmem

theorem Inv.step (h : s.Inv) {call : LockCall} (hun : s.Uncrossed call) {s' : LockLog}
    (hstep : s.step call = some s') : s'.Inv := by
  cases call with (cases hstep)
  | tryAcquireTableLock txn tableId mode => exact h.tryAcquireTableLock hun
  | acquireTableLock txn tableId mode =>
    have hi := h.tryAcquireTableLock hun
    cases hr : (s.table.tryAcquireTableLock txn tableId mode).1 with
    | true =>
      have hacquire : s.table.acquireTableLock txn tableId mode = (.ok (), _) := if_pos hr
      rw [hr] at hi
      rwa [hacquire]
    | false =>
      have hacquire : s.table.acquireTableLock txn tableId mode = (.error _, s.table) :=
        if_neg (by simp [hr])
      rwa [hacquire]
  | tryAcquireRowLock txn key mode =>
    refine h.congr ?_
    unfold RowLockTable.tryAcquireRowLock
    split <;> rfl
  | acquireRowLock txn key mode =>
    refine h.congr ?_
    unfold RowLockTable.acquireRowLock RowLockTable.tryAcquireRowLock
    split <;> simp
  | releaseTxn txn => exact h.releaseTxn txn

/-- Over any calls that never put S and IX together, the intent modes granted to different
transactions since their last releases are compatible. -/
theorem granted_intents_compatible {calls : List LockCall} {s : LockLog}
    (hun : Run.Along step Uncrossed {} calls) (hrun : Run.run step {} calls = some s)
    {key : RelationId} {t₁ t₂ : TxnId} {m₁ m₂ : IntentLockMode} (hne : t₁ ≠ t₂)
    (h₁ : (key, Grant.mk t₁ m₁) ∈ s.granted) (h₂ : (key, Grant.mk t₂ m₂) ∈ s.granted) :
    m₁.compatible m₂ = true := by
  have hi : s.Inv := Run.run_preserves_along (fun hi hP hs => hi.step hP hs) inv_init hun hrun
  exact hi.modes.granted_compatible compatible_comm hne h₁ h₂

theorem granted_intents_compatible_upgrade :
    IntentLockMode.compatible .shared .intentShared = true :=
  granted_intents_compatible
    (by decide +kernel : Run.Along step Uncrossed {} [.acquireTableLock 1 7 .intentShared,
      .tryAcquireTableLock 1 7 .shared, .acquireRowLock 1 (7, 1) .shared,
      .acquireTableLock 2 7 .intentShared])
    (Run.run_eq_some_after (by decide +kernel)) (by decide : (1 : TxnId) ≠ 2)
    (by decide +kernel : (7, Grant.mk 1 IntentLockMode.shared) ∈ _) (by decide +kernel)

/-- A writer of the table reads all of it; the writer's IX is forgotten, and another
transaction gets S. -/
theorem granted_intents_conflict :
    ∃ s, Run.run step {} [.acquireTableLock 1 7 .intentExclusive, .acquireTableLock 1 7 .shared,
        .acquireTableLock 2 7 .shared] = some s ∧
      (7, Grant.mk 1 .intentExclusive) ∈ s.granted ∧ (7, Grant.mk 2 .shared) ∈ s.granted ∧
      IntentLockMode.compatible .intentExclusive .shared = false :=
  ⟨_, Run.run_eq_some_after (by decide +kernel), by decide +kernel⟩

/-! ## Row locks -/

/-- A row has one entry for a transaction, and no two that conflict. -/
def RowsExclude (t : RowLockTable) : Prop := ∀ key, (t.rows.grants key).Pairwise fun g g' =>
  g.txn ≠ g'.txn ∧ g.mode.compatible g'.mode = true

theorem mem_upgrade {rank : M → Nat} {mode : M} {g : Grant M} {gs : List (Grant M)}
    (h : g ∈ upgrade rank txn mode gs) : g ∈ gs ∨ g = ⟨txn, mode⟩ := by
  induction gs <;> grind [upgrade]

theorem RowsExclude.tryAcquireRowLock {t : RowLockTable} (h : RowsExclude t) (key : TupleKey)
    (mode : RowLockMode) : RowsExclude (t.tryAcquireRowLock txn key mode).2 := by
  unfold RowLockTable.tryAcquireRowLock Locks.canGrant
  split
  · next hfree =>
    intro k
    have hk := h k
    by_cases hkey : k = key
    · subst hkey
      simp only [Locks.grant, update_self]
      generalize t.rows.grants k = gs at *
      induction gs with
      | nil => simp [upgrade]
      | cons => grind [upgrade, List.pairwise_cons, → mem_upgrade, RowLockMode.compatible]
    · simpa [Locks.grant, hkey] using hk
  · exact h

theorem rowsExclude_step {call : LockCall} {s' : LockLog} (h : RowsExclude s.table)
    (hstep : s.step call = some s') : RowsExclude s'.table := by
  cases call with (cases hstep)
  | releaseTxn txn =>
    intro key
    have hkey := h key
    grind [RowLockTable.releaseTxn, Locks.releaseTxn]
  | _ =>
    have hlock := @h.tryAcquireRowLock
    grind [record, RowLockTable.acquireTableLock, RowLockTable.tryAcquireTableLock,
      RowLockTable.acquireRowLock, RowsExclude]

/-- In every run a row locked for writing has no other holder. -/
theorem rows_exclude (calls : List LockCall) : RowsExclude (Run.after step {} calls).table := by
  have hinit : RowsExclude {} := fun _ => .nil
  unfold Run.after
  cases hrun : Run.run step {} calls with
  | none => exact hinit
  | some s => exact Run.run_preserves (I := (RowsExclude ·.table)) rowsExclude_step hinit hrun

end LockLog

end AionDb.RowLocks
