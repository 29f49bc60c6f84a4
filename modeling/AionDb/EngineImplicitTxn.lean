import AionDb.TxLifecycle

/-!
# Autocommit statements

`execute_with_implicit_transaction_options`: a statement outside a transaction
is run in one of its own, which is committed, or rolled back and, after a
serialization failure of the statement, tried again. An INSERT of values that
qualifies for the direct path writes its rows straight to the storage under the
autocommit id, before the transaction around it is committed.

What the rest of the system answers (the transaction manager, the locks, the
constraints, the log, concurrent transactions) is the script of an attempt.
-/

namespace AionDb

def DbError.sqlstate : DbError → SqlState
  | .parse s _ | .bind s _ | .authorization s _ | .internal s _ | .transaction s _
  | .constraint s _ | .storage s _ => s

/-! ## Which statements write directly -/

inductive OnConflictAction where
  | doNothing
  | doUpdate

inductive DmlStatement where
  | insertValues (rowCount : Nat) (onConflict : Option OnConflictAction) (returning : Bool)
  | other

structure InsertTarget where
  foreignKeys : Bool := false
  checkConstraints : Bool := false
  insertTrigger : Bool := false
  uniqueNonPrimaryIndex : Bool := false
  rlsPolicies : Bool := false

def insertValuesStorageAutocommitCandidate : DmlStatement → Bool
  | .insertValues rowCount onConflict returning =>
    rowCount != 0 && !returning &&
      match onConflict with
      | none => true
      | some .doNothing => rowCount == 1
      | some .doUpdate => false
  | .other => false

def tryDirectInsertPath (target : InsertTarget) : DmlStatement → Bool
  | .insertValues rowCount onConflict returning =>
    (match onConflict with
      | none => true
      | some .doNothing => rowCount == 1
      | some .doUpdate => false) &&
    !returning && !target.rlsPolicies && !target.foreignKeys && !target.checkConstraints &&
      !target.insertTrigger && !target.uniqueNonPrimaryIndex
  | .other => false

def writesDirectly (target : InsertTarget) (statement : DmlStatement) : Bool :=
  tryDirectInsertPath target statement && insertValuesStorageAutocommitCandidate statement

/-! ## Attempts -/

/-- How the commit of the transaction ends. `ambiguous` is an error after the storage has
published: of the catalog's commit, of the serializable coordinator or of the lock release. -/
inductive CommitAnswer where
  | committed
  | refused (error : DbError)
  | ambiguous (error : DbError)
deriving DecidableEq

structure AttemptScript (R : Type) where
  beginTxn : DbResult Unit := .ok ()
  setMarker : DbResult Unit := .ok ()
  /-- Everything up to the write: planning, locks, constraints, and the storage's own answer. -/
  prepare : DbResult Unit := .ok ()
  rows : List R
  /-- What follows the write: recording it with the serializable coordinator, the end of the
  statement. -/
  finish : DbResult Unit := .ok ()
  commit : CommitAnswer := .committed
  rollback : DbResult Unit := .ok ()
  clearMarker : DbResult Unit := .ok ()

variable {R : Type}

abbrev Visible (R : Type) := List (Nat × R)

def AttemptScript.tagged (a : AttemptScript R) (attempt : Nat) : Visible R :=
  a.rows.map (attempt, ·)

/-- The statement: a direct write is visible at once, another one waits for the commit. -/
def AttemptScript.apply (a : AttemptScript R) (direct : Bool) (attempt : Nat)
    (visible : Visible R) : DbResult Unit × Visible R :=
  match a.prepare with
  | .error e => (.error e, visible)
  | .ok () => (a.finish, if direct then visible ++ a.tagged attempt else visible)

def AttemptScript.commitTransaction (a : AttemptScript R) (direct : Bool) (attempt : Nat)
    (visible : Visible R) : DbResult Unit × Visible R :=
  let published := if direct then visible else visible ++ a.tagged attempt
  match a.commit with
  | .committed => (.ok (), published)
  | .refused e => (.error e, visible)
  | .ambiguous e => (.error e, published)

def mergeWithCleanup (primary cleanup : DbResult Unit) : DbResult Unit :=
  match primary with
  | .ok () => cleanup
  | .error e => .error e

inductive AttemptEnd where
  | ends (result : DbResult Unit)
  | again (error : DbError)

def runAttempt (direct : Bool) (a : AttemptScript R) (attempt : Nat) (visible : Visible R) :
    AttemptEnd × Visible R :=
  match a.beginTxn, a.setMarker with
  | .error e, _ => (.ends (.error e), visible)
  | .ok (), .error e => (.ends (.error e), visible)
  | .ok (), .ok () =>
    match a.apply direct attempt visible with
    | (.ok (), visible) =>
      let (committed, visible) := a.commitTransaction direct attempt visible
      (.ends (mergeWithCleanup committed a.clearMarker), visible)
    | (.error e, visible) =>
      match mergeWithCleanup a.rollback a.clearMarker with
      | .error e' => (.ends (.error e'), visible)
      | .ok () =>
        if e.sqlstate = .serializationFailure then (.again e, visible)
        else (.ends (.error e), visible)

def runAttempts (direct : Bool) (script : Nat → AttemptScript R) :
    Nat → Nat → Visible R → DbResult Unit × Visible R
  | 0, attempt, visible =>
    match runAttempt direct (script attempt) attempt visible with
    | (.ends result, visible) => (result, visible)
    | (.again e, visible) => (.error e, visible)
  | remaining + 1, attempt, visible =>
    match runAttempt direct (script attempt) attempt visible with
    | (.ends result, visible) => (result, visible)
    | (.again _, visible) => runAttempts direct script remaining (attempt + 1) visible

/-- `execute_with_implicit_transaction_options` outside a transaction. Without participants a
READ COMMITTED statement is run on its own. -/
def executeWithImplicitTransactionOptions (isolation : IsolationLevel)
    (includeCatalog includeStorage : Bool) (retryLimit : Nat) (target : InsertTarget)
    (statement : DmlStatement) (script : Nat → AttemptScript R) : DbResult Unit × Visible R :=
  if !includeCatalog && !includeStorage && isolation = .readCommitted then
    (script 0).apply true 0 []
  else runAttempts (writesDirectly target statement) script retryLimit 0 []

/-! ## Once or not at all -/

def AttemptScript.wrote (a : AttemptScript R) : Bool :=
  a.beginTxn.isOk && a.setMarker.isOk && a.prepare.isOk && !a.rows.isEmpty

/-- Nothing fails after the rows have become visible: after a direct write the rest of the
statement, the commit and the session's marker; otherwise what follows the storage's publication. -/
def AttemptScript.settles (a : AttemptScript R) (direct : Bool) : Bool :=
  !a.wrote ||
    if direct then a.finish.isOk && a.commit == .committed && a.clearMarker.isOk
    else !a.finish.isOk ||
      match a.commit with
      | .committed => a.clearMarker.isOk
      | .refused _ => true
      | .ambiguous _ => false

theorem isOk_of_eq {r : DbResult Unit} (h : r = .ok ()) : r.isOk = true := by
  rw [h]
  rfl

/-- What the call leaves: nothing after an error, the rows of one attempt after a success. -/
def Once (script : Nat → AttemptScript R) (last : Nat) (out : DbResult Unit × Visible R) : Prop :=
  (∀ e, out.1 = .error e → out.2 = []) ∧ (out.1 = .ok () → ∃ k ≤ last, out.2 = (script k).tagged k)

theorem once_error (script : Nat → AttemptScript R) (last : Nat) (e : DbError) :
    Once script last (.error e, []) :=
  ⟨fun _ _ => rfl, fun h => nomatch h⟩

variable {script : Nat → AttemptScript R} {visible : Visible R} {direct : Bool}
  {a : AttemptScript R} {attempt last : Nat}

theorem once_commit (hlast : attempt ≤ last) (hsettles : (script attempt).settles direct = true)
    (hbegin : (script attempt).beginTxn = .ok ()) (hmarker : (script attempt).setMarker = .ok ())
    (hprepare : (script attempt).prepare = .ok ()) (hfinish : (script attempt).finish = .ok ()) :
    Once script last
      (mergeWithCleanup
        ((script attempt).commitTransaction direct attempt
          (if direct then (script attempt).tagged attempt else [])).1 (script attempt).clearMarker,
        ((script attempt).commitTransaction direct attempt
          (if direct then (script attempt).tagged attempt else [])).2) := by
  by_cases hrows : (script attempt).rows = []
  · -- without rows there is nothing to see
    have htagged : (script attempt).tagged attempt = [] := by simp [AttemptScript.tagged, hrows]
    have hvisible : ((script attempt).commitTransaction direct attempt
        (if direct then (script attempt).tagged attempt else [])).2 = [] := by
      unfold AttemptScript.commitTransaction
      cases direct <;> cases (script attempt).commit <;> simp [htagged]
    exact ⟨fun _ _ => hvisible, fun _ => ⟨attempt, hlast, hvisible.trans htagged.symm⟩⟩
  · have hwrote : (script attempt).wrote = true := by
      simp [AttemptScript.wrote, isOk_of_eq hbegin, isOk_of_eq hmarker, isOk_of_eq hprepare, hrows]
    simp only [AttemptScript.settles, hwrote, Bool.not_true, Bool.false_or, isOk_of_eq hfinish,
      Bool.true_and] at hsettles
    unfold AttemptScript.commitTransaction
    cases hcommit : (script attempt).commit with
    | committed =>
      have hclear : (script attempt).clearMarker = .ok () := by
        cases hclear : (script attempt).clearMarker with
        | ok u => rfl
        | error e => cases direct <;> simp [hcommit, hclear, Except.isOk, Except.toBool] at hsettles
      refine ⟨fun e h => ?_, fun _ => ⟨attempt, hlast, by cases direct <;> simp⟩⟩
      simp [mergeWithCleanup, hclear] at h
    | refused e =>
      cases direct with
      | true => simp [hcommit] at hsettles
      | false => exact once_error script last e
    | ambiguous e => cases direct <;> simp [hcommit] at hsettles

theorem apply_ok {u : Unit} (h : a.apply direct attempt [] = (.ok u, visible)) :
    a.prepare = .ok () ∧ a.finish = .ok () ∧ visible = if direct then a.tagged attempt else [] := by
  unfold AttemptScript.apply at h
  cases hprepare : a.prepare with
  | error e => rw [hprepare] at h; cases h
  | ok u' =>
    rw [hprepare] at h
    obtain ⟨hfinish, hvisible⟩ := Prod.mk.inj h
    exact ⟨rfl, hfinish, by rw [← hvisible]; cases direct <;> simp⟩

theorem apply_error (hsettles : a.settles direct = true) (hbegin : a.beginTxn = .ok ())
    (hmarker : a.setMarker = .ok ()) {e : DbError} (h : a.apply direct attempt [] = (.error e, visible)) : visible = [] := by
  unfold AttemptScript.apply at h
  cases hprepare : a.prepare with
  | error e' =>
    rw [hprepare] at h
    exact ((Prod.mk.inj h).2).symm
  | ok u =>
    rw [hprepare] at h
    obtain ⟨hfinish, hvisible⟩ := Prod.mk.inj h
    by_cases hrows : a.rows = []
    · rw [← hvisible]
      cases direct <;> simp [AttemptScript.tagged, hrows]
    have hwrote : a.wrote = true := by
      simp [AttemptScript.wrote, isOk_of_eq hbegin, isOk_of_eq hmarker, isOk_of_eq hprepare, hrows]
    cases direct with
    | true => simp [AttemptScript.settles, hwrote, hfinish, Except.isOk, Except.toBool] at hsettles
    | false => exact hvisible.symm

theorem runAttempt_once (hsettles : ∀ k, (script k).settles direct = true)
    (hlast : attempt ≤ last) :
    (∃ result visible, runAttempt direct (script attempt) attempt [] = (.ends result, visible) ∧
      Once script last (result, visible)) ∨
    ∃ e, runAttempt direct (script attempt) attempt [] = (.again e, []) := by
  unfold runAttempt
  cases hbegin : (script attempt).beginTxn with
  | error e => exact .inl ⟨_, _, rfl, once_error script last e⟩
  | ok u =>
    cases hmarker : (script attempt).setMarker with
    | error e => exact .inl ⟨_, _, rfl, once_error script last e⟩
    | ok u =>
      cases happly : (script attempt).apply direct attempt [] with
      | mk result visible =>
        cases result with
        | ok u =>
          obtain ⟨hprepare, hfinish, rfl⟩ := apply_ok happly
          exact .inl ⟨_, _, rfl,
            once_commit hlast (hsettles attempt) hbegin hmarker hprepare hfinish⟩
        | error e =>
          cases apply_error (hsettles attempt) hbegin hmarker happly
          cases mergeWithCleanup (script attempt).rollback (script attempt).clearMarker with
          | error e' => exact .inl ⟨_, _, rfl, once_error script last e'⟩
          | ok u =>
            dsimp only
            split
            · exact .inr ⟨e, rfl⟩
            · exact .inl ⟨_, _, rfl, once_error script last e⟩

theorem runAttempts_once (hsettles : ∀ k, (script k).settles direct = true) {remaining : Nat}
    (hlast : attempt + remaining ≤ last) :
    Once script last (runAttempts direct script remaining attempt []) := by
  induction remaining generalizing attempt with
  | zero =>
    unfold runAttempts
    have hattempt : attempt ≤ last := hlast
    rcases runAttempt_once hsettles hattempt with ⟨result, visible, heq, honce⟩ | ⟨e, heq⟩
    · rw [heq]
      exact honce
    · rw [heq]
      exact once_error script last e
  | succ remaining ih =>
    unfold runAttempts
    have hattempt : attempt ≤ last := by omega
    rcases runAttempt_once hsettles hattempt with ⟨result, visible, heq, honce⟩ | ⟨e, heq⟩
    · rw [heq]
      exact honce
    · rw [heq]
      exact ih (by omega)

def couldNotSerialize : DbError := .transaction .serializationFailure "could not serialize access"

def failsOnce (attempt : Nat) : AttemptScript String where
  rows := ["row"]
  finish := if attempt = 0 then .error couldNotSerialize else .ok ()

def refusedCommit (_ : Nat) : AttemptScript String where
  rows := ["row"]
  commit := .refused couldNotSerialize

end AionDb
