import AionDb.LibEffect

/-!
# Logs grouped by transaction

A log of changes that belong to transactions, and its replay: a change waits
under its transaction until a commit record applies it, and is dropped by an
abort record or by another beginning of the transaction.
-/

namespace TxnLog

open Function

inductive Record (α : Type) where
  | beginTxn (txn : Nat)
  | change (txn : Nat) (a : α)
  | commitTxn (txn : Nat)
  | abortTxn (txn : Nat)

structure Replay (σ α : Type) where
  state : σ
  openTxns : Nat → List α

variable {σ ε α : Type} (apply : σ → α → Except ε σ)

def entry (r : Replay σ α) : Record α → Except ε (Replay σ α)
  | .beginTxn txn | .abortTxn txn => .ok { r with openTxns := update r.openTxns txn [] }
  | .change txn a => .ok { r with openTxns := update r.openTxns txn (r.openTxns txn ++ [a]) }
  | .commitTxn txn => do
    let state ← (r.openTxns txn).foldlM apply r.state
    return ⟨state, update r.openTxns txn []⟩

def recover (base : σ) (log : List (Record α)) : Except ε (Replay σ α) :=
  log.foldlM (entry apply) ⟨base, fun _ => []⟩

def Record.Inert : Record α → Prop
  | .commitTxn _ => False
  | _ => True

variable {apply} {r r' : Replay σ α} {base : σ} {log more : List (Record α)}

theorem recover_append (h : recover apply base log = .ok r) :
    recover apply base (log ++ more) = more.foldlM (entry apply) r := by
  rw [recover, List.foldlM_append]
  exact congrArg (· >>= fun r => more.foldlM (entry apply) r) h

theorem foldlM_inert (apply : σ → α → Except ε σ) (r : Replay σ α)
    (h : ∀ record ∈ log, record.Inert) :
    ∃ opened, log.foldlM (entry apply) r = .ok ⟨r.state, opened⟩ := by
  induction log generalizing r with
  | nil => exact ⟨r.openTxns, rfl⟩
  | cons record log ih =>
    obtain ⟨hrecord, hlog⟩ := List.forall_mem_cons.mp h
    cases record with
    | beginTxn txn | abortTxn txn | change txn a => exact ih _ hlog
    | commitTxn txn => exact hrecord.elim

theorem recover_of_append_inert (h : recover apply base (log ++ more) = .ok r)
    (hmore : ∀ record ∈ more, record.Inert) :
    ∃ r0, recover apply base log = .ok r0 ∧ r.state = r0.state := by
  rw [recover, List.foldlM_append] at h
  obtain ⟨r0, hr0, hfold⟩ := Effect.bind_eq_ok.mp h
  obtain ⟨opened, hinert⟩ := foldlM_inert apply r0 hmore
  cases hinert.symm.trans hfold
  exact ⟨r0, hr0, rfl⟩

theorem foldlM_changes (txn : Nat) (changes : List α) :
    (changes.map (Record.change txn)).foldlM (entry apply) r =
      .ok { r with openTxns := update r.openTxns txn (r.openTxns txn ++ changes) } := by
  induction changes generalizing r with
  | nil => simp [pure, Except.pure]
  | cons a changes ih =>
    rw [List.map_cons, List.foldlM_cons]
    refine ih.trans ?_
    simp

theorem entry_commitTxn {txn : Nat} {state : σ}
    (h : (r.openTxns txn).foldlM apply r.state = .ok state) :
    entry apply r (.commitTxn txn) = .ok ⟨state, update r.openTxns txn []⟩ := by
  rw [entry, h]
  rfl

end TxnLog
