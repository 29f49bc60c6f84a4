import Mathlib.Tactic.Linarith

/-!
# Identifiers, errors and the ordered maps

The identifier types of the engine's core crate are `u64` newtypes; here they
are natural numbers, and the arithmetic that can overflow goes through
`checkedAdd`. A `BTreeMap` or `BTreeSet` of the source is an `ExtTreeMap` or
`ExtTreeSet`: sorted by key, extensional, and evaluable.
-/

namespace AionDb

open Std

abbrev TxnId := Nat
abbrev RelationId := Nat
abbrev TupleId := Nat
abbrev IndexId := Nat
abbrev ColumnId := Nat

def u32Max : Nat := 2 ^ 32 - 1
def u64Max : Nat := 2 ^ 64 - 1

def checkedAdd (a b : Nat) : Option Nat :=
  if a + b ≤ u64Max then some (a + b) else none

theorem checkedAdd_eq_some {a b c : Nat} :
    checkedAdd a b = some c ↔ a + b ≤ u64Max ∧ c = a + b := by
  unfold checkedAdd
  split <;> simp_all [eq_comm]

inductive SqlState where
  | internalError
  | serializationFailure
  | uniqueViolation
  | notNullViolation
  | deadlockDetected
  | lockNotAvailable
  | foreignKeyViolation
  | insufficientPrivilege
  | undefinedObject
  | programLimitExceeded
  | featureNotSupported
deriving DecidableEq

inductive DbError where
  | parse (sqlstate : SqlState) (message : String)
  | bind (sqlstate : SqlState) (message : String)
  | authorization (sqlstate : SqlState) (message : String)
  | internal (sqlstate : SqlState) (message : String)
  | transaction (sqlstate : SqlState) (message : String)
  | constraint (sqlstate : SqlState) (message : String)
  | storage (sqlstate : SqlState) (message : String)
deriving DecidableEq

def DbError.internalMsg (message : String) : DbError :=
  .internal .internalError message

def DbError.featureNotSupported (message : String) : DbError :=
  .parse .featureNotSupported message

abbrev DbResult := Except DbError

abbrev TupleKey := RelationId × TupleId

abbrev tupleKeyCmp : TupleKey → TupleKey → Ordering :=
  compareLex (compareOn Prod.fst) (compareOn Prod.snd)

instance : TransCmp tupleKeyCmp := inferInstance

instance : LawfulEqCmp tupleKeyCmp where
  eq_of_compare {a b} h := by
    obtain ⟨h1, h2⟩ := compareLex_eq_eq.mp h
    exact Prod.ext (LawfulEqCmp.eq_of_compare h1) (LawfulEqCmp.eq_of_compare h2)

end AionDb
