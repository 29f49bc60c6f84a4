import AionDb.StoreIndex

/-!
# The write-ahead log

Records in the order they were appended; the log sequence number of a record
is its position, counted from 1. A crash keeps the synced prefix.
-/

namespace AionDb

inductive WalRecord (V : Type) where
  | beginTxn (txn : TxnId)
  | commitTxn (txn : TxnId)
  | abortTxn (txn : TxnId)
  | insertRow (txn : TxnId) (tableId : RelationId) (tupleId : TupleId) (row : Row V)
  | deleteRow (txn : TxnId) (tableId : RelationId) (tupleId : TupleId)
  | updateRow (txn : TxnId) (tableId : RelationId) (oldTupleId newTupleId : TupleId) (row : Row V)
  | autocommitInsertRow (txn : TxnId) (tableId : RelationId) (tupleId : TupleId) (row : Row V)
  | autocommitDeleteRow (txn : TxnId) (tableId : RelationId) (tupleId : TupleId)
  | autocommitUpdateRow (txn : TxnId) (tableId : RelationId) (oldTupleId newTupleId : TupleId)
      (row : Row V)
  | createTable (txn : TxnId) (descriptor : TableStorageDescriptor)
  | dropTable (txn : TxnId) (tableId : RelationId)
  | createIndex (txn : TxnId) (descriptor : IndexStorageDescriptor)
  | dropIndex (txn : TxnId) (indexId : IndexId)
  | alterTable (txn : TxnId) (descriptor : TableStorageDescriptor)
  | checkpoint (lastCommittedLsn : Nat)
deriving DecidableEq

def numbered {α : Type} (start : Nat) (l : List α) : List (Nat × α) :=
  (l.zipIdx start).map fun (a, i) => (i, a)

variable {α : Type}

@[simp] theorem numbered_nil (start : Nat) : numbered start ([] : List α) = [] := rfl

@[simp] theorem numbered_cons (start : Nat) (a : α) (l : List α) :
    numbered start (a :: l) = (start, a) :: numbered (start + 1) l := rfl

theorem numbered_append (start : Nat) (l l' : List α) :
    numbered start (l ++ l') = numbered start l ++ numbered (start + l.length) l' := by
  simp [numbered, List.zipIdx_append]

theorem mem_numbered {start i : Nat} {a : α} {l : List α} :
    (i, a) ∈ numbered start l ↔ start ≤ i ∧ l[i - start]? = some a := by
  simp [numbered, List.mem_zipIdx_iff_le_and_getElem?_sub]

theorem filter_numbered (start m : Nat) (l : List α) :
    (numbered start l).filter (m ≤ ·.1) = numbered (max start m) (l.drop (m - start)) := by
  induction l generalizing start with
  | nil => simp
  | cons a l ih =>
    rw [numbered_cons, List.filter_cons, ih]
    by_cases h : m ≤ start
    · have h0 : m - start = 0 := by omega
      have h1 : m - (start + 1) = 0 := by omega
      simp [h, h0, h1, show max (start + 1) m = start + 1 by omega]
    · have hsub : m - start = (m - (start + 1)) + 1 := by omega
      simp [h, hsub, show max (start + 1) m = max start m by omega]

def autoTxnBase : TxnId := 2 ^ 48

structure Wal (V : Type) where
  records : List (WalRecord V) := []
  synced : Nat := 0
  autoTxnCounter : TxnId := autoTxnBase

namespace Wal

variable {V : Type} (w : Wal V)

def nextLsn : Nat := w.records.length + 1

def log (record : WalRecord V) : Wal V := { w with records := w.records ++ [record] }

def sync : Wal V := { w with synced := w.records.length }

/-- `log_wal_autocommit_dml_owned` up to the flush: the record under a fresh autocommit id. -/
def logAutocommit (record : TxnId → WalRecord V) : Wal V :=
  { w.log (record w.autoTxnCounter) with autoTxnCounter := w.autoTxnCounter + 1 }

def durable : List (Nat × WalRecord V) :=
  numbered 1 (w.records.take w.synced)

end Wal

end AionDb
