import AionDb.HaElection
import AionDb.LibEffect
import AionDb.LibLog

/-!
# The Raft log

The log is kept in memory as the list of its entries and written to its file as
a whole. Entries carry their own index, and every access goes through the
index of the first entry; `NumberedFrom` says that the indexes are the places,
and under it the accesses are those of a plain list.
-/

namespace AionDb

open ReplicatedLog

inductive RaftCommand where
  | noop
  | addNode (nodeId : NodeId) (address : String)
  | removeNode (nodeId : NodeId)
  | assignShard (tableId shardId : Nat) (nodeId : NodeId)
  | transferShard (tableId shardId : Nat) (fromNode toNode : NodeId)
  | updateConfig (key value : String)
  | kvWrite (key : List UInt8) (value : Option (List UInt8))
deriving DecidableEq

structure RaftEntry where
  index : Nat
  term : Nat
  command : RaftCommand
deriving DecidableEq

structure RaftLog where
  entries : List RaftEntry := []

def nextLogIndex (index : Nat) (operation : String) : DbResult Nat :=
  match checkedAdd index 1 with
  | some next => .ok next
  | none => .error (.internalMsg s!"{operation}: log index overflow")

namespace RaftLog

def checkLoaded : Option Nat → List RaftEntry → DbResult Unit
  | _, [] => .ok ()
  | prev, entry :: rest => do
    if entry.index = 0 then .error (.internalMsg "Raft log entry index must be >= 1") else
    match prev with
    | none => checkLoaded (some entry.index) rest
    | some prev =>
      let expected ← nextLogIndex prev "Raft log load"
      if entry.index ≠ expected then
        .error (.internalMsg s!"Raft log index gap: expected {expected}, got {entry.index}")
      else checkLoaded (some entry.index) rest

def openFile (file : List RaftEntry) : DbResult RaftLog := do
  checkLoaded none file
  pure { entries := file }

variable (log : RaftLog)

def lastIndex : Nat := log.entries.getLast?.elim 0 (·.index)

def lastTerm : Nat := log.entries.getLast?.elim 0 (·.term)

def get (index : Nat) : Option RaftEntry :=
  match log.entries with
  | [] => none
  | first :: _ =>
    if index = 0 ∨ index < first.index then none else log.entries[index - first.index]?

def termAt (index : Nat) : Nat := (log.get index).elim 0 (·.term)

def entriesFrom (startIndex : Nat) : List RaftEntry :=
  match log.entries with
  | [] => []
  | first :: _ =>
    if startIndex = 0 then []
    else if startIndex < first.index then log.entries
    else log.entries.drop (startIndex - first.index)

def push (term : Nat) (command : RaftCommand) : DbResult (Nat × RaftLog) := do
  let index ← nextLogIndex log.lastIndex "Raft log append"
  pure (index, { entries := log.entries ++ [{ index, term, command }] })

def truncateFrom (fromIndex : Nat) : RaftLog :=
  match log.entries with
  | [] => log
  | first :: _ =>
    if fromIndex < first.index then { entries := [] }
    else { entries := log.entries.take (fromIndex - first.index) }

def takeIn (entry : RaftEntry) : RaftLog :=
  match log.get entry.index with
  | some existing =>
    if existing.term = entry.term then log
    else { entries := (log.truncateFrom entry.index).entries ++ [entry] }
  | none => { entries := log.entries ++ [entry] }

def checkContiguous : List RaftEntry → DbResult Unit
  | e :: next :: rest => do
    let expectedNext ← nextLogIndex e.index "Raft log append entries"
    if next.index ≠ expectedNext then
      .error (.internalMsg s!"Raft log: non-contiguous entries: {e.index} followed by {next.index}")
    else checkContiguous (next :: rest)
  | _ => .ok ()

/-- `append_entries_checked` without the write of the file. -/
def appendEntriesChecked (expectedPrevIndex : Nat) (entries : List RaftEntry) : DbResult RaftLog :=
  match entries with
  | [] => .ok log
  | first :: _ => do
    let expectedFirst ← nextLogIndex expectedPrevIndex "Raft log append entries"
    if first.index ≠ expectedFirst then
      .error (.internalMsg
        s!"Raft log: expected first entry index {expectedFirst}, got {first.index}")
    else
      checkContiguous entries
      pure (entries.foldl takeIn log)

end RaftLog

/-! ## Indexes and places -/

def NumberedFrom (n : Nat) (es : List RaftEntry) : Prop :=
  ∀ i e, es[i]? = some e → e.index = n + i + 1

namespace NumberedFrom

variable {n : Nat} {es es' : List RaftEntry} {e : RaftEntry}

theorem nil : NumberedFrom n [] := fun i e he => by simp at he

theorem cons_iff : NumberedFrom n (e :: es) ↔ e.index = n + 1 ∧ NumberedFrom (n + 1) es := by
  constructor
  · intro h
    refine ⟨h 0 e rfl, fun i d hd => ?_⟩
    have := h (i + 1) d hd
    omega
  · rintro ⟨h0, h⟩ i d hd
    cases i with
    | zero => cases hd; exact h0
    | succ i => have := h i d hd; omega

section

variable (h : NumberedFrom n es)
include h

theorem take (k : Nat) : NumberedFrom n (es.take k) := by
  intro i e he
  rw [List.getElem?_take] at he
  split at he
  · exact h i e he
  · cases he

theorem drop (k : Nat) : NumberedFrom (n + k) (es.drop k) := by
  intro i e he
  rw [List.getElem?_drop] at he
  have := h _ _ he
  omega

theorem append (h' : NumberedFrom (n + es.length) es') : NumberedFrom n (es ++ es') := by
  intro i e he
  rcases Nat.lt_or_ge i es.length with hi | hi
  · rw [List.getElem?_append_left hi] at he
    exact h i e he
  · rw [List.getElem?_append_right hi] at he
    have := h' _ _ he
    omega

theorem snoc (he : e.index = n + es.length + 1) : NumberedFrom n (es ++ [e]) :=
  h.append (cons_iff.mpr ⟨he, nil⟩)

theorem bounds (he : e ∈ es) : n < e.index ∧ e.index ≤ n + es.length := by
  obtain ⟨i, hi⟩ := List.getElem?_of_mem he
  have hlt := (List.getElem?_eq_some_iff.mp hi).1
  have := h i e hi
  omega

theorem filter_le (k : Nat) : es.filter (·.index ≤ k) = es.take (k - n) := by
  induction es generalizing n with
  | nil => simp
  | cons e es ih =>
    obtain ⟨he, hes⟩ := cons_iff.mp h
    rw [List.filter_cons, ih hes]
    rcases Nat.lt_or_ge n k with hlt | hge
    · rw [if_pos (decide_eq_true (show e.index ≤ k by omega)),
        show k - n = (k - (n + 1)) + 1 by omega, List.take_succ_cons]
    · rw [if_neg (by simp only [decide_eq_true_eq]; omega), show k - n = 0 by omega,
        show k - (n + 1) = 0 by omega, List.take_zero, List.take_zero]

end

end NumberedFrom

theorem nextLogIndex_eq_ok {index next : Nat} {operation : String} :
    nextLogIndex index operation = .ok next ↔ index + 1 ≤ u64Max ∧ next = index + 1 := by
  unfold nextLogIndex
  cases h : checkedAdd index 1 with
  | none =>
    simp only [reduceCtorEq, false_iff, not_and]
    intro hle
    simp [checkedAdd, hle] at h
  | some n =>
    obtain ⟨h1, rfl⟩ := checkedAdd_eq_some.mp h
    simp [h1, eq_comm]

namespace RaftLog

variable {log log' : RaftLog} {k : Nat}

theorem lastIndex_eq (h : NumberedFrom 0 log.entries) : log.lastIndex = log.entries.length := by
  unfold lastIndex
  cases hl : log.entries.getLast? with
  | none => simp [List.getLast?_eq_none_iff.mp hl]
  | some e =>
    rw [List.getLast?_eq_getElem?] at hl
    have hlt := (List.getElem?_eq_some_iff.mp hl).1
    have := h _ _ hl
    simp only [Option.elim_some]
    omega

theorem lastTerm_eq : log.lastTerm = ReplicatedLog.lastTerm RaftEntry.term log.entries := rfl

theorem get_zero : log.get 0 = none := by
  unfold get
  split <;> simp

theorem index_first {entries rest : List RaftEntry} {first : RaftEntry}
    (h : NumberedFrom 0 entries) (hl : entries = first :: rest) : first.index = 1 := by
  have := h 0 first (by rw [hl]; rfl)
  omega

theorem get_succ (h : NumberedFrom 0 log.entries) : log.get (k + 1) = log.entries[k]? := by
  unfold get
  split
  · next hl => simp [hl]
  · next hl => simp [index_first h hl]

theorem termAt_zero : log.termAt 0 = 0 := by rw [termAt, get_zero]; rfl

section

variable (h : NumberedFrom 0 log.entries)
include h

theorem termAt_succ : log.termAt (k + 1) = (log.entries[k]?).elim 0 (·.term) := by
  rw [termAt, get_succ h]

theorem entriesFrom_succ : log.entriesFrom (k + 1) = log.entries.drop k := by
  unfold entriesFrom
  split
  · next hl => simp [hl]
  · next hl => simp [index_first h hl]

theorem truncateFrom_succ : (log.truncateFrom (k + 1)).entries = log.entries.take k := by
  unfold truncateFrom
  split
  · next hl => simp [hl]
  · next hl => simp [index_first h hl]

theorem push_eq_ok {term : Nat} {command : RaftCommand} {index : Nat}
    (hp : log.push term command = .ok (index, log')) :
    index = log.entries.length + 1 ∧ log'.entries = log.entries ++ [⟨index, term, command⟩] := by
  unfold push at hp
  obtain ⟨i, hi, hrest⟩ := Effect.bind_eq_ok.mp hp
  obtain ⟨-, rfl⟩ := nextLogIndex_eq_ok.mp hi
  cases hrest
  exact ⟨by rw [lastIndex_eq h], rfl⟩

end

/-! ## Taking in received entries -/

theorem numbered_of_checkContiguous {e : RaftEntry} {es : List RaftEntry}
    (h : checkContiguous (e :: es) = .ok ()) : NumberedFrom e.index es := by
  induction es generalizing e with
  | nil => exact .nil
  | cons e' es ih =>
    rw [checkContiguous] at h
    obtain ⟨next, hnext, hrest⟩ := Effect.bind_eq_ok.mp h
    obtain ⟨-, rfl⟩ := nextLogIndex_eq_ok.mp hnext
    split at hrest
    · cases hrest
    · next heq =>
      have heq : e'.index = e.index + 1 := not_not.mp heq
      exact NumberedFrom.cons_iff.mpr ⟨heq, heq ▸ ih hrest⟩

theorem foldl_takeIn (es : List RaftEntry) {n : Nat} (hes : NumberedFrom n es) :
    ∀ log : RaftLog, NumberedFrom 0 log.entries → n ≤ log.entries.length →
      (es.foldl takeIn log).entries = merge RaftEntry.term log.entries n es ∧
        NumberedFrom 0 (es.foldl takeIn log).entries := by
  induction es generalizing n with
  | nil => intro log hlog _; exact ⟨rfl, hlog⟩
  | cons e es ih =>
    intro log hlog hn
    obtain ⟨he, hes⟩ := NumberedFrom.cons_iff.mp hes
    have hget : log.get e.index = log.entries[n]? := by rw [he, get_succ hlog]
    have htrunc : (log.truncateFrom e.index).entries = log.entries.take n := by
      rw [he, truncateFrom_succ hlog]
    have hcut : NumberedFrom 0 (log.entries.take n ++ [e]) :=
      (hlog.take n).snoc (by rw [List.length_take, Nat.min_eq_left hn, he]; omega)
    rw [List.foldl_cons, merge, takeIn, hget]
    cases hd : log.entries[n]? with
    | none =>
      have hend : log.entries.length ≤ n := by simpa using hd
      rw [List.take_of_length_le hend] at hcut
      exact ih hes _ hcut (by rw [List.length_append, List.length_singleton]; omega)
    | some d =>
      have hlt := (List.getElem?_eq_some_iff.mp hd).1
      dsimp only
      split
      · exact ih hes log hlog hlt
      · rw [htrunc]
        exact ih hes _ hcut (by
          rw [List.length_append, List.length_take, List.length_singleton]; omega)

theorem appendEntriesChecked_eq_ok (hlog : NumberedFrom 0 log.entries) {prev : Nat}
    {entries : List RaftEntry} (hprev : prev ≤ log.entries.length)
    (h : log.appendEntriesChecked prev entries = .ok log') :
    log'.entries = merge RaftEntry.term log.entries prev entries ∧ NumberedFrom 0 log'.entries := by
  unfold appendEntriesChecked at h
  split at h
  · cases h; exact ⟨rfl, hlog⟩
  next first rest =>
  obtain ⟨next, hnext, hrest⟩ := Effect.bind_eq_ok.mp h
  obtain ⟨-, rfl⟩ := nextLogIndex_eq_ok.mp hnext
  split at hrest
  · cases hrest
  next heq =>
  obtain ⟨u, hcont, hres⟩ := Effect.bind_eq_ok.mp hrest
  have heq : first.index = prev + 1 := not_not.mp heq
  cases hres
  have hnum := numbered_of_checkContiguous hcont
  exact foldl_takeIn _ (NumberedFrom.cons_iff.mpr ⟨heq, heq ▸ hnum⟩) log hlog hprev

end RaftLog

end AionDb
