import AionDb.LibDeferred
import AionDb.StoreTableSpec

/-!
# Replicas

A replica receives the log of the primary and applies every record as it
arrives, with the function recovery uses for one record. Recovery itself holds
the records of a transaction back until its commit record.

A log in which every transaction with records commits, and in which none
overtakes a record it depends on, is applied alike by a replica and by recovery:
the orders in which the two replay the records differ by exchanges of
independent neighbours.
-/

namespace AionDb

open Std Effect Deferred ExtTreeMap List Option StorageState

variable {V : Type}

/-- `apply_replicated_wal_entry`: the records of the life of a transaction do nothing. -/
def StorageState.applyReplicatedWalEntry [Ord V] (s : StorageState V) (entry : Nat × WalRecord V) :
    DbResult (StorageState V) :=
  match entry.2 with
  | .beginTxn _ | .commitTxn _ | .abortTxn _ | .checkpoint _ => .ok s
  | record => s.replayRecord 0 record

def WalRecord.item (entry : Nat × WalRecord V) : Item TxnId (Nat × WalRecord V) :=
  match entry.2 with
  | .autocommitInsertRow _ _ _ _ | .autocommitDeleteRow _ _ _ | .autocommitUpdateRow _ _ _ _ _ =>
    .now entry
  | .beginTxn txn | .abortTxn txn => .discard txn
  | .commitTxn txn => .release txn
  | .insertRow txn _ _ _ | .deleteRow txn _ _ | .updateRow txn _ _ _ _ => .held txn entry
  | .createTable txn _ | .dropTable txn _ | .createIndex txn _ | .dropIndex txn _ => .held txn entry
  | .alterTable txn _ => .held txn entry
  | .checkpoint _ => .skip

/-! ## The two readers of the log -/

section
variable [Ord V]

def ReplayStep (s : StorageState V) (entry : Nat × WalRecord V) (s' : StorageState V) : Prop :=
  s.replayRecord 0 entry.2 = .ok s'

variable {l : List (Nat × WalRecord V)} {s s' : StorageState V}

theorem exec_replayStep :
    Exec ReplayStep l s s' ↔ l.foldlM (fun s entry => s.replayRecord 0 entry.2) s = .ok s' := by
  induction l generalizing s with
  | nil => exact foldlM_nil_eq_ok.symm
  | cons e l ih =>
    rw [foldlM_cons_eq_ok]
    exact exists_congr fun t => and_congr Iff.rfl ih

theorem exec_applyReplicated :
    Exec ReplayStep (arrival (l.map WalRecord.item)) s s' ↔
      l.foldlM StorageState.applyReplicatedWalEntry s = .ok s' := by
  induction l generalizing s with
  | nil => exact foldlM_nil_eq_ok.symm
  | cons e l ih =>
    obtain ⟨lsn, record⟩ := e
    rw [foldlM_cons_eq_ok]
    cases record with
    | beginTxn txn | commitTxn txn | abortTxn txn | checkpoint lsn =>
      refine ih.trans ⟨fun h => ⟨s, rfl, h⟩, ?_⟩
      rintro ⟨_, ⟨⟩, h⟩
      exact h
    | _ => exact exists_congr fun t => and_congr Iff.rfl ih

/-- What recovery has open, and in the other reading of it what is held. -/
abbrev OpenTxns (V : Type) := ExtTreeMap TxnId (List (Nat × WalRecord V))

abbrev Held (V : Type) := List (TxnId × (Nat × WalRecord V))

omit [Ord V] in
/-- The records held for a transaction, and nothing else, are open. -/
def HoldsOpen (openTxns : OpenTxns V) (h : Held V) : Prop :=
  ∀ txn : TxnId, openTxns[txn]?.getD [] = (h.filter (·.1 = txn)).map (·.2)

variable {h : Held V}

omit [Ord V] in
theorem HoldsOpen.drop {openTxns openTxns' : OpenTxns V} {txn : TxnId}
    (hopen : HoldsOpen openTxns h) (hself : openTxns'[txn]?.getD [] = [])
    (hrest : ∀ t : TxnId, t ≠ txn → openTxns'[t]? = openTxns[t]?) :
    HoldsOpen openTxns' (h.filter (·.1 ≠ txn)) := by
  intro t
  rw [List.filter_filter]
  by_cases ht : t = txn
  · subst ht
    rw [hself]
    simp
  · rw [hrest t ht, hopen t]
    congr 2
    funext p
    by_cases hp : p.1 = t <;> simp [hp, ht]

variable {openTxns : OpenTxns V}

omit [Ord V] in
theorem HoldsOpen.erase (hopen : HoldsOpen openTxns h)
    (txn : TxnId) : HoldsOpen (openTxns.erase txn) (h.filter (·.1 ≠ txn)) := by
  refine hopen.drop ?_ fun t ht => ?_
  · rw [getElem?_erase_self]
    rfl
  · rw [getElem?_erase, if_neg (by simpa using Ne.symm ht)]

omit [Ord V] in
theorem HoldsOpen.begin (hopen : HoldsOpen openTxns h)
    (txn : TxnId) : HoldsOpen (openTxns.insert txn []) (h.filter (·.1 ≠ txn)) := by
  refine hopen.drop ?_ fun t ht => ?_
  · rw [getElem?_insert_self]
    rfl
  · rw [ExtTreeMap.getElem?_insert, if_neg (by simpa using Ne.symm ht)]

omit [Ord V] in
theorem HoldsOpen.hold (hopen : HoldsOpen openTxns h)
    (txn : TxnId) (entry : Nat × WalRecord V) :
    HoldsOpen (openTxns.insert txn (openTxns[txn]?.getD [] ++ [entry])) (h ++ [(txn, entry)]) := by
  intro t
  simp only [filter_append, ExtTreeMap.getElem?_insert, Std.compare_eq_iff_eq]
  split
  · next heq =>
    subst heq
    rw [getD_some, hopen txn]
    simp
  · next hne =>
    rw [hopen t]
    simp [hne]

theorem exec_replay {r r' : Replay V}
    (hfold : l.foldlM Replay.entry r = .ok r') (hopen : HoldsOpen r.openTxns h)
    (hsorted : (h.map (·.2) ++ l).Pairwise (·.1 ≤ ·.1)) :
    Exec ReplayStep (deferred h (l.map WalRecord.item)) r.state r'.state := by
  induction l generalizing r h with
  | nil =>
    rw [foldlM_nil_eq_ok] at hfold
    exact congrArg _ hfold
  | cons e l ih =>
    obtain ⟨lsn, record⟩ := e
    obtain ⟨m, hm, hrest⟩ := foldlM_cons_eq_ok.mp hfold
    have hskip : (h.map (·.2) ++ l).Pairwise (·.1 ≤ ·.1) :=
      hsorted.sublist ((List.Sublist.refl _).append (sublist_cons_self ..))
    have hdrop : ∀ txn, ((h.filter (·.1 ≠ txn)).map (·.2) ++ l).Pairwise (·.1 ≤ ·.1) := fun txn =>
      hskip.sublist ((filter_sublist.map _).append (List.Sublist.refl _))
    cases record with
    | autocommitInsertRow | autocommitDeleteRow | autocommitUpdateRow =>
      obtain ⟨state, hstate, heq⟩ := bind_eq_ok.mp hm
      cases heq
      exact ⟨state, hstate, ih hrest hopen hskip⟩
    | beginTxn txn =>
      cases hm
      have hexec := ih hrest (hopen.begin txn) (hdrop txn)
      exact hexec
    | abortTxn txn =>
      cases hm
      have hexec := ih hrest (hopen.erase txn) (hdrop txn)
      exact hexec
    | commitTxn txn =>
      simp only [Replay.entry] at hm
      show Exec ReplayStep (_ ++ _) _ _
      rw [← hopen txn, exec_append]
      cases hrecords : r.openTxns[txn]? with
      | none =>
        rw [hrecords] at hm
        cases hm
        refine ⟨r.state, rfl, ih hrest (hopen.drop ?_ fun _ _ => rfl) (hdrop txn)⟩
        rw [hrecords]
        rfl
      | some records =>
        rw [hrecords] at hm
        obtain ⟨state, hstate, heq⟩ := bind_eq_ok.mp hm
        cases heq
        have hheld : records = (h.filter (·.1 = txn)).map (·.2) := by
          rw [← hopen txn, hrecords]
          rfl
        have hordered : records.insertionSort (·.1 ≤ ·.1) = records := by
          refine List.Pairwise.insertionSort_eq ?_
          rw [hheld]
          exact (pairwise_append.mp hskip).1.sublist (filter_sublist.map _)
        rw [replayTransaction, hordered] at hstate
        exact ⟨state, exec_replayStep.mpr hstate, ih hrest (hopen.erase txn) (hdrop txn)⟩
    | checkpoint =>
      cases hm
      exact ih hrest hopen hskip
    | _ =>
      cases hm
      have hexec := ih hrest (hopen.hold _ _) (by
        rw [map_append, append_assoc]
        exact hsorted)
      exact hexec

omit [Ord V] in
theorem mem_of_mem_arrival {e : Nat × WalRecord V}
    (h : e ∈ arrival (l.map WalRecord.item)) (indexTable : IndexId → RelationId) :
    e ∈ l ∧ (e.2.tableOf indexTable).isSome := by
  have hitem : ∀ d ∈ l, (WalRecord.item d = .now e ∨ ∃ t, WalRecord.item d = .held t e) →
      e ∈ l ∧ (e.2.tableOf indexTable).isSome := by
    rintro ⟨lsn, record⟩ hd hitem
    cases record <;> simp [WalRecord.item] at hitem <;> subst hitem <;> exact ⟨hd, rfl⟩
  rcases mem_arrival h with hnow | ⟨t, hheld⟩
  · obtain ⟨d, hd, heq⟩ := mem_map.mp hnow
    exact hitem d hd (Or.inl heq)
  · obtain ⟨d, hd, heq⟩ := mem_map.mp hheld
    exact hitem d hd (Or.inr ⟨t, heq⟩)

theorem recover_none (records : List (WalRecord V)) :
    recover none (numbered 1 records) = (numbered 1 records).foldlM Replay.entry {} := by
  have hall : (numbered 1 records).filter (0 < ·.1) = numbered 1 records := by
    refine filter_eq_self.mpr fun e he => decide_eq_true ?_
    obtain ⟨hle, -⟩ := mem_numbered.mp he
    exact hle
  have h := @recover_eq V _ none 0 Nat.one_pos Nat.one_pos records
  rw [hall] at h
  exact h

omit [Ord V] in
theorem pairwise_numbered (start : Nat) (records : List (WalRecord V)) :
    (numbered start records).Pairwise (·.1 ≤ ·.1) := by
  induction records generalizing start with
  | nil => exact List.Pairwise.nil
  | cons r l ih =>
    refine List.Pairwise.cons (fun e he => ?_) (ih (start + 1))
    have hle := (mem_numbered.mp he).1
    exact Nat.le_of_succ_le hle

def StorageState.liveTables (s : StorageState V) (tableId : RelationId) :
    Option (TableStorageDescriptor × List (TupleId × Row V)) :=
  s.tables[tableId]?.map fun t => (t.descriptor, t.liveRows)

omit [Ord V] in
theorem StorageState.liveTables_congr (h : s'.spec = s.spec) : s'.liveTables = s.liveTables := by
  funext tableId
  have htable := congrArg (fun a => (a tableId).table) h
  simp only [spec] at htable
  unfold liveTables
  cases hs : s.tables[tableId]? with
  | none =>
    rw [hs, map_none, map_eq_none_iff] at htable
    rw [htable]
  | some t =>
    rw [hs, map_some, map_eq_some_iff] at htable
    obtain ⟨t', ht', heq⟩ := htable
    obtain ⟨hdesc, hrows⟩ := Prod.mk.inj heq
    rw [ht', map_some, map_some, hdesc, TableData.liveRows_congr hrows]

/-- A log in which every transaction with records commits, and in which nothing
that is replayed before a record that arrived earlier depends on it: where
recovery goes well, so does a replica, and both have the same tables with the
same live rows. -/
theorem replica_agrees_with_recovery (indexTable : IndexId → RelationId)
    (records : List (WalRecord V)) (hnames : ∀ r ∈ records, r.NamesIndex indexTable)
    (horderly : Orderly (fun e e' => e.2.Independent indexTable e'.2) []
      ((numbered 1 records).map WalRecord.item))
    (recovered : Replay V) (hrecover : recover none (numbered 1 records) = .ok recovered) :
    ∃ s, (numbered 1 records).foldlM StorageState.applyReplicatedWalEntry {} = .ok s ∧
      s.liveTables = recovered.state.liveTables := by
  rw [recover_none] at hrecover
  have hswaps := swaps_of_orderly horderly
  rw [map_nil, nil_append] at hswaps
  have hok : ∀ e ∈ arrival ((numbered 1 records).map WalRecord.item),
      e.2.NamesIndex indexTable ∧ (e.2.tableOf indexTable).isSome := by
    intro e he
    obtain ⟨hmem, hsome⟩ := mem_of_mem_arrival he indexTable
    exact ⟨hnames _ (mem_of_getElem? (mem_numbered.mp hmem).2), hsome⟩
  have hplaced : ({} : StorageState V).IndexesPlaced indexTable := by
    intro i d hd
    simp [StorageState.indexDefs] at hd
  have hexec := exec_replay (h := []) hrecover (fun txn => by simp) (pairwise_numbered 1 records)
  have hmap : ∀ (s : StorageState V) e s', s.IndexesPlaced indexTable →
      e.2.NamesIndex indexTable ∧ (e.2.tableOf indexTable).isSome → ReplayStep s e s' →
      s'.IndexesPlaced indexTable ∧ DbStep indexTable s.spec e s'.spec := fun s e s' hs he h =>
    replayRecord_map hs he h
  have hlift : ∀ (s : StorageState V) e a, s.IndexesPlaced indexTable →
      e.2.NamesIndex indexTable ∧ (e.2.tableOf indexTable).isSome → DbStep indexTable s.spec e a →
      ∃ s', s'.IndexesPlaced indexTable ∧ ReplayStep s e s' ∧ s'.spec = a := fun s e a hs he h =>
    replayRecord_lift hs he h
  have hspec := hexec.map hmap (fun e he => hok e (hswaps.mem_iff.mp he)) hplaced
  obtain ⟨s, hs, heq⟩ := (hswaps.exec (fun e e' hi => dbStep_comm hi) hspec).lift hlift hok hplaced
  exact ⟨s, exec_applyReplicated.mp hs, liveTables_congr heq⟩

end

def tableOne : TableStorageDescriptor := { tableId := 5, columns := [{ columnId := 1 }] }

def tableOneRecords : List (WalRecord Nat) := [.beginTxn 1, .createTable 1 tableOne, .commitTxn 1]

/-- Two transactions and an autocommit write on different rows, the transaction
that began later ending first. -/
def interleavedRecords : List (WalRecord Nat) :=
  tableOneRecords ++ [.beginTxn 2, .insertRow 2 5 1 [some 7], .beginTxn 3, .insertRow 3 5 2 [some 8],
    .autocommitInsertRow 9 5 3 [some 9], .updateRow 3 5 2 2 [some 6], .commitTxn 3, .commitTxn 2]

theorem replica_agrees_with_recovery_interleaved :
    ∃ s, (numbered 1 interleavedRecords).foldlM StorageState.applyReplicatedWalEntry {} = .ok s ∧
      s.liveTables =
        ((recover none (numbered 1 interleavedRecords)).toOption.getD {}).state.liveTables :=
  replica_agrees_with_recovery (fun _ => 5) interleavedRecords (by decide) (by decide) _
    (eq_ok_of_isSome _ (by decide +kernel))

/-- A transaction that aborts and one that does not end. -/
def unfinishedRecords : List (WalRecord Nat) :=
  tableOneRecords ++ [.beginTxn 2, .insertRow 2 5 1 [some 7], .abortTxn 2, .beginTxn 3,
    .insertRow 3 5 2 [some 8]]

/-- A committed transaction whose row is deleted before its commit record. -/
def overtakenRecords : List (WalRecord Nat) :=
  tableOneRecords ++ [.beginTxn 2, .insertRow 2 5 1 [some 7], .autocommitDeleteRow 9 5 1,
    .commitTxn 2]

theorem replica_shows_uncommitted_rows :
    (∃ s r, (numbered 1 unfinishedRecords).foldlM StorageState.applyReplicatedWalEntry {} = .ok s ∧
      recover none (numbered 1 unfinishedRecords) = .ok r ∧
      (s.liveTables 5).map (·.2) = some [(1, [some 7]), (2, [some 8])] ∧
      (r.state.liveTables 5).map (·.2) = some []) ∧
    ∃ s r, (numbered 1 overtakenRecords).foldlM StorageState.applyReplicatedWalEntry {} = .ok s ∧
      recover none (numbered 1 overtakenRecords) = .ok r ∧
      (s.liveTables 5).map (·.2) = some [] ∧
      (r.state.liveTables 5).map (·.2) = some [(1, [some 7])] := by
  refine ⟨⟨_, _, eq_ok_of_isSome {} ?_, eq_ok_of_isSome {} ?_, ?_, ?_⟩,
    ⟨_, _, eq_ok_of_isSome {} ?_, eq_ok_of_isSome {} ?_, ?_, ?_⟩⟩
  all_goals decide +kernel

end AionDb
