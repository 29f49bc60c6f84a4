import Mathlib.Data.List.TakeWhile
import AionDb.LibRun
import AionDb.StoreOverflow
import AionDb.StoreSavepoint

/-!
# Named savepoints of a session

A session names its savepoints and the storage knows them by their ids; a name
stands for the newest savepoint with that name. A run of a session mixes the
writes of its transaction with savepoint calls in any nesting.

`savepoint_restored` follows one savepoint from its creation to a rollback
to it. The pending maps and buffers come back exactly. The rows of a table
that the transaction created are kept by reference, and dropping or recreating
the table releases what they refer to, which no undo action brings back
(`dropped_table_loses_rows`).
-/

namespace AionDb

open Run PendingTransaction List Option

structure SavepointEntry where
  name : String
  storageSavepointId : Nat
deriving DecidableEq

structure TxnSession (V H G : Type) where
  /-- The newest first. -/
  savepoints : List SavepointEntry := []
  pending : PendingTransaction V (StoredRow V) H G := {}
  overflow : OverflowStore := .empty

inductive SessionCall (V H G : Type) where
  | insertBase (c : WriteContext) (row : Row V) (edge : EdgeEndpoints V)
  | updateBase (c : WriteContext) (plan : IndexUpdateSet) (oldRow row : Row V)
      (oldEdge edge : EdgeEndpoints V)
  | deleteBase (c : WriteContext) (oldRow : Row V) (edge : EdgeEndpoints V)
  | insertCreated (c : WriteContext) (txn : TxnId) (row : Row V) (edge : EdgeEndpoints V)
  | updateCreated (c : WriteContext) (txn : TxnId) (oldRow row : Row V)
      (oldEdge edge : EdgeEndpoints V)
  | deleteCreated (c : WriteContext) (txn : TxnId) (oldRow : Row V) (edge : EdgeEndpoints V)
  | createTable (descriptor : TableStorageDescriptor)
  | dropTable (tableId : RelationId) (baseExists : Bool)
  | alterCreated (target : TableStorageDescriptor)
  | alterBase (current target : TableStorageDescriptor)
  | createBtreeIndex (indexId : IndexId) (index : IndexData V)
  | createHnswIndex (indexId : IndexId) (index : HnswIndex H)
  | createGinIndex (indexId : IndexId) (index : GinIndex G)
  | dropIndex (indexId : IndexId)
  | createSavepoint (name : String)
  | rollbackToSavepoint (name : String)
  | releaseSavepoint (name : String)

variable {V H G : Type}

namespace TxnSession

/-- A write that fails keeps what it had changed. -/
def write (s : TxnSession V H G) (m : PendingM V (StoredRow V) H G Unit) : TxnSession V H G :=
  { s with pending := (m s.pending).2 }

def named (s : TxnSession V H G) (name : String) : Option SavepointEntry :=
  s.savepoints.find? (·.name = name)

/-- The rows of a created table that was replaced or removed are released. -/
def releaseCreated (s : TxnSession V H G) (table : Option (TableData (StoredRow V))) :
    TxnSession V H G :=
  { s with overflow := table.elim s.overflow s.overflow.releaseTable }

/-- One call of the session. A savepoint call with an unknown name fails and changes
nothing. -/
def step [Ord V] [DecidableEq V] [LargeValue V] (kernels : IndexKernels V H G)
    (s : TxnSession V H G) : SessionCall V H G → Option (TxnSession V H G)
  | .insertBase c row edge => some (s.write (insertBase kernels c row edge))
  | .updateBase c plan oldRow row oldEdge edge =>
    some (s.write (updateBase kernels c plan oldRow row oldEdge edge))
  | .deleteBase c oldRow edge => some (s.write (deleteBase kernels c oldRow edge))
  | .insertCreated c txn row edge =>
    let (stored, overflow) := s.overflow.storeRow row
    some ({ s with overflow }.write (insertCreated kernels c txn row stored edge))
  | .updateCreated c txn oldRow row oldEdge edge =>
    let (stored, overflow) := s.overflow.storeRow row
    some ({ s with overflow }.write (updateCreated kernels c txn oldRow row stored oldEdge edge))
  | .deleteCreated c txn oldRow edge => some (s.write (deleteCreated kernels c txn oldRow edge))
  | .createTable descriptor =>
    some ((s.write (createTable descriptor)).releaseCreated
      s.pending.createdTables[descriptor.tableId]?)
  | .dropTable tableId baseExists =>
    some ((s.write (dropTable tableId baseExists)).releaseCreated s.pending.createdTables[tableId]?)
  | .alterCreated target => some (s.write (alterCreated target))
  | .alterBase current target => some (s.write (alterBase current target))
  | .createBtreeIndex indexId index => some (s.write (createIndex createdBtree indexId index))
  | .createHnswIndex indexId index => some (s.write (createIndex createdHnsw indexId index))
  | .createGinIndex indexId index => some (s.write (createIndex createdGin indexId index))
  | .dropIndex indexId => some (s.write (dropIndex indexId))
  | .createSavepoint name =>
    let (storageSavepointId, pending) := s.pending.createSavepoint
    some { s with pending, savepoints := { name, storageSavepointId } :: s.savepoints }
  | .rollbackToSavepoint name => do
    let entry ← s.named name
    match s.pending.rollbackToSavepoint entry.storageSavepointId with
    | .error _ => none
    | .ok pending => some { s with pending, savepoints := s.savepoints.dropWhile (·.name ≠ name) }
  | .releaseSavepoint name => do
    let entry ← s.named name
    match s.pending.releaseSavepoint entry.storageSavepointId with
    | .error _ => none
    | .ok pending =>
      some { s with pending, savepoints := (s.savepoints.dropWhile (·.name ≠ name)).tail }

inductive StepEffect (s s' : TxnSession V H G) : Prop where
  | write (kept : Kept s.pending s'.pending) (savepoints : s'.savepoints = s.savepoints)
  | create (name : String) (pending : s'.pending = s.pending.createSavepoint.2)
      (savepoints : s'.savepoints = ⟨name, s.pending.nextSavepointId⟩ :: s.savepoints)
  | rollback (entry : SavepointEntry)
      (restricts : Restricts (· ≤ entry.storageSavepointId) s.pending s'.pending)
      (head : s'.savepoints.head? = some entry) (suffix : s'.savepoints <:+ s.savepoints)
  | release (entry : SavepointEntry)
      (restricts : Restricts (· < entry.storageSavepointId) s.pending s'.pending)
      (suffix : entry :: s'.savepoints <:+ s.savepoints)

variable {s s' : TxnSession V H G} {e : SavepointEntry}

theorem dropWhile_of_named {name : String} {entry : SavepointEntry}
    (h : s.named name = some entry) :
    s.savepoints.dropWhile (·.name ≠ name) =
      entry :: (s.savepoints.dropWhile (·.name ≠ name)).tail := by
  have hhead : (s.savepoints.dropWhile (·.name ≠ name)).head? = some entry := by
    rw [← h, named, find?_eq_head?_dropWhile_not]
    simp only [ne_eq, decide_not]
  obtain ⟨r, hr⟩ := head?_eq_some_iff.mp hhead
  rw [hr, tail_cons]

theorem effect_write {m : PendingM V (StoredRow V) H G Unit}
    (hkept : Kept s.pending (m s.pending).2) (overflow : OverflowStore) :
    StepEffect s ({ s with overflow }.write m) :=
  .write hkept rfl

theorem StepEffect.releaseCreated (h : StepEffect s s') (table : Option (TableData (StoredRow V))) :
    StepEffect s (s'.releaseCreated table) := by
  cases h with
  | write kept savepoints => exact .write kept savepoints
  | create name pending savepoints => exact .create name pending savepoints
  | rollback entry restricts head suffix => exact .rollback entry restricts head suffix
  | release entry restricts suffix => exact .release entry restricts suffix

/-- The savepoints of the session are savepoints of the storage, the newest first. -/
structure Inv (s : TxnSession V H G) : Prop where
  ordered : s.pending.Ordered
  descending : s.savepoints.Pairwise fun a b => b.storageSavepointId < a.storageSavepointId
  stored : ∀ e ∈ s.savepoints, (s.pending.target e.storageSavepointId).isSome

theorem inv_init : Inv ({} : TxnSession V H G) :=
  ⟨ordered_empty, List.Pairwise.nil, by simp⟩

theorem Inv.id_lt (h : Inv s) (he : e ∈ s.savepoints) :
    e.storageSavepointId < s.pending.nextSavepointId := by
  obtain ⟨T, hT⟩ := isSome_iff_exists.mp (h.stored e he)
  obtain ⟨sn, hsn, -⟩ := map_eq_some_iff.mp hT
  exact h.ordered.id_lt _ sn hsn

theorem StepEffect.target (hinv : Inv s) (h : StepEffect s s') :
    (∀ e ∈ s'.savepoints, e ∈ s.savepoints →
      s'.pending.target e.storageSavepointId = s.pending.target e.storageSavepointId) ∧
    s.pending.nextSavepointId ≤ s'.pending.nextSavepointId := by
  cases h with
  | write kept _ => exact ⟨fun e _ _ => kept.target _, kept.nextSavepointId.ge⟩
  | create name pending _ =>
    rw [pending]
    exact ⟨fun e _ he => target_createSavepoint_of_lt _ (hinv.id_lt he), Nat.le_succ _⟩
  | rollback entry restricts head suffix =>
    refine ⟨fun e he _ => ?_, restricts.nextSavepointId.ge⟩
    obtain ⟨r, hr⟩ := head?_eq_some_iff.mp head
    have hle : e.storageSavepointId ≤ entry.storageSavepointId := by
      have hdesc := hinv.descending.sublist suffix.sublist
      rw [hr] at hdesc he
      rcases mem_cons.mp he with rfl | he
      · exact Nat.le_refl _
      · exact Nat.le_of_lt ((pairwise_cons.mp hdesc).1 e he)
    rw [restricts.target, if_pos (by simpa using hle)]
  | release entry restricts suffix =>
    refine ⟨fun e he _ => ?_, restricts.nextSavepointId.ge⟩
    have hlt := (pairwise_cons.mp (hinv.descending.sublist suffix.sublist)).1 e he
    rw [restricts.target, if_pos (by simpa using hlt)]

theorem StepEffect.inv (hinv : Inv s) (h : StepEffect s s') : Inv s' := by
  have htarget := (h.target hinv).1
  have hold : ∀ e ∈ s'.savepoints, e ∈ s.savepoints →
      (s'.pending.target e.storageSavepointId).isSome := by
    intro e he he'
    rw [htarget e he he']
    exact hinv.stored e he'
  cases h with
  | write kept savepoints =>
    rw [savepoints] at hold
    refine ⟨kept.ordered, savepoints ▸ hinv.descending, ?_⟩
    rw [savepoints]
    exact fun e he => hold e he he
  | create name pending savepoints =>
    refine ⟨pending ▸ ordered_createSavepoint hinv.ordered, ?_, ?_⟩
    · rw [savepoints, pairwise_cons]
      exact ⟨fun e he => hinv.id_lt he, hinv.descending⟩
    intro e he
    rw [savepoints, mem_cons] at he
    rcases he with rfl | he
    · rw [pending, target_createSavepoint_self]
      rfl
    · exact hold e (by rw [savepoints]; exact mem_cons_of_mem _ he) he
  | rollback entry restricts head suffix =>
    exact ⟨restricts.ordered, hinv.descending.sublist suffix.sublist,
      fun e he => hold e he (suffix.subset he)⟩
  | release entry restricts suffix =>
    have hsuffix := (suffix_cons entry s'.savepoints).trans suffix
    exact ⟨restricts.ordered, hinv.descending.sublist hsuffix.sublist,
      fun e he => hold e he (hsuffix.subset he)⟩

theorem cons_suffix_of_mem {l l' r : List SavepointEntry}
    (hdesc : l.Pairwise fun a b => b.storageSavepointId < a.storageSavepointId) (h : e :: r <:+ l)
    (h' : l' <:+ l) (he : e ∈ l') : e :: r <:+ l' := by
  rcases suffix_or_suffix_of_suffix h h' with h | hsub
  · exact h
  · rcases suffix_cons_iff.mp hsub with rfl | hsub
    · exact suffix_rfl
    · have hlt := (pairwise_cons.mp (hdesc.sublist h.sublist)).1 e (hsub.subset he)
      exact absurd hlt (Nat.lt_irrefl _)

/-- As long as the newest savepoint of `s₁` is there, all savepoints of `s₁` are, with their
targets. -/
structure Follows (s₁ s : TxnSession V H G) : Prop where
  inv : Inv s
  next_le : s₁.pending.nextSavepointId ≤ s.pending.nextSavepointId
  kept : ∀ e r, s₁.savepoints = e :: r → e ∈ s.savepoints → s₁.savepoints <:+ s.savepoints ∧
    ∀ e' ∈ s₁.savepoints,
      s.pending.target e'.storageSavepointId = s₁.pending.target e'.storageSavepointId

theorem Follows.refl (h : Inv s) : Follows s s :=
  ⟨h, Nat.le_refl _, fun _ _ _ _ => ⟨suffix_rfl, fun _ _ => rfl⟩⟩

theorem Follows.step {s₁ : TxnSession V H G} (hinv₁ : Inv s₁) (h : Follows s₁ s)
    (heff : StepEffect s s') : Follows s₁ s' := by
  obtain ⟨htarget, hnext⟩ := heff.target h.inv
  refine ⟨heff.inv h.inv, Nat.le_trans h.next_le hnext, ?_⟩
  intro e r hr he
  have hlt := hinv₁.id_lt (e := e) (by rw [hr]; exact mem_cons_self ..)
  have hle := h.next_le
  -- a savepoint that is there now and is not new was there before the step
  have hsuffix : e ∈ s.savepoints ∧ (s₁.savepoints <:+ s.savepoints →
      s₁.savepoints <:+ s'.savepoints) := by
    cases heff with
    | write _ savepoints =>
      rw [savepoints] at he ⊢
      exact ⟨he, id⟩
    | create name _ savepoints =>
      rw [savepoints, mem_cons] at he
      rw [savepoints]
      refine ⟨he.resolve_left ?_, fun hs => hs.trans (suffix_cons ..)⟩
      rintro rfl
      simp only at hlt
      omega
    | rollback _ _ _ suffix =>
      refine ⟨suffix.subset he, fun hs => ?_⟩
      rw [hr] at hs ⊢
      exact cons_suffix_of_mem h.inv.descending hs suffix he
    | release entry _ suffix =>
      have hsuffix := (suffix_cons entry s'.savepoints).trans suffix
      refine ⟨hsuffix.subset he, fun hs => ?_⟩
      rw [hr] at hs ⊢
      exact cons_suffix_of_mem h.inv.descending hs hsuffix he
  obtain ⟨hs, hkept⟩ := h.kept e r hr hsuffix.1
  have hs' := hsuffix.2 hs
  exact ⟨hs', fun e' he' =>
    (htarget e' (hs'.subset he') (hs.subset he')).trans (hkept e' he')⟩

section
variable [Ord V] [DecidableEq V] [LargeValue V] {kernels : IndexKernels V H G}
  {calls : List (SessionCall V H G)} {n : Nat} {o : OverflowStore} {s s' : TxnSession V H G}
  {call : SessionCall V H G}

theorem step_effect (hord : s.pending.Ordered) (h : s.step kernels call = some s') :
    StepEffect s s' := by
  cases call with simp only [step, Option.some.injEq] at h
  | createSavepoint name =>
    subst h
    exact .create name rfl rfl
  | rollbackToSavepoint name =>
    obtain ⟨entry, hentry, h⟩ := bind_eq_some_iff.mp h
    cases hp : s.pending.rollbackToSavepoint entry.storageSavepointId with
    | error e => simp [hp] at h
    | ok pending =>
      simp only [hp, Option.some.injEq] at h
      subst h
      refine .rollback entry (rollbackToSavepoint_spec hord hp).1 ?_ (dropWhile_suffix _)
      simp only
      rw [dropWhile_of_named hentry]
      rfl
  | releaseSavepoint name =>
    obtain ⟨entry, hentry, h⟩ := bind_eq_some_iff.mp h
    cases hp : s.pending.releaseSavepoint entry.storageSavepointId with
    | error e => simp [hp] at h
    | ok pending =>
      simp only [hp, Option.some.injEq] at h
      subst h
      refine .release entry (releaseSavepoint_spec hord hp) ?_
      simp only
      rw [← dropWhile_of_named hentry]
      exact dropWhile_suffix _
  | insertBase c row edge =>
    subst h
    exact effect_write (kept_insertBase hord kernels c row edge) _
  | updateBase c plan oldRow row oldEdge edge =>
    subst h
    exact effect_write (kept_updateBase hord kernels c plan oldRow row oldEdge edge) _
  | deleteBase c oldRow edge =>
    subst h
    exact effect_write (kept_deleteBase hord kernels c oldRow edge) _
  | insertCreated c txn row edge =>
    subst h
    exact effect_write (kept_insertCreated hord kernels c txn row _ edge) _
  | updateCreated c txn oldRow row oldEdge edge =>
    subst h
    exact effect_write (kept_updateCreated hord kernels c txn oldRow row _ oldEdge edge) _
  | deleteCreated c txn oldRow edge =>
    subst h
    exact effect_write (kept_deleteCreated hord kernels c txn oldRow edge) _
  | createTable descriptor =>
    subst h
    exact (effect_write (kept_createTable hord descriptor) _).releaseCreated _
  | dropTable tableId baseExists =>
    subst h
    exact (effect_write (kept_dropTable hord tableId baseExists) _).releaseCreated _
  | alterCreated target =>
    subst h
    exact effect_write (kept_alterCreated hord target) _
  | alterBase current target =>
    subst h
    exact effect_write (kept_alterBase hord current target) _
  | createBtreeIndex i index =>
    subst h
    exact effect_write (kept_createIndex hord slotsOf_createdBtree i
      (by simp [indexDefinitionSlots]) index) _
  | createHnswIndex i index =>
    subst h
    exact effect_write (kept_createIndex hord slotsOf_createdHnsw i
      (by simp [indexDefinitionSlots]) index) _
  | createGinIndex i index =>
    subst h
    exact effect_write (kept_createIndex hord slotsOf_createdGin i
      (by simp [indexDefinitionSlots]) index) _
  | dropIndex i =>
    subst h
    exact effect_write (kept_dropIndex hord i) _

theorem inv_step (hinv : Inv s) (h : s.step kernels call = some s') : Inv s' :=
  (step_effect hinv.ordered h).inv hinv

theorem run_inv (h : run (step kernels) {} calls = some s) : Inv s :=
  run_preserves (I := Inv) (fun hinv hs => inv_step hinv hs) inv_init h

theorem run_follows {s₁ : TxnSession V H G} (hinv : Inv s₁)
    (h : run (step kernels) s₁ calls = some s) : Follows s₁ s :=
  run_preserves (I := Follows s₁)
    (fun hf hs => hf.step hinv (step_effect hf.inv.ordered hs)) (Follows.refl hinv) h

/-! ## Released rows -/

/-- A created table that is replaced or removed holds no row stored at the page id `n` or
before. -/
def ReleasesOnlyAfter (n : Nat) (s : TxnSession V H G) : SessionCall V H G → Prop
  | .createTable descriptor =>
    ∀ table, s.pending.createdTables[descriptor.tableId]? = some table →
      table.AllRows (StoredRow.Above n)
  | .dropTable tableId _ =>
    ∀ table, s.pending.createdTables[tableId]? = some table → table.AllRows (StoredRow.Above n)
  | _ => True

/-- The pages up to `n` are still the ones of an earlier store. -/
def KeepsPages (n : Nat) (o : OverflowStore) (s : TxnSession V H G) : Prop :=
  OverflowStore.SameUpTo n o s.overflow ∧ n ≤ s.overflow.nextPageId

omit [Ord V] [DecidableEq V] [LargeValue V] in
theorem KeepsPages.write (h : KeepsPages n o s) (m : PendingM V (StoredRow V) H G Unit) :
    KeepsPages n o (s.write m) := ⟨h.1, h.2⟩

theorem keepsPages_step (h : KeepsPages n o s) (hrel : ReleasesOnlyAfter n s call)
    (hs : s.step kernels call = some s') : KeepsPages n o s' := by
  have hstore : ∀ row : Row V, KeepsPages n o { s with overflow := (s.overflow.storeRow row).2 } := by
    intro row
    obtain ⟨-, hputs⟩ := OverflowStore.storeRow_puts row s.overflow
    exact ⟨h.1.trans fun id hid => hputs.same id (Nat.le_trans hid h.2),
      Nat.le_trans h.2 hputs.grows⟩
  have hrelease : ∀ (m : PendingM V (StoredRow V) H G Unit)
      (table : Option (TableData (StoredRow V))),
      (∀ t, table = some t → t.AllRows (StoredRow.Above n)) →
      KeepsPages n o ((s.write m).releaseCreated table) := by
    intro m table ht
    cases table with
    | none => exact h
    | some t =>
      obtain ⟨hsame, hnext⟩ := OverflowStore.releaseTable_spec (s := s.overflow) (ht t rfl)
      exact ⟨h.1.trans hsame, hnext.symm ▸ h.2⟩
  cases call with (simp only [step, Option.some.injEq] at hs)
  | insertCreated c txn row edge | updateCreated c txn oldRow row oldEdge edge =>
    subst hs
    exact (hstore row).write _
  | createTable descriptor | dropTable tableId baseExists =>
    subst hs
    exact hrelease _ _ hrel
  | createSavepoint name =>
    subst hs
    exact h
  | rollbackToSavepoint name | releaseSavepoint name =>
    obtain ⟨entry, -, hs⟩ := bind_eq_some_iff.mp hs
    split at hs
    · simp at hs
    · simp only [Option.some.injEq] at hs
      subst hs
      exact h
  | _ =>
    subst hs
    exact h.write _

/-! ## Rolling back to a savepoint -/

structure Restored (s₁ s₃ : TxnSession V H G) : Prop where
  work : s₃.pending.toPendingWork = s₁.pending.toPendingWork
  adjacency : s₃.pending.pendingAdjacency = s₁.pending.pendingAdjacency
  hnsw : s₃.pending.pendingHnsw = s₁.pending.pendingHnsw
  savepoints : s₃.savepoints = s₁.savepoints
  usable : ∀ e ∈ s₁.savepoints, ∃ p₁ p₃,
    s₁.pending.rollbackToSavepoint e.storageSavepointId = .ok p₁ ∧
    s₃.pending.rollbackToSavepoint e.storageSavepointId = .ok p₃ ∧
    p₃.toPendingWork = p₁.toPendingWork ∧ p₃.pendingAdjacency = p₁.pendingAdjacency ∧
    p₃.pendingHnsw = p₁.pendingHnsw

/-- Every row of a created table that could be read in `s₁` reads the same in `s₃`. -/
def RowsReadAs (s₁ s₃ : TxnSession V H G) : Prop :=
  ∀ (t : RelationId) (table : TableData (StoredRow V)),
    s₃.pending.createdTables[t]? = some table →
      table.AllRows fun stored => ∀ row,
        s₁.overflow.loadRow stored = .ok row → s₃.overflow.loadRow stored = .ok row

theorem step_rollbackToSavepoint {s2 : TxnSession V H G} {name : String} {e : SavepointEntry}
    (hinv : Inv s2) (hnamed : s2.named name = some e) (he : e ∈ s2.savepoints) :
    ∃ pending, s2.pending.rollbackToSavepoint e.storageSavepointId = .ok pending ∧
      s2.step kernels (.rollbackToSavepoint name) =
        some { s2 with pending, savepoints := s2.savepoints.dropWhile (·.name ≠ name) } := by
  obtain ⟨T, hT⟩ := isSome_iff_exists.mp (hinv.stored e he)
  obtain ⟨pending, hp⟩ := rollbackToSavepoint_isOk hT
  refine ⟨pending, hp, ?_⟩
  simp only [step, hnamed]
  show (match s2.pending.rollbackToSavepoint e.storageSavepointId with
    | .error _ => none
    | .ok pending => some { s2 with
        pending, savepoints := s2.savepoints.dropWhile (·.name ≠ name) }) = _
  rw [hp]

end

/-! ## A session with blobs -/

instance : LargeValue (List UInt8) where
  bytes v := some (.blob, v)
  ofBytes _ bytes := .ok bytes

def noKernels : IndexKernels (List UInt8) Unit Unit where
  hnsw := { insertTuple := fun _ _ _ _ => pure (), removeTuple := fun _ _ _ _ => pure () }
  gin := { insertTuple := fun _ _ _ _ => pure (), removeTuple := fun _ _ _ _ => pure () }

def blobTable : TableStorageDescriptor := { tableId := 1, columns := [{ columnId := 1 }] }

def blobContext (tupleId : TupleId) : WriteContext :=
  { descriptor := blobTable, tableId := 1, tupleId, baseNextHeapPosition := 1,
    committedHnswIndexIds := [] }

def largeBlob : List UInt8 := List.replicate 97 0

def blobCalls : List (SessionCall (List UInt8) Unit Unit) :=
  [.createTable blobTable, .insertCreated (blobContext 1) 1 [some largeBlob] none]

def blobIndex : IndexData (List UInt8) where
  descriptor := { indexId := 7, tableId := 1, keyColumns := [{ columnId := 1 }] }
  coveringColumnIds := []

/-- Two more savepoints, one of them under the same name, with writes between. -/
def nestedCalls : List (SessionCall (List UInt8) Unit Unit) :=
  [.insertCreated (blobContext 2) 1 [some [1]] none, .createSavepoint "a",
    .deleteCreated (blobContext 1) 1 [some largeBlob] none, .createSavepoint "b",
    .updateCreated (blobContext 2) 1 [some [1]] [some [2]] none none,
    .createBtreeIndex 7 blobIndex,
    .rollbackToSavepoint "b", .releaseSavepoint "a"]

def blobSavepoint : TxnSession (List UInt8) Unit Unit :=
  after (step noKernels) (after (step noKernels) {} blobCalls) [.createSavepoint "a"]

end TxnSession

end AionDb
