import AionDb.StoreBatch
import Mathlib.Data.List.Pairwise

/-!
# When a batch is all or nothing

The check of a row against the committed state is exact when the indexes are
complete: it passes if and only if no live row has its key. A batch whose rows
have different keys among themselves is then published as a whole or not at all.
-/

namespace AionDb

open Std Effect ExtTreeMap List Option StorageState TableData

variable {V : Type} [Ord V]

namespace StorageState

variable {s s' : StorageState V} {tableId : RelationId}

/-- The rows have the same key in a unique index of the table. -/
def Clash (s : StorageState V) (tableId : RelationId) (a b : Row V) : Prop :=
  ∃ p ∈ s.indexes.toList, p.2.descriptor.tableId = tableId ∧ p.2.descriptor.unique = true ∧
    ∃ d ∈ s.tableDef tableId, UniqueConflict p.2.descriptor d a b
deriving Decidable

theorem clash_iff {a b : Row V} : s.Clash tableId a b ↔
    ∃ (i : IndexId) (index : IndexData V), s.indexes[i]? = some index ∧
    index.descriptor.tableId = tableId ∧ index.descriptor.unique = true ∧
    ∃ d, s.tableDef tableId = some d ∧ UniqueConflict index.descriptor d a b := by
  constructor
  · rintro ⟨⟨i, index⟩, hmem, htable, hunique, d, hd, hconflict⟩
    exact ⟨i, index, mem_toList_iff_getElem?_eq_some.mp hmem, htable, hunique, d, hd, hconflict⟩
  · rintro ⟨i, index, hi, htable, hunique, d, hd, hconflict⟩
    exact ⟨(i, index), mem_toList_iff_getElem?_eq_some.mpr hi, htable, hunique, d, hd, hconflict⟩

theorem Clash.symm [TransOrd V] {a b : Row V} (h : s.Clash tableId a b) : s.Clash tableId b a := by
  obtain ⟨p, hp, htable, hunique, d, hd, k, hk, k', hk', heq⟩ := h
  refine ⟨p, hp, htable, hunique, d, hd, k', hk', k, hk, ?_⟩
  rw [IndexKey.cmp_swap, heq]
  rfl

theorem Clash.of_sameDefs {a b : Row V} (h : s'.Clash tableId a b)
    (hdefs : ∀ t, s'.tableDef t = s.tableDef t) (hindexes : SameIndexDefs s s') :
    s.Clash tableId a b := by
  obtain ⟨i, index', hi, htable, hunique, d, hd, hconflict⟩ := clash_iff.mp h
  obtain ⟨index, hindex, hdesc, -⟩ := hindexes i index' hi
  rw [hdesc] at htable hunique hconflict
  exact clash_iff.mpr ⟨i, index, hindex, htable, hunique, d, hdefs tableId ▸ hd, hconflict⟩

theorem uniqueKeys_iff : s.UniqueKeys ↔ ∀ tableId id id' row row',
    s.rowAt tableId id = some row → s.rowAt tableId id' = some row' → id ≠ id' →
    ¬ s.Clash tableId row row' := by
  constructor
  · rintro h tableId id id' row row' hrow hrow' hne ⟨p, hp, rfl, hunique, d, hd, hconflict⟩
    obtain ⟨t, ht, rfl⟩ := tableDef_eq_some.mp hd
    simp only [rowAt, ht, bind_some] at hrow hrow'
    exact h p hp hunique t ht (id, row) (mem_liveRows.mpr hrow) (id', row')
      (mem_liveRows.mpr hrow') hne hconflict
  · rintro h p hp hunique t ht ⟨id, row⟩ hrow ⟨id', row'⟩ hrow' hne hconflict
    have hload : ∀ {id row}, (id, row) ∈ t.liveRows → t.loadLatestRow id = some row :=
      mem_liveRows.mp
    refine h p.2.descriptor.tableId id id' row row' ?_ ?_ hne
      ⟨p, hp, rfl, hunique, t.descriptor, tableDef_of_table ht, hconflict⟩
    · simpa only [rowAt, mem_def.mp ht, bind_some] using hload hrow
    · simpa only [rowAt, mem_def.mp ht, bind_some] using hload hrow'

/-- What holds of a storage between two calls: its rows fit their tables, keep their unique keys
apart and are found through the unique indexes; new ids are free; nothing is pending under the
autocommit id. -/
structure Ready (s : StorageState V) (tableId : RelationId) : Prop where
  sound : s.Sound
  unique : s.UniqueKeys
  idle : s.activeTxns[(0 : TxnId)]? = none
  fresh : ∀ t, s.tables[tableId]? = some t → ∀ id, t.nextTupleId ≤ id → t.loadLatestRow id = none
  indexed : ∀ (i : IndexId) (index : IndexData V), s.indexes[i]? = some index → index.descriptor.tableId = tableId →
    index.descriptor.unique = true → ∀ d, s.tableDef tableId = some d →
    ∀ id row, s.rowAt tableId id = some row →
    ∀ k, buildIndexKeyForDescriptor index.descriptor d row = .ok k →
    ∀ key, IndexKey.cmp index.descriptor.keyColumns k key = .eq →
      id ∈ index.candidateTupleIdsForKey key ∧ index.keyIsStrictlyAfterLast key = false

end StorageState

/-! ## The check of one key -/

theorem anyM_eq_ok_false {ε α : Type} {p : α → Except ε Bool} {l : List α} :
    l.anyM p = .ok false ↔ ∀ a ∈ l, p a = .ok false := by
  induction l with
  | nil => simp [List.anyM, pure, Except.pure]
  | cons a l ih =>
    rw [List.anyM, forall_mem_cons, ← ih]
    cases h : p a with
    | error e => simp [bind, Except.bind]
    | ok b => cases b <;> simp [bind, Except.bind, pure, Except.pure]

variable {table : TableData (Row V)}

namespace StorageState

variable {s : StorageState V} {tableId : RelationId} {table : TableData (Row V)}
  {index : IndexData V} {self : TupleId} {key : IndexKey V}

omit [Ord V] in
def Passes (table : TableData (Row V)) (index : IndexData V) (self : TupleId) (key : IndexKey V)
    (candidate : TupleId) : Prop :=
  candidate ≠ self → ∀ row, table.loadLatestRow candidate = some row →
    ∃ k, buildIndexKeyForDescriptor index.descriptor table.descriptor row = .ok k ∧
      IndexKey.cmp index.descriptor.keyColumns k key ≠ .eq

theorem candidateHasKey_eq_ok_false {ordinals : List Nat}
    (hordinals : resolveIndexKeyOrdinals table.descriptor index.descriptor = .ok ordinals)
    (candidate : TupleId) :
    candidateHasKey index ordinals key self (overlaidRow table none) candidate = .ok false ↔
      Passes table index self key candidate := by
  have hoverlay : overlaidRow table none candidate = table.loadLatestRow candidate := rfl
  unfold candidateHasKey Passes
  rw [hoverlay]
  by_cases hself : candidate = self
  · simp [hself, pure, Except.pure]
  simp only [hself, if_false, ne_eq, not_false_eq_true, forall_true_left]
  cases hrow : table.loadLatestRow candidate with
  | none => simp [pure, Except.pure]
  | some row =>
    simp only [rowHasKey, buildIndexKeyForDescriptor, hordinals, Option.some.injEq, forall_eq']
    cases hk : buildIndexKeyWithOrdinals index.descriptor row ordinals with
    | error e => simp [bind, Except.bind, hk]
    | ok k => simp [bind, Except.bind, pure, Except.pure, hk]

theorem checkBaseUniqueKey_eq_ok (hidle : s.activeTxns[(0 : TxnId)]? = none)
    (htable : s.tables[index.descriptor.tableId]? = some table) {ordinals : List Nat}
    (hordinals : resolveIndexKeyOrdinals table.descriptor index.descriptor = .ok ordinals)
    (hkept : (key.hasNull && !index.descriptor.nullsNotDistinct) = false) :
    s.checkBaseUniqueKey index table.descriptor self key = .ok () ↔
      index.keyIsStrictlyAfterLast key = true ∨
        ∀ c ∈ index.candidateTupleIdsForKey key, Passes table index self key c := by
  unfold checkBaseUniqueKey
  by_cases hlast : index.keyIsStrictlyAfterLast key = true
  · simp [hlast, pure, Except.pure]
  have hview : s.latestUniqueConflictInTableView 0 index table.descriptor self key = .ok false ↔
      ∀ c ∈ index.candidateTupleIdsForKey key, Passes table index self key c := by
    unfold latestUniqueConflictInTableView
    simp only [tableView, hidle, htable, hordinals]
    rw [← forall₂_congr fun c _ => candidateHasKey_eq_ok_false hordinals c, ← anyM_eq_ok_false]
    cases h : (index.candidateTupleIdsForKey key).anyM
        (candidateHasKey index ordinals key self (overlaidRow table none)) with
    | error e => simp [bind, Except.bind, h]
    | ok b => cases b <;> simp [bind, Except.bind, pure, Except.pure, h]
  rw [← hview]
  simp only [hlast, checkUniqueKey, hkept, Bool.false_eq_true, if_false, false_or]
  cases h : s.latestUniqueConflictInTableView 0 index table.descriptor self key with
  | error e => simp [bind, Except.bind]
  | ok b => cases b <;> simp [bind, Except.bind, pure, Except.pure, throw, throwThe,
      MonadExceptOf.throw]

/-! ## The check of one row -/

variable {row : Row V}

theorem prepare_eq_ok_iff (htable : s.tables[tableId]? = some table) (hsound : s.Sound)
    {id : TupleId} (hwidth : row.length = table.descriptor.columns.length) :
    (∃ op, s.prepareRow tableId table.descriptor (id, row) = .ok op) ↔
      ∀ (i : IndexId) (index : IndexData V), s.indexes[i]? = some index →
        index.descriptor.tableId = tableId → index.descriptor.unique = true →
        ∀ key, buildIndexKeyForDescriptor index.descriptor table.descriptor row = .ok key →
          s.checkBaseUniqueKey index table.descriptor id key = .ok () := by
  have hdef := tableDef_of_table htable
  have hmem : tableId ∈ s.tables := mem_iff_isSome_getElem?.mpr (by rw [htable]; rfl)
  refine exists_bind_eq_ok.trans ?_
  rw [prepareBaseIndexInsertsPreflightUnique, if_neg (not_not.mpr hmem), exists_mapM_eq_ok_iff]
  constructor
  · intro h i index hi htab hunique key hkey
    obtain ⟨entry, hentry⟩ := h (i, index) (mem_selectIndexes_iff.mpr ⟨hi, htab⟩)
    obtain ⟨key', hkey', hrest⟩ := bind_eq_ok.mp hentry
    cases hkey.symm.trans hkey'
    simp only [hunique, if_true] at hrest
    obtain ⟨u, hu, -⟩ := bind_eq_ok.mp hrest
    exact hu
  · rintro h ⟨i, index⟩ hsel
    obtain ⟨hi, htab⟩ := mem_selectIndexes_iff.mp hsel
    obtain ⟨hfits, hcovering⟩ := hsound.fits i index hi table.descriptor (htab ▸ hdef)
    obtain ⟨key, hkey⟩ := exists_buildIndexKey hfits hwidth
    obtain ⟨coveringRow, hcoveringRow⟩ := exists_buildCoveringRow hfits hwidth hcovering
    refine ⟨{ indexId := i, key, coveringRow }, bind_eq_ok.mpr ⟨key, hkey, ?_⟩⟩
    by_cases hunique : index.descriptor.unique = true
    · simp only [hunique, if_true]
      exact bind_eq_ok.mpr ⟨(), h i index hi htab hunique key hkey,
        bind_eq_ok.mpr ⟨coveringRow, hcoveringRow, rfl⟩⟩
    · simp only [hunique]
      exact bind_eq_ok.mpr ⟨coveringRow, hcoveringRow, rfl⟩

theorem exists_prepareRow [TransOrd V] (htable : s.tables[tableId]? = some table) (hsound : s.Sound)
    (hidle : s.activeTxns[(0 : TxnId)]? = none) {id : TupleId}
    (hwidth : row.length = table.descriptor.columns.length)
    (hclear : ∀ id' row', s.rowAt tableId id' = some row' → id' ≠ id → ¬ s.Clash tableId row' row) :
    ∃ op, s.prepareRow tableId table.descriptor (id, row) = .ok op := by
  have hdef := tableDef_of_table htable
  refine (prepare_eq_ok_iff htable hsound hwidth).mpr fun i index hi htab hunique key hkey => ?_
  obtain ⟨hfits, -⟩ := hsound.fits i index hi table.descriptor (htab ▸ hdef)
  obtain ⟨ordinals, hordinals, -⟩ := resolveIndexKeyOrdinals_spec hfits
  by_cases hkept : (key.hasNull && !index.descriptor.nullsNotDistinct) = false
  · refine (checkBaseUniqueKey_eq_ok hidle (htab ▸ htable) hordinals hkept).mpr
      (.inr fun c hc hne row' hrow' => ?_)
    have hat : s.rowAt tableId c = some row' := by simp [rowAt, htable, hrow']
    obtain ⟨k, hk⟩ := exists_buildIndexKey hfits
      (hsound.width tableId table.descriptor hdef c row' hat)
    refine ⟨k, hk, fun heq => hclear c row' hat hne ?_⟩
    refine clash_iff.mpr ⟨i, index, hi, htab, hunique, table.descriptor, hdef, k, ?_, key,
      mem_uniqueKey.mpr ⟨hkey, hkept⟩, heq⟩
    refine mem_uniqueKey.mpr ⟨hk, ?_⟩
    rw [IndexKey.hasNull_eq_of_cmp_eq (length_of_buildIndexKey hk) (length_of_buildIndexKey hkey) heq]
    exact hkept
  · simp only [Bool.not_eq_false] at hkept
    unfold checkBaseUniqueKey checkUniqueKey
    split
    · rfl
    · rfl

variable {op : AutocommitInsert V}

theorem Ready.not_clash (h : s.Ready tableId) (htable : s.tables[tableId]? = some table)
    {id : TupleId} (hwidth : row.length = table.descriptor.columns.length) (hop : s.prepareRow tableId table.descriptor (id, row) = .ok op)
    {id' : TupleId} {row' : Row V} (hrow' : s.rowAt tableId id' = some row') (hne : id' ≠ id) :
    ¬ s.Clash tableId row' row := by
  intro hclash
  obtain ⟨i, index, hi, htab, hunique, d, hd, k, hk, key, hkey, heq⟩ := clash_iff.mp hclash
  have hdef := tableDef_of_table htable
  cases hdef.symm.trans hd
  obtain ⟨hk, -⟩ := mem_uniqueKey.mp hk
  obtain ⟨hkey, hkept⟩ := mem_uniqueKey.mp hkey
  obtain ⟨hfits, -⟩ := h.sound.fits i index hi table.descriptor (htab ▸ hdef)
  obtain ⟨ordinals, hordinals, -⟩ := resolveIndexKeyOrdinals_spec hfits
  have hcheck := (prepare_eq_ok_iff htable h.sound hwidth).mp ⟨op, hop⟩ i index hi htab hunique
    key hkey
  obtain ⟨hcandidate, hlast⟩ := h.indexed i index hi htab hunique _ hdef id' row' hrow' k hk key heq
  rcases (checkBaseUniqueKey_eq_ok h.idle (htab ▸ htable) hordinals hkept).mp hcheck with
    hafter | hpass
  · exact nomatch hlast.symm.trans hafter
  · have hload : table.loadLatestRow id' = some row' := by
      simpa [rowAt, htable] using hrow'
    obtain ⟨k', hk', hne'⟩ := hpass id' hcandidate hne row' hload
    cases hk.symm.trans hk'
    exact hne' heq

/-! ## Publication -/

structure AddsRows (s : StorageState V) (tableId : RelationId) (placed : List (TupleId × Row V))
    (s' : StorageState V) : Prop where
  tableDef : ∀ t, s'.tableDef t = s.tableDef t
  rowAt : ∀ t id, s'.rowAt t id =
    if t = tableId then (placed.lookup id).or (s.rowAt t id) else s.rowAt t id

variable {placed : List (TupleId × Row V)}

omit [Ord V] in
theorem AddsRows.cons {s1 s' : StorageState V} {id : TupleId} (hset : s.SetsRow tableId id row s1)
    (hrest : s1.AddsRows tableId placed s') (hid : id ∉ placed.map (·.1)) :
    s.AddsRows tableId ((id, row) :: placed) s' where
  tableDef t := (hrest.tableDef t).trans (hset.tableDef t)
  rowAt t id' := by
    rw [hrest.rowAt, hset.rowAt]
    by_cases ht : t = tableId
    · simp only [ht, if_true, true_and, lookup_cons]
      by_cases hid' : id' = id
      · subst hid'
        simp [OrdMap.lookup_eq_none hid]
      · simp [hid', beq_eq_false_iff_ne.mpr hid']
    · simp [ht]

theorem exists_publishRow
    (htable : s.tables[op.tableId]? = some table) :
    ∃ s', s.publishRow op = .ok s' ∧ s.SetsRow op.tableId op.tupleId op.row s' ∧
      SameIndexDefs s s' ∧ s'.activeTxns = s.activeTxns := by
  obtain ⟨v, hv, hrow, -, hsets⟩ := table.commitInsert_spec op.tupleId 0 op.row
  refine ⟨(s.setTable op.tableId (table.commitInsert op.tupleId 0
    op.row)).appendPreparedBaseIndexEntries op.prepared op.tupleId,
    by rw [publishRow, htable], ?_, ?_, rfl⟩
  · refine setsRow_setTable htable hsets.descriptor (fun id => ?_) rfl
    rw [hsets.loadLatestRow]
    simp [hrow]
  · exact appendPrepared_sameIndexDefs (s.setTable op.tableId _) op.prepared op.tupleId

omit [Ord V] in
theorem SameIndexDefs.trans {s1 s2 s3 : StorageState V} (h : SameIndexDefs s1 s2)
    (h' : SameIndexDefs s2 s3) : SameIndexDefs s1 s3 := by
  intro i index3 h3
  obtain ⟨index2, h2, hd, hc⟩ := h' i index3 h3
  obtain ⟨index1, h1, hd', hc'⟩ := h i index2 h2
  exact ⟨index1, h1, hd.trans hd', hc.trans hc'⟩

omit [Ord V] in
theorem applyEach_addsRows {α : Type} {f : StorageState V → α → DbResult (StorageState V)}
    (place : α → TupleId × Row V) (Good : StorageState V → List α → Prop)
    (hstep : ∀ s a rest, Good s (a :: rest) → ∃ s', f s a = .ok s' ∧
      s.SetsRow tableId (place a).1 (place a).2 s' ∧ SameIndexDefs s s' ∧ Good s' rest)
    {l : List α} (hgood : Good s l) (hids : (l.map fun a => (place a).1).Nodup) :
    ∃ s', applyEach f l s = (.ok (), s') ∧ s.AddsRows tableId (l.map place) s' ∧
      SameIndexDefs s s' := by
  induction l generalizing s with
  | nil => exact ⟨s, rfl, ⟨fun _ => rfl, fun t id => by simp⟩, fun i index h => ⟨index, h, rfl, rfl⟩⟩
  | cons a rest ih =>
    obtain ⟨hnew, hids⟩ := nodup_cons.mp hids
    obtain ⟨s1, hf, hset, hdefs, hgood⟩ := hstep s a rest hgood
    obtain ⟨s', happly, hadds, hdefs'⟩ := ih hgood hids
    refine ⟨s', by rw [applyEach, hf]; exact happly, ?_, hdefs.trans hdefs'⟩
    refine AddsRows.cons hset hadds ?_
    simpa using hnew

theorem AddsRows.uniqueKeys {s' : StorageState V}
    (hadds : s.AddsRows tableId placed s') (hdefs : SameIndexDefs s s') (hunique : s.UniqueKeys)
    [TransOrd V]
    (hlive : ∀ p ∈ placed, ∀ id row, s.rowAt tableId id = some row → ¬ s.Clash tableId row p.2)
    (hapart : ∀ p ∈ placed, ∀ q ∈ placed, p.1 ≠ q.1 → ¬ s.Clash tableId p.2 q.2) :
    s'.UniqueKeys := by
  refine uniqueKeys_iff.mpr fun t id id' row row' hrow hrow' hne hclash => ?_
  have hclash := hclash.of_sameDefs hadds.tableDef hdefs
  rw [hadds.rowAt] at hrow hrow'
  by_cases ht : t = tableId
  · subst ht
    simp only [if_true, or_eq_some_iff] at hrow hrow'
    have hmem : ∀ {id row}, placed.lookup id = some row → (id, row) ∈ placed := fun {id row} h => by
      obtain ⟨l1, l2, heq, -⟩ := lookup_eq_some_iff.mp h
      rw [heq]
      simp
    rcases hrow with hrow | ⟨-, hrow⟩
    · rcases hrow' with hrow' | ⟨-, hrow'⟩
      · exact hapart _ (hmem hrow) _ (hmem hrow') hne hclash
      · exact hlive _ (hmem hrow) id' row' hrow' hclash.symm
    · rcases hrow' with hrow' | ⟨-, hrow'⟩
      · exact hlive _ (hmem hrow') id row hrow hclash
      · exact uniqueKeys_iff.mp hunique t id id' row row' hrow hrow' hne hclash
  · simp only [ht, if_false] at hrow hrow'
    exact uniqueKeys_iff.mp hunique t id id' row row' hrow hrow' hne hclash

/-! ## The batch -/

def ClashesLive (s : StorageState V) (tableId : RelationId) (row : Row V) : Prop :=
  ∃ t ∈ s.tables[tableId]?, ∃ p ∈ t.liveRows, s.Clash tableId p.2 row
deriving Decidable

theorem clashesLive_iff : s.ClashesLive tableId row ↔
    ∃ id row', s.rowAt tableId id = some row' ∧ s.Clash tableId row' row := by
  constructor
  · rintro ⟨t, ht, ⟨id, row'⟩, hrow', hclash⟩
    exact ⟨id, row', by simpa [rowAt, mem_def.mp ht] using mem_liveRows.mp hrow', hclash⟩
  · rintro ⟨id, row', hrow', hclash⟩
    obtain ⟨t, ht, hload⟩ := bind_eq_some_iff.mp hrow'
    exact ⟨t, ht, (id, row'), mem_liveRows.mpr hload, hclash⟩

def Apart (s : StorageState V) (tableId : RelationId) (rows : List (Row V)) : Prop :=
  rows.Pairwise fun a b => ¬ s.Clash tableId a b
deriving Decidable

def taken (s : StorageState V) (tableId : RelationId) (table : TableData (Row V)) (count : Nat) :
    StorageState V :=
  s.setTable tableId { table with nextTupleId := table.nextTupleId + count }

omit [Ord V] in
theorem getElem?_tables_taken (s : StorageState V) (tableId : RelationId)
    (table : TableData (Row V)) (count : Nat) : (s.taken tableId table count).tables[tableId]? =
      some { table with nextTupleId := table.nextTupleId + count } := by
  simp [taken, tables_setTable]

section

variable (htable : s.tables[tableId]? = some table) (count : Nat)
include htable

omit [Ord V] in
theorem taken_sameRows : SameRows s (s.taken tableId table count) :=
  sameRows_setTable htable rfl rfl

theorem Ready.taken (h : s.Ready tableId) : (s.taken tableId table count).Ready tableId := by
  have hrows := taken_sameRows htable count
  have hclash : ∀ {t a b}, (s.taken tableId table count).Clash t a b → s.Clash t a b :=
    fun hc => hc.of_sameDefs hrows.tableDef fun i index hi => ⟨index, hi, rfl, rfl⟩
  refine ⟨h.sound.sameRows hrows rfl, ?_, h.idle, ?_, ?_⟩
  · refine uniqueKeys_iff.mpr fun t id id' row row' hrow hrow' hne hc => ?_
    exact uniqueKeys_iff.mp h.unique t id id' row row' (hrows.rowAt t id ▸ hrow)
      (hrows.rowAt t id' ▸ hrow') hne (hclash hc)
  · intro t ht id hid
    simp only [StorageState.taken, tables_setTable, if_true, Option.some.injEq] at ht
    subst ht
    exact h.fresh table htable id (Nat.le_of_add_right_le hid)
  · exact fun i index hi htab hunique d hd id row hrow =>
      h.indexed i index hi htab hunique d (hrows.tableDef _ ▸ hd) id row (hrows.rowAt _ id ▸ hrow)

end

variable {d : TableStorageDescriptor}

omit [Ord V] in
theorem validateRowWidth_eq_ok :
    validateRowWidth d row = .ok () ↔ row.length = d.columns.length := by
  unfold validateRowWidth
  split <;> simp_all

variable {rows : List (Row V)}

omit [Ord V] in
theorem forM_validate_eq_ok {u : PUnit}
    (h : rows.forM (validateRowWidth d) = .ok u) :
    ∀ row ∈ rows, row.length = d.columns.length := by
  induction rows with
  | nil => simp
  | cons row rows ih =>
    obtain ⟨u', hrow, hrest⟩ := bind_eq_ok.mp
      (show validateRowWidth d row >>= (fun _ => rows.forM (validateRowWidth d)) = .ok u from h)
    exact forall_mem_cons.mpr ⟨validateRowWidth_eq_ok.mp hrow, ih hrest⟩

theorem prepareRow_place {placed : TupleId × Row V} (h : s.prepareRow tableId d placed = .ok op) :
    op.tableId = tableId ∧ (op.tupleId, op.row) = placed := by
  obtain ⟨prepared, -, heq⟩ := bind_eq_ok.mp h
  cases heq
  exact ⟨rfl, rfl⟩

theorem mapM_prepareRow
    {ops : List (AutocommitInsert V)} (h : placed.mapM (s.prepareRow tableId d) = .ok ops) :
    ops.map (fun op => (op.tupleId, op.row)) = placed ∧ (∀ op ∈ ops, op.tableId = tableId) ∧
      ∀ p ∈ placed, ∃ op, s.prepareRow tableId d p = .ok op := by
  have h2 := mapM_eq_ok.mp h
  clear h
  induction h2 with
  | nil => simp
  | cons hab _ ih =>
    obtain ⟨htab, hplace⟩ := prepareRow_place hab
    refine ⟨?_, forall_mem_cons.mpr ⟨htab, ih.2.1⟩, forall_mem_cons.mpr ⟨⟨_, hab⟩, ih.2.2⟩⟩
    rw [map_cons, hplace, ih.1]

omit [Ord V] in
theorem map_fst_places (next : Nat) (rows : List (Row V)) :
    ((List.range' next rows.length).zip rows).map (·.1) = List.range' next rows.length :=
  map_fst_zip (by simp)

omit [Ord V] in
theorem mem_places {next : Nat} {p : TupleId × Row V}
    (h : p ∈ (List.range' next rows.length).zip rows) : next ≤ p.1 ∧ p.2 ∈ rows := by
  obtain ⟨hid, hrow⟩ := of_mem_zip h
  exact ⟨(mem_range'_1.mp hid).1, hrow⟩

theorem Apart.places (h : s.Apart tableId rows) (next : Nat) :
    ((List.range' next rows.length).zip rows).Pairwise fun p q => ¬ s.Clash tableId p.2 q.2 := by
  refine pairwise_iff_getElem.mpr fun i j hi hj hij => ?_
  simp only [getElem_zip]
  exact pairwise_iff_getElem.mp h i j _ _ hij

theorem pairwise_clash_forall [TransOrd V]
    (h : placed.Pairwise fun p q => ¬ s.Clash tableId p.2 q.2) :
    ∀ p ∈ placed, ∀ q ∈ placed, p.1 ≠ q.1 → ¬ s.Clash tableId p.2 q.2 := by
  have hsymm : Std.Symm fun p q : TupleId × Row V => ¬ s.Clash tableId p.2 q.2 :=
    ⟨fun _ _ h h' => h h'.symm⟩
  intro p hp q hq hne
  exact h.forall hp hq fun heq => hne (congrArg (·.1) heq)

/-! ## The two ways a batch is published -/

variable {placed : List (TupleId × Row V)}

theorem applyEach_publishRow (htable : s.tables[tableId]? = some table)
    {ops : List (AutocommitInsert V)} (hops : ∀ op ∈ ops, op.tableId = tableId)
    (hids : (ops.map (·.tupleId)).Nodup) :
    ∃ s', applyEach publishRow ops s = (.ok (), s') ∧
      s.AddsRows tableId (ops.map fun op => (op.tupleId, op.row)) s' ∧ SameIndexDefs s s' := by
  refine applyEach_addsRows (fun op : AutocommitInsert V => (op.tupleId, op.row))
    (fun s ops => (∀ op ∈ ops, op.tableId = tableId) ∧ ∃ t, s.tables[tableId]? = some t)
    (fun s op rest hgood => ?_) ⟨hops, table, htable⟩ hids
  obtain ⟨hall, t, ht⟩ := hgood
  obtain ⟨hop, hrest⟩ := forall_mem_cons.mp hall
  obtain ⟨s', hs', hset, hdefs, -⟩ := exists_publishRow (hop ▸ ht)
  rw [hop] at hset
  refine ⟨s', hs', hset, hdefs, hrest, ?_⟩
  obtain ⟨t', ht', -⟩ := tableDef_eq_some.mp
    ((hset.tableDef tableId).trans (tableDef_of_table ht))
  exact ⟨t', ht'⟩

theorem applyEach_prepareAndPublish [TransOrd V] (hsound : s.Sound)
    (hidle : s.activeTxns[(0 : TxnId)]? = none) (htable : s.tables[tableId]? = some table)
    (hwidth : ∀ p ∈ placed, p.2.length = table.descriptor.columns.length)
    (hlive : ∀ p ∈ placed, ∀ id row, s.rowAt tableId id = some row → ¬ s.Clash tableId row p.2)
    (hapart : placed.Pairwise fun p q => ¬ s.Clash tableId p.2 q.2)
    (hids : (placed.map (·.1)).Nodup) :
    ∃ s', applyEach (fun s p => do s.publishRow (← s.prepareRow tableId table.descriptor p))
        placed s = (.ok (), s') ∧ s.AddsRows tableId (placed.map id) s' ∧ SameIndexDefs s s' := by
  refine applyEach_addsRows id
    (fun s placed => s.Sound ∧ s.activeTxns[(0 : TxnId)]? = none ∧
      s.tableDef tableId = some table.descriptor ∧
      (∀ p ∈ placed, p.2.length = table.descriptor.columns.length) ∧
      (∀ p ∈ placed, ∀ id row, s.rowAt tableId id = some row → ¬ s.Clash tableId row p.2) ∧
      placed.Pairwise fun p q => ¬ s.Clash tableId p.2 q.2)
    (fun s p rest hgood => ?_) ?_ hids
  swap
  · exact ⟨hsound, hidle, tableDef_of_table htable, hwidth, hlive, hapart⟩
  obtain ⟨hsound, hidle, hdef, hwidth, hlive, hapart⟩ := hgood
  obtain ⟨t, ht, hdesc⟩ := tableDef_eq_some.mp hdef
  obtain ⟨hwidth, hwidths⟩ := forall_mem_cons.mp hwidth
  obtain ⟨hclear, hclears⟩ := forall_mem_cons.mp hlive
  obtain ⟨hhead, hapart⟩ := pairwise_cons.mp hapart
  have hprepare : ∃ op, s.prepareRow tableId t.descriptor (p.1, p.2) = .ok op :=
    exists_prepareRow ht hsound hidle (hdesc ▸ hwidth) fun id' row' hrow' _ => hclear id' row' hrow'
  rw [hdesc] at hprepare
  obtain ⟨op, hop⟩ := hprepare
  obtain ⟨htab, hplace⟩ := prepareRow_place hop
  obtain ⟨s', hs', hset, hdefs, hactive⟩ := exists_publishRow (htab ▸ ht)
  obtain ⟨hid, hrow⟩ := Prod.mk.inj hplace
  rw [htab, hid, hrow] at hset
  have hclash : ∀ {a b}, s'.Clash tableId a b → s.Clash tableId a b :=
    fun hc => hc.of_sameDefs hset.tableDef hdefs
  refine ⟨s', bind_eq_ok.mpr ⟨op, hop, hs'⟩, hset, hdefs, hsound.setsRow hset hdef hwidth hdefs,
    by rw [hactive]; exact hidle, (hset.tableDef tableId).trans hdef, hwidths, ?_, ?_⟩
  · intro q hq id row hrow' hc
    rw [hset.rowAt] at hrow'
    split at hrow'
    · cases hrow'
      exact hhead q hq (hclash hc)
    · exact hclears q hq id row hrow' (hclash hc)
  · exact hapart.imp fun h hc => h (hclash hc)

end StorageState

namespace InMemoryStorage

variable {e : InMemoryStorage V} {tableId : RelationId} {rows : List (Row V)}

/-- All rows are in the table, under new ids, and the unique indexes keep their keys apart. -/
def Added (e : InMemoryStorage V) (tableId : RelationId) (rows : List (Row V))
    (out : DbResult (List TupleId) × InMemoryStorage V) : Prop :=
  ∃ ids, out.1 = .ok ids ∧ ids.length = rows.length ∧ ids.Nodup ∧
    (∀ id ∈ ids, e.state.rowAt tableId id = none) ∧
    e.state.AddsRows tableId (ids.zip rows) out.2.state ∧ out.2.state.UniqueKeys ∧
    out.2.fatal = e.fatal

/-- An error, and tables, indexes and log as before; the storage goes on. -/
def Refused (e : InMemoryStorage V) (out : DbResult (List TupleId) × InMemoryStorage V) : Prop :=
  (∃ error, out.1 = .error error) ∧ e.state.SameRows out.2.state ∧
    out.2.state.indexes = e.state.indexes ∧ out.2.wal = e.wal ∧ out.2.fatal = e.fatal

omit [Ord V] in
theorem refused_of_taken (htable : e.state.tables[tableId]? = some table)
    (count : Nat) (error : DbError) :
    Refused e (.error error, { e with state := e.state.taken tableId table count }) :=
  ⟨⟨error, rfl⟩, taken_sameRows htable count, rfl, rfl, rfl⟩

omit [Ord V] in
theorem refused_self (error : DbError) : Refused e (.error error, e) :=
  ⟨⟨error, rfl⟩, ⟨fun _ => rfl, fun _ _ => rfl⟩, rfl, rfl, rfl⟩

omit [Ord V] in
theorem publish_ok (e : InMemoryStorage V) (ids : List TupleId)
    {out : DbResult Unit × StorageState V} {state : StorageState V} (h : out = (.ok (), state)) :
    e.publish ids out = (.ok ids, { e with state }) := by
  rw [h]
  rfl

theorem added_of_publish [TransOrd V] (h : e.state.Ready tableId)
    (htable : e.state.tables[tableId]? = some table)
    (hlive : ∀ row ∈ rows, ¬ e.state.ClashesLive tableId row) (hapart : e.state.Apart tableId rows)
    {s' : StorageState V}
    (hadds : (e.state.taken tableId table rows.length).AddsRows tableId
      ((List.range' table.nextTupleId rows.length).zip rows) s')
    (hdefs : (e.state.taken tableId table rows.length).SameIndexDefs s') {e' : InMemoryStorage V}
    (hstate : e'.state = s') (hfatal : e'.fatal = e.fatal) :
    Added e tableId rows (.ok (List.range' table.nextTupleId rows.length), e') := by
  have hrows := taken_sameRows htable rows.length
  have hadds' : e.state.AddsRows tableId
      ((List.range' table.nextTupleId rows.length).zip rows) s' :=
    ⟨fun t => (hadds.tableDef t).trans (hrows.tableDef t),
      fun t id => by rw [hadds.rowAt, hrows.rowAt]⟩
  refine ⟨_, rfl, by simp, nodup_range', fun id hid => ?_, hstate ▸ hadds', ?_, hfatal⟩
  · have hfresh := h.fresh table htable id (mem_range'_1.mp hid).1
    simp [StorageState.rowAt, htable, hfresh]
  rw [hstate]
  refine hadds'.uniqueKeys (fun i index hi => hdefs i index hi) h.unique ?_
    (pairwise_clash_forall (hapart.places _))
  intro p hp id row hrow hclash
  exact hlive p.2 (mem_places hp).2 (clashesLive_iff.mpr ⟨id, row, hrow, hclash⟩)

theorem not_clashesLive_of_prepared (h : e.state.Ready tableId)
    (htable : e.state.tables[tableId]? = some table)
    (hwidth : ∀ row ∈ rows, row.length = table.descriptor.columns.length)
    (hprepared : ∀ p ∈ (List.range' table.nextTupleId rows.length).zip rows, ∃ op,
      (e.state.taken tableId table rows.length).prepareRow tableId table.descriptor p = .ok op) :
    ∀ row ∈ rows, ¬ e.state.ClashesLive tableId row := by
  intro row hrow hclash
  obtain ⟨id', row', hrow', hclash⟩ := clashesLive_iff.mp hclash
  obtain ⟨i, hi, rfl⟩ := getElem_of_mem hrow
  have hrows := taken_sameRows htable rows.length
  have hmem : (table.nextTupleId + i, rows.get ⟨i, hi⟩) ∈
      (List.range' table.nextTupleId rows.length).zip rows := by
    refine mem_iff_getElem.mpr ⟨i, by simpa using hi, ?_⟩
    simp [getElem_zip]
  obtain ⟨op, hop⟩ := hprepared _ hmem
  have htable' := e.state.getElem?_tables_taken tableId table rows.length
  refine (h.taken htable rows.length).not_clash htable' (hwidth _ hrow) hop
    ((hrows.rowAt tableId id').trans hrow') (fun (heq : id' = table.nextTupleId + i) => ?_)
    (hclash.of_sameDefs (fun t => (hrows.tableDef t).symm) fun i index hi => ⟨index, hi, rfl, rfl⟩)
  -- a live row has an older id
  have hfresh := h.fresh table htable id' (by rw [heq]; exact Nat.le_add_right _ _)
  simp [StorageState.rowAt, htable, hfresh] at hrow'

theorem insertBatchLogged_spec [TransOrd V] (h : e.state.Ready tableId) (logs : Bool)
    (hsafe : e.state.Apart tableId rows ∨ ∃ row ∈ rows, e.state.ClashesLive tableId row) :
    (Added e tableId rows (e.insertBatchLogged logs tableId rows) ∧
      ∀ row ∈ rows, ¬ e.state.ClashesLive tableId row) ∨
      Refused e (e.insertBatchLogged logs tableId rows) := by
  unfold insertBatchLogged
  split
  · exact .inr (refused_self _)
  next table htable =>
  split
  · exact .inr (refused_self _)
  next u hwidth =>
  have hready := h.taken htable rows.length
  have htable' := e.state.getElem?_tables_taken tableId table rows.length
  have hrows := taken_sameRows htable rows.length
  dsimp only [TableData.allocateTupleIds]
  split
  · exact .inr (refused_of_taken htable rows.length _)
  next ops hops =>
  obtain ⟨hplaces, htabs, hprepared⟩ := mapM_prepareRow hops
  -- the check has seen the live rows
  have hlive : ∀ row ∈ rows, ¬ e.state.ClashesLive tableId row :=
    not_clashesLive_of_prepared h htable (forM_validate_eq_ok hwidth) hprepared
  split
  · left
    have hids : (ops.map (·.tupleId)).Nodup := by
      have hfst := congrArg (List.map (·.1)) hplaces
      rw [List.map_map, map_fst_places] at hfst
      rw [show ops.map (·.tupleId) = _ from hfst]
      exact nodup_range'
    obtain ⟨s', happly, hadds, hdefs⟩ :=
      applyEach_publishRow htable' htabs hids
    rw [hplaces] at hadds
    have hapart := hsafe.resolve_right fun ⟨row, hrow, hclash⟩ => hlive row hrow hclash
    refine ⟨?_, hlive⟩
    exact (congrArg (Added e tableId rows) (publish_ok _ _ happly)).mpr
      (added_of_publish h htable hlive hapart hadds hdefs rfl rfl)
  · exact .inr (refused_of_taken htable rows.length _)

omit [Ord V] in
theorem validateAndAllocate_spec (d : TableStorageDescriptor) (rows : List (Row V))
    (table : TableData (Row V)) :
    ∃ count, (validateAndAllocate d rows table).2 =
        { table with nextTupleId := table.nextTupleId + count } ∧
      ∀ u, (validateAndAllocate d rows table).1 = .ok u → count = rows.length ∧
        ∀ row ∈ rows, row.length = d.columns.length := by
  induction rows generalizing table with
  | nil => exact ⟨0, rfl, fun u _ => ⟨rfl, by simp⟩⟩
  | cons row rest ih =>
    unfold validateAndAllocate
    cases hrow : validateRowWidth d row with
    | error error => exact ⟨0, rfl, fun u h => by cases h⟩
    | ok u =>
      obtain ⟨count, htable, hok⟩ := ih table.allocateTupleId.2
      refine ⟨count + 1, htable.trans ?_, fun u h => ?_⟩
      · simp [TableData.allocateTupleId, Nat.add_assoc, Nat.add_comm 1]
      · obtain ⟨hcount, hwidth⟩ := hok u h
        exact ⟨by simp [hcount], forall_mem_cons.mpr ⟨validateRowWidth_eq_ok.mp hrow, hwidth⟩⟩

theorem insertBatchUnlogged_spec [TransOrd V] (h : e.state.Ready tableId)
    (hsafe : (∀ d ∈ e.state.tableDef tableId, ∀ row ∈ rows, row.length = d.columns.length) →
      e.state.Apart tableId rows ∧ ∀ row ∈ rows, ¬ e.state.ClashesLive tableId row) :
    (Added e tableId rows (e.insertBatchUnlogged tableId rows) ∧
      ∀ row ∈ rows, ¬ e.state.ClashesLive tableId row) ∨
      Refused e (e.insertBatchUnlogged tableId rows) := by
  unfold insertBatchUnlogged
  split
  · exact .inr (refused_self _)
  next table htable =>
  obtain ⟨count, htable2, hok⟩ := validateAndAllocate_spec table.descriptor rows table
  have hdef := tableDef_of_table htable
  split
  · next error table' hvalidate =>
    rw [hvalidate] at htable2
    cases htable2
    exact .inr (refused_of_taken htable count _)
  · next u table' hvalidate =>
    rw [hvalidate] at htable2 hok
    obtain ⟨rfl, hwidth⟩ := hok u rfl
    cases htable2
    obtain ⟨hapart, hlive⟩ := hsafe fun d hd => by
      cases hdef.symm.trans hd
      exact hwidth
    left
    refine ⟨?_, hlive⟩
    have hready := h.taken htable rows.length
    have hrows := taken_sameRows htable rows.length
    have hclash : ∀ {a b}, (e.state.taken tableId table rows.length).Clash tableId a b →
        e.state.Clash tableId a b :=
      fun hc => hc.of_sameDefs hrows.tableDef fun i index hi => ⟨index, hi, rfl, rfl⟩
    have htable' := e.state.getElem?_tables_taken tableId table rows.length
    obtain ⟨s', happly, hadds, hdefs⟩ := applyEach_prepareAndPublish
      hready.sound hready.idle htable'
      (fun p hp => hwidth p.2 (mem_places hp).2)
      (fun p hp id row hrow hc => hlive p.2 (mem_places hp).2
        (clashesLive_iff.mpr ⟨id, row, hrows.rowAt tableId id ▸ hrow, hclash hc⟩))
      ((hapart.places table.nextTupleId).imp fun hpq hc => hpq (hclash hc))
      (by rw [map_fst_places]; exact nodup_range')
    rw [List.map_id] at hadds
    exact (congrArg (Added e tableId rows) (publish_ok _ _ happly)).mpr
      (added_of_publish h htable hlive hapart hadds hdefs rfl rfl)

/-- The batches that are all or nothing. With a log: the rows have different keys among themselves,
or one has the key of a live row (and is refused). Without a log: a row is of the wrong width (and
refused), or all keys are different and new. -/
def Safe (e : InMemoryStorage V) (logs : Option Bool) (tableId : RelationId) (rows : List (Row V)) :
    Prop :=
  match logs with
  | some _ => e.state.Apart tableId rows ∨ ∃ row ∈ rows, e.state.ClashesLive tableId row
  | none => (∀ d ∈ e.state.tableDef tableId, ∀ row ∈ rows, row.length = d.columns.length) →
      e.state.Apart tableId rows ∧ ∀ row ∈ rows, ¬ e.state.ClashesLive tableId row

instance (e : InMemoryStorage V) (logs : Option Bool) (tableId : RelationId)
    (rows : List (Row V)) : Decidable (e.Safe logs tableId rows) := by
  cases logs <;> unfold Safe <;> infer_instance

def accountTable : TableStorageDescriptor := { tableId := 1, columns := [{ columnId := 1 }] }

def accountIndex : IndexStorageDescriptor :=
  { indexId := 1, tableId := 1, unique := true, keyColumns := [{ columnId := 1 }] }

def accountRows : TableData (Row Nat) :=
  { (({ descriptor := accountTable } : TableData (Row Nat)).commitInsert 1 0 [some 1]) with
    nextTupleId := 2 }

def accountEntries : IndexData Nat :=
  (IndexData.newForTable accountIndex accountTable).insertPrebuiltEntryUnchecked [some 1] 1 []

def accounts : InMemoryStorage Nat where
  state :=
    { tables := (∅ : ExtTreeMap RelationId (TableData (Row Nat))).insert 1 accountRows
      indexes := (∅ : ExtTreeMap IndexId (IndexData Nat)).insert 1 accountEntries }

theorem loadLatestRow_accountRows (id : TupleId) :
    accountRows.loadLatestRow id = if id = 1 then some [some 1] else none := by
  obtain ⟨v, hv, hrow, -, hsets⟩ := commitInsert_spec
    ({ descriptor := accountTable } : TableData (Row Nat)) 1 0 [some 1]
  have hload : accountRows.loadLatestRow id = _ := hsets.loadLatestRow id
  simpa [hrow, loadLatestRow_of_not_mem] using hload

theorem eq_of_cmp_account {key : IndexKey Nat}
    (h : IndexKey.cmp accountIndex.keyColumns [some 1] key = .eq) : key = [some 1] := by
  match key with
  | [] => exact absurd h (by decide)
  | none :: as => exact absurd (Ordering.then_eq_eq.mp h).1 (by decide)
  | some a :: as =>
    obtain ⟨ha, has⟩ := Ordering.then_eq_eq.mp h
    have ha' : compare 1 a = .eq := ha
    have has' : compare 0 as.length = .eq := has
    rw [Std.compare_eq_iff_eq] at ha' has'
    rw [← ha', eq_nil_of_length_eq_zero has'.symm]

theorem accounts_ready : accounts.state.Ready 1 where
  sound := sound_of_toList (by decide +kernel) (by decide +kernel)
  unique := by decide +kernel
  idle := by decide +kernel
  fresh t ht id hid := by
    have ht' : accounts.state.tables[(1 : RelationId)]? = some accountRows := by simp [accounts]
    cases ht'.symm.trans ht
    have h2 : 2 ≤ id := hid
    rw [loadLatestRow_accountRows, if_neg (by rintro rfl; exact absurd h2 (by decide))]
  indexed i index hi htab hunique d hd id row hrow k hk key heq := by
    have hi' : i = 1 ∧ index = accountEntries := by
      simp only [accounts, ExtTreeMap.getElem?_insert] at hi
      split at hi
      · next h => exact ⟨(Std.compare_eq_iff_eq.mp h).symm, (Option.some.inj hi).symm⟩
      · simp at hi
    obtain ⟨rfl, rfl⟩ := hi'
    have hrow' : id = 1 ∧ row = [some 1] := by
      have hload : accountRows.loadLatestRow id = some row := by
        simpa [accounts, StorageState.rowAt] using hrow
      rw [loadLatestRow_accountRows] at hload
      split at hload
      · next h => exact ⟨h, (Option.some.inj hload).symm⟩
      · cases hload
    obtain ⟨rfl, rfl⟩ := hrow'
    have hd' : d = accountTable := by
      have hdef : accounts.state.tableDef 1 = some accountTable := by decide +kernel
      exact (Option.some.inj (hdef.symm.trans hd)).symm
    subst hd'
    have hk' : k = [some 1] := by
      have hbuild : buildIndexKeyForDescriptor accountEntries.descriptor accountTable [some 1] =
          .ok [some 1] := by rfl
      exact (Except.ok.inj (hbuild.symm.trans hk)).symm
    subst hk'
    cases eq_of_cmp_account heq
    decide +kernel

end InMemoryStorage

end AionDb
