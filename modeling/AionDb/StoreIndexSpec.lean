import AionDb.LibEffect
import AionDb.StoreIndex

/-!
# Index keys: when they can be built and how they compare

A key can be built of every row that is as wide as its table when the table has
all columns the index names (`Fits`). The keys of one index are compared by a
lawful order as soon as the values are, and two keys that compare as equal have
their NULLs at the same places. With that, a bulk load fails for a duplicate
and for nothing else.
-/

namespace AionDb

open Std Effect List Option

variable {V : Type}

/-! ## The order of the keys -/

section
variable [Ord V]

theorem compareValuesTotal_trans [TransOrd V] (nullsFirst : Bool) :
    TransCmp (compareValuesTotal (V := V) nullsFirst) where
  eq_swap := by
    rintro (_ | a) (_ | b)
    · rfl
    · cases nullsFirst <;> rfl
    · cases nullsFirst <;> rfl
    · exact @OrientedCmp.eq_swap _ compare _ a b
  isLE_trans := by
    rintro (_ | a) (_ | b) (_ | c) hab hbc
    case some.some.some => exact @TransCmp.isLE_trans _ compare _ a b c hab hbc
    all_goals cases nullsFirst <;> simp_all [compareValuesTotal]

instance compareComponent_trans [TransOrd V] (column : IndexKeyColumn) :
    TransCmp (compareComponent (V := V) column) := by
  have h := compareValuesTotal_trans (V := V) column.nullsFirst
  have hswap : ∀ a b : Option V, (compareValuesTotal column.nullsFirst a b).swap =
      compareValuesTotal column.nullsFirst b a := fun _ _ => OrientedCmp.eq_swap.symm
  cases hd : column.descending with
  | false =>
    have : compareComponent (V := V) column = compareValuesTotal column.nullsFirst := by
      funext a b
      simp [compareComponent, hd]
    exact this ▸ h
  | true =>
    have : compareComponent (V := V) column =
        fun a b => compareValuesTotal column.nullsFirst b a := by
      funext a b
      simp [compareComponent, hd, hswap]
    rw [this]
    exact { eq_swap := OrientedCmp.eq_swap
            isLE_trans := fun hab hbc => TransCmp.isLE_trans hbc hab }

theorem isNone_eq_of_compareComponent_eq {column : IndexKeyColumn} {a b : Option V}
    (h : compareComponent column a b = .eq) : a.isNone = b.isNone := by
  unfold compareComponent at h
  cases a <;> cases b <;> cases hd : column.descending <;> cases hn : column.nullsFirst <;>
    simp_all [compareValuesTotal]

namespace IndexKey

theorem cmp_cons (column : IndexKeyColumn) (columns : List IndexKeyColumn) (a b : Option V)
    (as bs : IndexKey V) : cmp (column :: columns) (a :: as) (b :: bs) =
      (compareComponent column a b).then (cmp columns as bs) := rfl

theorem cmp_swap [TransOrd V] : ∀ (columns : List IndexKeyColumn) (as bs : IndexKey V),
    cmp columns as bs = (cmp columns bs as).swap
  | column :: columns, a :: as, b :: bs => by
    rw [cmp_cons, cmp_cons, Ordering.swap_then, ← cmp_swap columns as bs, ← OrientedCmp.eq_swap]
  | [], as, bs => by
    cases as <;> cases bs <;> exact @OrientedCmp.eq_swap _ compare _ _ _
  | _ :: _, [], bs => by
    cases bs <;> exact @OrientedCmp.eq_swap _ compare _ _ _
  | _ :: _, _ :: _, [] => @OrientedCmp.eq_swap _ compare _ _ _

theorem cmp_isLE_trans [TransOrd V] : ∀ (columns : List IndexKeyColumn) (as bs cs : IndexKey V),
    (cmp columns as bs).isLE → (cmp columns bs cs).isLE → (cmp columns as cs).isLE
  | column :: columns, a :: as, b :: bs, c :: cs => by
    simp only [cmp_cons, Ordering.isLE_then_iff_or]
    rintro (hab | ⟨hab, has⟩) (hbc | ⟨hbc, hbs⟩)
    · exact .inl (TransCmp.lt_trans hab hbc)
    · exact .inl (TransCmp.lt_of_lt_of_eq hab hbc)
    · exact .inl (TransCmp.lt_of_eq_of_lt hab hbc)
    · exact .inr ⟨TransCmp.eq_trans hab hbc, cmp_isLE_trans columns as bs cs has hbs⟩
  | [], as, bs, cs => by
    cases as <;> cases bs <;> cases cs <;> exact @TransCmp.isLE_trans _ compare _ _ _ _
  | _ :: _, [], bs, cs => fun _ _ => by
    cases cs <;> simp [cmp, Nat.isLE_compare]
  | _ :: _, _ :: _, [], cs => fun h _ => by
    simp [cmp, Nat.isLE_compare] at h
  | _ :: _, _ :: _, _ :: _, [] => fun _ h => by
    simp [cmp, Nat.isLE_compare] at h

instance cmp_trans [TransOrd V] (columns : List IndexKeyColumn) :
    TransCmp (cmp (V := V) columns) where
  eq_swap := cmp_swap columns _ _
  isLE_trans := cmp_isLE_trans columns _ _ _

theorem hasNull_eq_of_cmp_eq : ∀ {columns : List IndexKeyColumn} {as bs : IndexKey V},
    as.length = columns.length → bs.length = columns.length → cmp columns as bs = .eq →
    as.hasNull = bs.hasNull
  | [], [], [], _, _, _ => rfl
  | column :: columns, a :: as, b :: bs, ha, hb, h => by
    rw [cmp_cons, Ordering.then_eq_eq] at h
    have hrest := hasNull_eq_of_cmp_eq (Nat.succ.inj ha) (Nat.succ.inj hb) h.2
    have hfirst := isNone_eq_of_compareComponent_eq h.1
    simp_all [hasNull]

end IndexKey

end

/-! ## Building keys -/

def IndexStorageDescriptor.Fits (index : IndexStorageDescriptor) (table : TableStorageDescriptor) :
    Prop :=
  (∀ column ∈ index.keyColumns, (columnOrdinal table column.columnId).isSome) ∧
    ∀ columnId ∈ defaultCoveringColumnIds index table, (columnOrdinal table columnId).isSome
deriving Decidable

variable {index : IndexStorageDescriptor} {table : TableStorageDescriptor} {row : Row V}

theorem mapM_columnOrdinal_spec {α : Type} {l : List α} (columnIdOf : α → ColumnId)
    (error : DbError) (h : ∀ a ∈ l, (columnOrdinal table (columnIdOf a)).isSome) :
    ∃ ordinals, (l.mapM fun a => match columnOrdinal table (columnIdOf a) with
        | some ordinal => Except.ok ordinal
        | none => .error error) = .ok ordinals ∧
      ordinals.length = l.length ∧ ∀ ordinal ∈ ordinals, ordinal < table.columns.length := by
  have hordinals := exists_mapM_eq_ok (l := l) (f := fun a =>
    match columnOrdinal table (columnIdOf a) with
      | some ordinal => Except.ok ordinal
      | none => .error error) fun a ha => by
    obtain ⟨ordinal, hordinal⟩ := isSome_iff_exists.mp (h a ha)
    exact ⟨ordinal, by simp [hordinal]⟩
  obtain ⟨ordinals, hordinals⟩ := hordinals
  refine ⟨ordinals, hordinals, (mapM_eq_ok.mp hordinals).length_eq.symm, fun ordinal hmem => ?_⟩
  obtain ⟨a, -, ha⟩ := mem_of_mapM_eq_ok hordinals hmem
  split at ha
  · cases ha
    rename_i heq
    exact (findIdx?_eq_some_iff_getElem.mp heq).1
  · cases ha

variable {ordinals : List Nat} {key : IndexKey V}

theorem exists_mapM_getElem (error : DbError) (h : ∀ ordinal ∈ ordinals, ordinal < row.length) :
    ∃ values, (ordinals.mapM fun ordinal => match row[ordinal]? with
        | some value => Except.ok value
        | none => .error error) = .ok values := by
  refine exists_mapM_eq_ok fun ordinal hmem => ?_
  exact ⟨row.get ⟨ordinal, h ordinal hmem⟩, by simp [getElem?_eq_getElem (h ordinal hmem)]⟩

theorem resolveIndexKeyOrdinals_spec (hfits : index.Fits table) :
    ∃ ordinals, resolveIndexKeyOrdinals table index = .ok ordinals ∧
      ordinals.length = index.keyColumns.length ∧
      ∀ ordinal ∈ ordinals, ordinal < table.columns.length :=
  mapM_columnOrdinal_spec IndexKeyColumn.columnId _ hfits.1

theorem resolveCoveringOrdinals_spec (hfits : index.Fits table) :
    ∃ ordinals, resolveColumnOrdinals table (defaultCoveringColumnIds index table) = .ok ordinals ∧
      ∀ ordinal ∈ ordinals, ordinal < table.columns.length := by
  obtain ⟨ordinals, hordinals, -, hlt⟩ := mapM_columnOrdinal_spec id _ hfits.2
  exact ⟨ordinals, hordinals, hlt⟩

theorem exists_buildIndexKeyWithOrdinals (hlength : ordinals.length = index.keyColumns.length)
    (hlt : ∀ ordinal ∈ ordinals, ordinal < row.length) :
    ∃ key, buildIndexKeyWithOrdinals index row ordinals = .ok key := by
  unfold buildIndexKeyWithOrdinals
  rw [if_neg (not_not.mpr hlength)]
  exact exists_mapM_getElem _ hlt

theorem length_of_buildIndexKeyWithOrdinals
    (h : buildIndexKeyWithOrdinals index row ordinals = .ok key) :
    key.length = index.keyColumns.length := by
  unfold buildIndexKeyWithOrdinals at h
  split at h
  · cases h
  · rename_i hlength
    exact (mapM_eq_ok.mp h).length_eq.symm.trans (not_not.mp hlength)

theorem exists_buildIndexKey (hfits : index.Fits table) (hrow : row.length = table.columns.length) :
    ∃ key, buildIndexKeyForDescriptor index table row = .ok key := by
  obtain ⟨ordinals, hordinals, hlength, hlt⟩ := resolveIndexKeyOrdinals_spec hfits
  obtain ⟨key, hkey⟩ := exists_buildIndexKeyWithOrdinals hlength (hrow ▸ hlt)
  exact ⟨key, bind_eq_ok.mpr ⟨ordinals, hordinals, hkey⟩⟩

theorem length_of_buildIndexKey (h : buildIndexKeyForDescriptor index table row = .ok key) :
    key.length = index.keyColumns.length := by
  obtain ⟨ordinals, -, hkey⟩ := bind_eq_ok.mp h
  exact length_of_buildIndexKeyWithOrdinals hkey

theorem exists_buildCoveringRow (hfits : index.Fits table)
    (hrow : row.length = table.columns.length) {data : IndexData V}
    (hcovering : data.coveringColumnIds = defaultCoveringColumnIds index table) :
    ∃ coveringRow, data.buildCoveringRow table row = .ok coveringRow := by
  obtain ⟨ordinals, hordinals, hlt⟩ := resolveCoveringOrdinals_spec hfits
  obtain ⟨coveringRow, hcoveringRow⟩ := exists_mapM_getElem
    (.internalMsg "row is missing index covering value")
    (hrow ▸ hlt : ∀ ordinal ∈ ordinals, ordinal < row.length)
  exact ⟨coveringRow, bind_eq_ok.mpr ⟨ordinals, hcovering ▸ hordinals, hcoveringRow⟩⟩

/-! ## Duplicates -/

/-- Two rows that a unique index has to keep apart have the same key. -/
def UniqueConflict [Ord V] (index : IndexStorageDescriptor) (table : TableStorageDescriptor)
    (a b : Row V) : Prop :=
  ∃ k ∈ (uniqueKeyForDescriptorRow index table a).toOption.join,
    ∃ k' ∈ (uniqueKeyForDescriptorRow index table b).toOption.join,
      IndexKey.cmp index.keyColumns k k' = .eq

instance [Ord V] (index : IndexStorageDescriptor) (table : TableStorageDescriptor) (a b : Row V) :
    Decidable (UniqueConflict index table a b) := by
  unfold UniqueConflict
  infer_instance

theorem mem_uniqueKey :
    key ∈ (uniqueKeyForDescriptorRow index table row).toOption.join ↔
      buildIndexKeyForDescriptor index table row = .ok key ∧
        (key.hasNull && !index.nullsNotDistinct) = false := by
  unfold uniqueKeyForDescriptorRow
  cases buildIndexKeyForDescriptor index table row with
  | error e => simp [bind, Except.bind, Except.toOption]
  | ok k =>
    have hok : ((.ok k : DbResult (IndexKey V)) >>= fun key =>
        if key.hasNull && !index.nullsNotDistinct then pure none else pure (some key)) =
        if k.hasNull && !index.nullsNotDistinct then .ok none else .ok (some k) := rfl
    rw [hok]
    split
    · rename_i hexempt
      simp only [Except.toOption, join_some, mem_def, reduceCtorEq, false_iff]
      rintro ⟨hk, hnot⟩
      cases hk
      rw [hexempt] at hnot
      cases hnot
    · rename_i hkept
      simp only [Except.toOption, join_some, mem_def, Option.some.injEq,
        Except.ok.injEq, iff_self_and]
      rintro rfl
      simpa using hkept

theorem LeafEntry.mem_tupleIds_insertTuple {entry : LeafEntry V} {id id' : TupleId} :
    id' ∈ (entry.insertTuple id row).tupleIds ↔ id' = id ∨ id' ∈ entry.tupleIds := by
  unfold insertTuple
  split
  · rename_i i hi
    obtain ⟨x, hx, heq⟩ := Pages.binarySearchBy_eq_ok hi
    rw [Std.compare_eq_iff_eq] at heq
    subst heq
    simp only [iff_or_self]
    rintro rfl
    exact mem_of_getElem? hx
  · rename_i i hi
    exact mem_insertIdx (Pages.le_of_binarySearchBy_eq_error hi)

namespace IndexData

variable [Ord V]

/-- Every tuple of an entry comes from a row with the key of the entry. -/
def Loaded (index : IndexStorageDescriptor) (keyedRows : List (IndexKey V × TupleId × Row V))
    (entries : List (LeafEntry V)) : Prop :=
  ∀ entry ∈ entries, ∀ id ∈ entry.tupleIds,
    ∃ keyed ∈ keyedRows, keyed.2.1 = id ∧ IndexKey.cmp index.keyColumns keyed.1 entry.key = .eq

def NoDuplicates (index : IndexStorageDescriptor)
    (keyedRows : List (IndexKey V × TupleId × Row V)) : Prop :=
  index.unique = true → ∀ a ∈ keyedRows, ∀ b ∈ keyedRows, a.2.1 ≠ b.2.1 →
    IndexKey.cmp index.keyColumns a.1 b.1 = .eq → (b.1.hasNull && !index.nullsNotDistinct) = true

variable {entries : List (LeafEntry V)} {keyedRows : List (IndexKey V × TupleId × Row V)}

theorem addKeyedRow_spec [TransOrd V] (hnodup : NoDuplicates index keyedRows)
    (hloaded : Loaded index keyedRows entries) {keyed : IndexKey V × TupleId × Row V}
    (hkeyed : keyed ∈ keyedRows) :
    ∃ entries', addKeyedRow index entries keyed = .ok entries' ∧
      Loaded index keyedRows entries' := by
  obtain ⟨key, tupleId, coveringRow⟩ := keyed
  have hnew : ∀ id ∈ [tupleId], ∃ keyed ∈ keyedRows, keyed.2.1 = id ∧
      IndexKey.cmp index.keyColumns keyed.1 key = .eq := by
    intro id hid
    rw [mem_singleton] at hid
    exact ⟨_, hkeyed, hid.symm, ReflCmp.compare_self⟩
  unfold addKeyedRow
  dsimp only
  split
  · refine ⟨_, rfl, fun entry hentry => ?_⟩
    rw [mem_singleton] at hentry
    subst hentry
    exact hnew
  · rename_i last hlast
    obtain ⟨init, rfl⟩ := getLast?_eq_some_iff.mp hlast
    have hlastLoaded := hloaded last (by simp)
    split
    case isTrue heq =>
      -- another tuple under this key would be a duplicate
      have hother : (index.unique && (index.nullsNotDistinct || !key.hasNull) &&
          last.tupleIds.any (· ≠ tupleId)) = false := by
        by_contra hdup
        simp only [Bool.not_eq_false, Bool.and_eq_true, List.any_eq_true, decide_eq_true_eq] at hdup
        obtain ⟨⟨hunique, hkey⟩, id, hid, hne⟩ := hdup
        obtain ⟨other, hother, rfl, hcmp⟩ := hlastLoaded id hid
        have hexempt := hnodup hunique other hother _ hkeyed hne (TransCmp.eq_trans hcmp heq)
        cases hn : key.hasNull <;> simp_all
      rw [hother]
      refine ⟨_, rfl, fun entry hentry => ?_⟩
      rw [dropLast_concat, mem_append, mem_singleton] at hentry
      rcases hentry with hentry | rfl
      · exact hloaded entry (by simp [hentry])
      intro id hid
      rw [LeafEntry.mem_tupleIds_insertTuple] at hid
      have hkeyEq : (last.insertTuple tupleId coveringRow).key = last.key := by
        unfold LeafEntry.insertTuple
        split <;> rfl
      rw [hkeyEq]
      rcases hid with rfl | hid
      · exact ⟨_, hkeyed, rfl, OrientedCmp.eq_symm heq⟩
      · exact hlastLoaded id hid
    case isFalse =>
      refine ⟨_, rfl, fun entry hentry => ?_⟩
      rcases mem_append.mp hentry with hentry | hentry
      · exact hloaded entry hentry
      · rw [mem_singleton] at hentry
        subst hentry
        exact hnew

theorem exists_foldlM_addKeyedRow [TransOrd V] (hnodup : NoDuplicates index keyedRows)
    {l : List (IndexKey V × TupleId × Row V)} (hl : ∀ keyed ∈ l, keyed ∈ keyedRows)
    (hloaded : Loaded index keyedRows entries) :
    ∃ entries', l.foldlM (addKeyedRow index) entries = .ok entries' := by
  induction l generalizing entries with
  | nil => exact ⟨entries, rfl⟩
  | cons keyed l ih =>
    obtain ⟨next, hnext, hloaded⟩ := addKeyedRow_spec hnodup hloaded (hl keyed (by simp))
    obtain ⟨entries', hrest⟩ := ih (fun k hk => hl k (mem_cons_of_mem _ hk)) hloaded
    exact ⟨entries', foldlM_cons_eq_ok.mpr ⟨next, hnext, hrest⟩⟩

theorem exists_fromRows [TransOrd V] (hfits : index.Fits table) {rows : List (TupleId × Row V)}
    (hwidth : ∀ r ∈ rows, r.2.length = table.columns.length)
    (hnodup : index.unique = true → ∀ a ∈ rows, ∀ b ∈ rows, a.1 ≠ b.1 →
      ¬ UniqueConflict index table a.2 b.2) :
    ∃ data : IndexData V, fromRows index table rows = .ok data ∧ data.descriptor = index ∧
      data.coveringColumnIds = defaultCoveringColumnIds index table := by
  obtain ⟨keyOrdinals, hkeyOrdinals, hlength, hkeyLt⟩ := resolveIndexKeyOrdinals_spec hfits
  obtain ⟨coveringOrdinals, hcoveringOrdinals, hcoveringLt⟩ := resolveCoveringOrdinals_spec hfits
  have hkeyed : ∃ keyedRows, rows.mapM (fun r => do
      let key ← buildIndexKeyWithOrdinals index r.2 keyOrdinals
      let coveringRow ← buildCoveringRowWithOrdinals r.2 coveringOrdinals
      pure (key, r.1, coveringRow)) = .ok keyedRows := by
    refine exists_mapM_eq_ok fun r hr => ?_
    obtain ⟨key, hkey⟩ := exists_buildIndexKeyWithOrdinals hlength
      (hwidth r hr ▸ hkeyLt : ∀ ordinal ∈ keyOrdinals, ordinal < r.2.length)
    obtain ⟨coveringRow, hcoveringRow⟩ := exists_mapM_getElem
      (.internalMsg "row is missing index covering value")
      (hwidth r hr ▸ hcoveringLt : ∀ ordinal ∈ coveringOrdinals, ordinal < r.2.length)
    exact ⟨_, bind_eq_ok.mpr ⟨key, hkey, bind_eq_ok.mpr ⟨coveringRow, hcoveringRow, rfl⟩⟩⟩
  obtain ⟨keyedRows, hkeyedRows⟩ := hkeyed
  have horigin : ∀ keyed ∈ keyedRows, ∃ r ∈ rows, r.1 = keyed.2.1 ∧
      buildIndexKeyForDescriptor index table r.2 = .ok keyed.1 := by
    intro keyed hmem
    obtain ⟨r, hr, h⟩ := mem_of_mapM_eq_ok hkeyedRows hmem
    obtain ⟨key, hkey, h⟩ := bind_eq_ok.mp h
    obtain ⟨coveringRow, -, h⟩ := bind_eq_ok.mp h
    cases h
    exact ⟨r, hr, rfl, bind_eq_ok.mpr ⟨keyOrdinals, hkeyOrdinals, hkey⟩⟩
  have hkeysNodup : NoDuplicates index keyedRows := by
    intro hunique a ha b hb hne hcmp
    obtain ⟨ra, hra, hida, hka⟩ := horigin a ha
    obtain ⟨rb, hrb, hidb, hkb⟩ := horigin b hb
    by_contra hkept
    rw [Bool.not_eq_true] at hkept
    have hnulls := IndexKey.hasNull_eq_of_cmp_eq (length_of_buildIndexKey hka)
      (length_of_buildIndexKey hkb) hcmp
    refine hnodup hunique ra hra rb hrb (hida ▸ hidb ▸ hne) ⟨a.1, ?_, b.1, ?_, hcmp⟩
    · exact mem_uniqueKey.mpr ⟨hka, hnulls ▸ hkept⟩
    · exact mem_uniqueKey.mpr ⟨hkb, hkept⟩
  have hloaded : Loaded index keyedRows [] := by
    intro e he
    cases he
  obtain ⟨entries, hentries⟩ := exists_foldlM_addKeyedRow hkeysNodup
    (l := keyedRows.insertionSort (keyedRowLe index · ·))
    (fun keyed hmem => (perm_insertionSort _ _).mem_iff.mp hmem) hloaded
  have hdata : fromRows index table rows = .ok
      { descriptor := index
        coveringColumnIds := defaultCoveringColumnIds index table
        leaves := Pages.load (newForTable (V := V) index table).bulkLoadLeafFill entries } :=
    bind_eq_ok.mpr ⟨_, hkeyOrdinals, bind_eq_ok.mpr ⟨_, hcoveringOrdinals,
      bind_eq_ok.mpr ⟨_, hkeyedRows, bind_eq_ok.mpr ⟨_, hentries, rfl⟩⟩⟩⟩
  exact ⟨_, hdata, rfl, rfl⟩

end IndexData

end AionDb
