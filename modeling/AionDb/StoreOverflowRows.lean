import AionDb.LibRun
import AionDb.StoreOverflow

/-!
# The rows of an overflow store

Rows are stored and released in any order. A stored row owns the pages of its
chains: no other row has one of their ids, and a released id is never handed
out again. So a row that is not released reads as it was stored, and when every
row is released no page is left.
-/

namespace AionDb

open Std Run List Option

inductive Datum (V : Type) where
  | text (value : String)
  | blob (value : List UInt8)
  | other (value : V)

instance {V : Type} : LargeValue (Datum V) where
  bytes
    | .text value => some (.text, value.toByteArray.data.toList)
    | .blob value => some (.blob, value)
    | .other _ => none
  ofBytes
    | .text, bytes =>
      match String.fromUTF8? ⟨bytes.toArray⟩ with
      | some value => .ok (.text value)
      | none => .error (.internalMsg "invalid UTF-8 in overflow text value")
    | .blob, bytes => .ok (.blob bytes)

theorem Datum.ofBytes_bytes {V : Type} {v : Datum V} {kind : OverflowKind} {bytes : List UInt8}
    (h : LargeValue.bytes v = some (kind, bytes)) : LargeValue.ofBytes kind bytes = .ok v := by
  cases v with
  | text value =>
    cases h
    simp only [LargeValue.ofBytes, Array.toArray_toList, String.fromUTF8?,
      dif_pos value.isValidUTF8]
    rfl
  | blob value => cases h; rfl
  | other value => cases h

namespace OverflowStore

variable {V : Type}

/-! ## Reading -/

variable {row : Row (Datum V)} {s s' : OverflowStore} {value : Option (Datum V)}
  {p q : List (Nat × OverflowPage)} {stored : StoredValue (Datum V)}

theorem readChain_of_holds {len : Nat} (chunks : List (List UInt8)) :
    ∀ {chunk : List UInt8} {fuel id : Nat} (bytes : List UInt8),
      Holds s (chainPages id (chunk :: chunks)) → s.nextPageId - id < fuel →
      (bytes ++ (chunk :: chunks).flatten).length = len →
      s.readChain len fuel (some id) bytes = .ok (bytes ++ (chunk :: chunks).flatten) := by
  induction chunks with
  | nil =>
    intro chunk fuel id bytes hheld hfuel hlen
    obtain ⟨fuel, rfl⟩ : ∃ k, fuel = k + 1 := ⟨fuel - 1, by omega⟩
    have hpage := hheld _ (mem_cons_self ..)
    simp only [flatten_cons, flatten_nil, append_nil] at hlen ⊢
    simp only [readChain, hpage, hlen, Nat.le_refl, if_true]
    rw [← hlen, take_length]
  | cons next chunks ih =>
    intro chunk fuel id bytes hheld hfuel hlen
    obtain ⟨fuel, rfl⟩ : ∃ k, fuel = k + 1 := ⟨fuel - 1, by omega⟩
    have hpage := hheld _ (mem_cons_self ..)
    have hnext := s.page_le _ _ (hheld _ (mem_cons_of_mem _ (mem_cons_self ..)))
    simp only [readChain, hpage]
    rw [flatten_cons, ← append_assoc] at hlen ⊢
    split
    · -- the bytes are complete before the last page: the rest of the chain is empty
      rename_i hle
      have hrest : (next :: chunks).flatten = [] := by
        rw [length_append] at hlen
        exact eq_nil_of_length_eq_zero (by omega)
      rw [hrest, append_nil] at hlen ⊢
      rw [← hlen, take_length]
    · exact ih _ (fun p hp => hheld p (mem_cons_of_mem _ hp)) (by dsimp only at hnext; omega) hlen

theorem loadValue_of_stands (h : Stands value stored) (hheld : Holds s (pagesOf value stored)) :
    s.loadValue stored = .ok value := by
  match value, stored with
  | value, .inline stored => exact congrArg Except.ok h
  | some v, .overflow o =>
    obtain ⟨bytes, hbytes, hlen, hne⟩ := h
    obtain ⟨chunk, chunks, hload⟩ := Pages.exists_load_eq_cons overflowPageBytes hne
    have hflat := Pages.flatten_load (by decide : 0 < overflowPageBytes) bytes
    simp only [pagesOf, hbytes, elim_some, hload] at hheld
    rw [hload] at hflat
    have hread : s.readBytes o = .ok bytes := by
      have h := readChain_of_holds chunks [] hheld
        (Nat.lt_succ_of_le (Nat.sub_le s.nextPageId _)) rfl
      rw [nil_append, hflat, hlen] at h
      exact h
    simp only [loadValue, hread, bind, Except.bind, Datum.ofBytes_bytes hbytes]
    rfl

theorem holds_append : Holds s (p ++ q) ↔ Holds s p ∧ Holds s q := forall_mem_append

theorem loadRow_of_stands {stored : StoredRow (Datum V)} (h : List.Forall₂ Stands row stored)
    (hheld : Holds s (rowPages row stored)) :
    s.loadRow stored = .ok row := by
  induction h with
  | nil => rfl
  | cons hvalue _ ih =>
    obtain ⟨hfirst, hrest⟩ := holds_append.mp hheld
    simp only [loadRow] at ih ⊢
    rw [mapM_cons, loadValue_of_stands hvalue hfirst, ih hrest]
    rfl

/-! ## Releasing -/

/-- The pages are gone and all others are left. -/
structure Frees (s s' : OverflowStore) (pages : List (Nat × OverflowPage)) : Prop where
  next : s'.nextPageId = s.nextPageId
  pages_eq : ∀ id, s'.pages[id]? = if id ∈ pages.map (·.1) then none else s.pages[id]?

/-- All the pages are there, or the row was released before and none is. -/
def AllOrNone (s : OverflowStore) (pages : List (Nat × OverflowPage)) : Prop :=
  Holds s pages ∨ ∀ p ∈ pages, s.pages[p.1]? = none

theorem Frees.refl (s : OverflowStore) : Frees s s [] := ⟨rfl, by simp⟩

theorem Frees.trans {s'' : OverflowStore} (h : Frees s s' p) (h' : Frees s' s'' q) :
    Frees s s'' (p ++ q) where
  next := h'.next.trans h.next
  pages_eq id := by
    simp only [h'.pages_eq, h.pages_eq, map_append, mem_append]
    by_cases hp : id ∈ p.map (·.1) <;> by_cases hq : id ∈ q.map (·.1) <;> simp [hp, hq]

theorem frees_removePage (s : OverflowStore) (id : Nat) (page : OverflowPage) :
    Frees s (s.removePage id) [(id, page)] where
  next := rfl
  pages_eq k := by
    rw [removePage, ExtTreeMap.getElem?_erase]
    by_cases hk : k = id
    · subst hk; simp
    · rw [if_neg fun h => hk (Std.compare_eq_iff_eq.mp h).symm]
      simp [hk]

theorem Frees.allOrNone (h : Frees s s' p) (hdisj : ∀ x ∈ q, x.1 ∉ p.map (·.1))
    (hq : AllOrNone s q) :
    AllOrNone s' q := by
  have heq : ∀ x ∈ q, s'.pages[x.1]? = s.pages[x.1]? := fun x hx => by
    rw [h.pages_eq, if_neg (hdisj x hx)]
  rcases hq with hq | hq
  · exact .inl fun x hx => (heq x hx).trans (hq x hx)
  · exact .inr fun x hx => (heq x hx).trans (hq x hx)

theorem Frees.of_missing (h : Frees s s' p) (hq : ∀ x ∈ q, s.pages[x.1]? = none) :
    Frees s s' (p ++ q) where
  next := h.next
  pages_eq id := by
    simp only [h.pages_eq, map_append, mem_append]
    by_cases hp : id ∈ p.map (·.1)
    · simp [hp]
    · by_cases hid : id ∈ q.map (·.1)
      · obtain ⟨x, hx, rfl⟩ := mem_map.mp hid
        simp [hq x hx]
      · simp [hp, hid]

theorem releaseChain_none (fuel : Nat) (s : OverflowStore) : releaseChain fuel none s = s := by
  cases fuel <;> rfl

theorem releaseChain_frees (chunks : List (List UInt8)) :
    ∀ {s : OverflowStore} {chunk : List UInt8} {fuel id : Nat},
      AllOrNone s (chainPages id (chunk :: chunks)) → s.nextPageId - id < fuel →
      Frees s (releaseChain fuel (some id) s) (chainPages id (chunk :: chunks)) := by
  induction chunks with
  | nil =>
    intro s chunk fuel id hpages hfuel
    obtain ⟨fuel, rfl⟩ : ∃ k, fuel = k + 1 := ⟨fuel - 1, by omega⟩
    have hnext : s.pages[id]?.bind (·.next) = none := by
      rcases hpages with hpages | hpages
      · rw [hpages _ (mem_cons_self ..)]; rfl
      · rw [hpages _ (mem_cons_self ..)]; rfl
    rw [releaseChain, hnext, releaseChain_none]
    exact frees_removePage s id _
  | cons next chunks ih =>
    intro s chunk fuel id hpages hfuel
    obtain ⟨fuel, rfl⟩ : ∃ k, fuel = k + 1 := ⟨fuel - 1, by omega⟩
    have hremove := frees_removePage s id { next := some (id + 1), payload := chunk }
    rcases hpages with hpages | hpages
    · have hrest : Holds s (chainPages (id + 1) (next :: chunks)) :=
        fun p hp => hpages p (mem_cons_of_mem _ hp)
      have hle : id + 1 ≤ s.nextPageId := s.page_le _ _ (hrest _ (mem_cons_self ..))
      have hdisj : ∀ x ∈ chainPages (id + 1) (next :: chunks),
          x.1 ∉ [(id, ({ next := some (id + 1), payload := chunk } : OverflowPage))].map Prod.fst := by
        intro x hx hmem
        have := (bounds_of_mem_chainPages hx).1
        have := mem_singleton.mp hmem
        omega
      rw [releaseChain, hpages _ (mem_cons_self ..)]
      have hfuel' : s.nextPageId - (id + 1) < fuel := by omega
      exact hremove.trans (ih (hremove.allOrNone hdisj (.inl hrest)) hfuel')
    · rw [releaseChain, hpages _ (mem_cons_self ..), bind_none, releaseChain_none]
      exact hremove.of_missing fun x hx => hpages x (mem_cons_of_mem _ hx)

theorem releaseValue_frees (h : Stands value stored) (hpages : AllOrNone s (pagesOf value stored)) :
    Frees s (s.releaseValue stored) (pagesOf value stored) := by
  match value, stored with
  | none, .inline _ => exact Frees.refl s
  | some _, .inline _ => exact Frees.refl s
  | some v, .overflow o =>
    obtain ⟨bytes, hbytes, -, hne⟩ := h
    obtain ⟨chunk, chunks, hload⟩ := Pages.exists_load_eq_cons overflowPageBytes hne
    simp only [pagesOf, hbytes, elim_some, hload] at hpages ⊢
    exact releaseChain_frees chunks hpages (Nat.lt_succ_of_le (Nat.sub_le ..))

theorem releaseRow_frees {stored : StoredRow (Datum V)} (h : List.Forall₂ Stands row stored) :
    ∀ {s : OverflowStore}, ((rowPages row stored).map (·.1)).Nodup →
      AllOrNone s (rowPages row stored) →
      Frees s (s.releaseRow stored) (rowPages row stored) := by
  induction h with
  | nil => exact fun _ _ => Frees.refl _
  | @cons value storedValue row stored hvalue _ ih =>
    intro s hnodup hpages
    obtain ⟨hfirst, hrest⟩ : AllOrNone s (pagesOf value storedValue) ∧
        AllOrNone s (rowPages row stored) := by
      rcases hpages with hpages | hpages
      · exact ⟨.inl (holds_append.mp hpages).1, .inl (holds_append.mp hpages).2⟩
      · exact ⟨.inr (forall_mem_append.mp hpages).1, .inr (forall_mem_append.mp hpages).2⟩
    have hids : ((pagesOf value storedValue ++ rowPages row stored).map (·.1)).Nodup := hnodup
    rw [map_append, nodup_append] at hids
    have hfreed := releaseValue_frees hvalue hfirst
    refine hfreed.trans (ih hids.2.1 (hfreed.allOrNone (fun x hx hmem => ?_) hrest))
    exact hids.2.2 _ hmem _ (mem_map_of_mem hx) rfl

end OverflowStore

/-! ## Stores and releases in any order -/

structure KeptRow (V : Type) where
  row : Row (Datum V)
  stored : StoredRow (Datum V)

def KeptRow.pages {V : Type} (e : KeptRow V) : List (Nat × OverflowPage) :=
  OverflowStore.rowPages e.row e.stored

def KeptRow.ids {V : Type} (e : KeptRow V) : List Nat := e.pages.map (·.1)

structure OverflowRows (V : Type) where
  store : OverflowStore := .empty
  live : List (KeptRow V) := []
  released : List (KeptRow V) := []

/-- `store_row_owned` moves the values that `store_row` clones; the rows they return are the
same. A row may be released again after it was released. -/
inductive OverflowCall (V : Type) where
  | storeRow (row : Row (Datum V))
  | storeRowOwned (row : Row (Datum V))
  | releaseRow (i : Nat)
  | releaseRowAgain (i : Nat)

namespace OverflowRows

open OverflowStore

variable {V : Type}

def keep (st : OverflowRows V) (row : Row (Datum V)) : OverflowRows V :=
  { st with
    store := (st.store.storeRow row).2
    live := st.live ++ [{ row, stored := (st.store.storeRow row).1 }] }

def call (st : OverflowRows V) : OverflowCall V → Option (OverflowRows V)
  | .storeRow row => some (st.keep row)
  | .storeRowOwned row => some (st.keep row)
  | .releaseRow i => st.live[i]?.map fun e =>
    { store := st.store.releaseRow e.stored
      live := st.live.eraseIdx i
      released := e :: st.released }
  | .releaseRowAgain i => st.released[i]?.map fun e =>
    { st with store := st.store.releaseRow e.stored }

/-- The pages of the store are those of the live rows, and no id belongs to two rows. -/
structure Owned (st : OverflowRows V) : Prop where
  stands : ∀ e ∈ st.live ++ st.released, List.Forall₂ Stands e.row e.stored
  nodup : ((st.live ++ st.released).flatMap KeptRow.ids).Nodup
  upTo : ∀ e ∈ st.live ++ st.released, ∀ id ∈ e.ids, id ≤ st.store.nextPageId
  pages : ∀ id page, st.store.pages[id]? = some page ↔ (id, page) ∈ st.live.flatMap KeptRow.pages

theorem owned_empty : Owned ({} : OverflowRows V) where
  stands := by simp
  nodup := nodup_nil
  upTo := by simp
  pages := by simp [OverflowStore.empty]

theorem mem_ids_of_mem_pages {rows : List (KeptRow V)} {p : Nat × OverflowPage}
    (h : p ∈ rows.flatMap KeptRow.pages) : p.1 ∈ rows.flatMap KeptRow.ids := by
  obtain ⟨e, he, hp⟩ := mem_flatMap.mp h
  exact mem_flatMap.mpr ⟨e, he, mem_map_of_mem hp⟩

variable {e : KeptRow V} {st : OverflowRows V}

theorem Owned.holds (h : Owned st) (he : e ∈ st.live) : Holds st.store e.pages :=
  fun p hp => (h.pages p.1 p.2).mpr (mem_flatMap.mpr ⟨e, he, hp⟩)

theorem Owned.load (h : Owned st) (he : e ∈ st.live) : st.store.loadRow e.stored = .ok e.row :=
  loadRow_of_stands (h.stands e (mem_append_left _ he)) (h.holds he)

theorem Owned.keep (h : Owned st) (row : Row (Datum V)) : Owned (st.keep row) := by
  obtain ⟨hstands, hputs⟩ := storeRow_puts row st.store
  have hperm : ((st.keep row).live ++ (st.keep row).released).Perm
      ({ row, stored := (st.store.storeRow row).1 } :: (st.live ++ st.released)) := by
    simp only [OverflowRows.keep, append_assoc]
    exact perm_middle
  have hupTo : ∀ id ∈ (st.live ++ st.released).flatMap KeptRow.ids, id ≤ st.store.nextPageId := by
    intro id hid
    obtain ⟨x, hx, hid⟩ := mem_flatMap.mp hid
    exact h.upTo x hx id hid
  constructor
  · intro x hx
    rcases mem_cons.mp (hperm.mem_iff.mp hx) with rfl | hx
    · exact hstands
    · exact h.stands x hx
  · rw [(hperm.flatMap_right _).nodup_iff, flatMap_cons, nodup_append]
    refine ⟨hputs.nodup, h.nodup, ?_⟩
    rintro a ha _ hb rfl
    obtain ⟨p, hp, rfl⟩ := mem_map.mp ha
    have := (hputs.fresh p hp).1
    have := hupTo _ hb
    omega
  · intro x hx id hid
    rcases mem_cons.mp (hperm.mem_iff.mp hx) with rfl | hx
    · obtain ⟨p, hp, rfl⟩ := mem_map.mp hid
      exact (hputs.fresh p hp).2
    · exact Nat.le_trans (h.upTo x hx id hid) hputs.grows
  · intro id page
    simp only [OverflowRows.keep, flatMap_append, mem_append, flatMap_singleton]
    rcases Nat.lt_or_ge st.store.nextPageId id with hlt | hle
    · rw [hputs.new id page hlt]
      refine ⟨.inr, fun hmem => hmem.resolve_left fun hold => ?_⟩
      have := hupTo id (by
        rw [flatMap_append]
        exact mem_append_left _ (mem_ids_of_mem_pages hold))
      omega
    · rw [hputs.same id hle, h.pages]
      refine ⟨.inl, fun hmem => hmem.resolve_right fun hnew => ?_⟩
      have := (hputs.fresh _ hnew).1
      omega

theorem Owned.nodup_ids (h : Owned st) (he : e ∈ st.live ++ st.released) : e.ids.Nodup :=
  (nodup_flatMap.mp h.nodup).1 e he

theorem Owned.releaseRow (h : Owned st) {i : Nat} (he : st.live[i]? = some e) :
    Owned { store := st.store.releaseRow e.stored
            live := st.live.eraseIdx i
            released := e :: st.released } := by
  have hmem := mem_of_getElem? he
  obtain ⟨hi, hget⟩ := List.getElem?_eq_some_iff.mp he
  have hlive : st.live.Perm (e :: st.live.eraseIdx i) :=
    hget ▸ (getElem_cons_eraseIdx_perm hi).symm
  have hperm : (st.live.eraseIdx i ++ e :: st.released).Perm (st.live ++ st.released) :=
    perm_middle.trans (hlive.symm.append_right _)
  have hin := mem_append_left st.released hmem
  have hfrees := releaseRow_frees (h.stands e hin) (h.nodup_ids hin) (.inl (h.holds hmem))
  refine ⟨fun x hx => h.stands x (hperm.mem_iff.mp hx),
    (hperm.flatMap_right _).nodup_iff.mpr h.nodup,
    fun x hx id hid => hfrees.next ▸ h.upTo x (hperm.mem_iff.mp hx) id hid, fun id page => ?_⟩
  have hpages : (id, page) ∈ st.live.flatMap KeptRow.pages ↔
      (id, page) ∈ e.pages ∨ (id, page) ∈ (st.live.eraseIdx i).flatMap KeptRow.pages := by
    rw [(hlive.flatMap_right _).mem_iff, flatMap_cons, mem_append]
  simp only [hfrees.pages_eq]
  split
  · -- the id was the row's, so it is no other row's
    rename_i hid
    refine ⟨(by simp), fun hrest => ?_⟩
    have hnodup := (hperm.flatMap_right KeptRow.ids).nodup_iff.mpr h.nodup
    rw [flatMap_append, flatMap_cons, nodup_append] at hnodup
    exact absurd rfl (hnodup.2.2 _ (mem_ids_of_mem_pages hrest) _ (mem_append_left _ hid))
  · rename_i hid
    rw [h.pages, hpages]
    exact ⟨fun h => h.resolve_left fun hp => hid (mem_map_of_mem hp), .inr⟩

theorem Owned.releaseRowAgain (h : Owned st) (he : e ∈ st.released) :
    Owned { st with store := st.store.releaseRow e.stored } := by
  have hin := mem_append_right st.live he
  have hmissing : ∀ p ∈ e.pages, st.store.pages[p.1]? = none := by
    intro p hp
    cases hpage : st.store.pages[p.1]? with
    | none => rfl
    | some page =>
      have hnodup := h.nodup
      rw [flatMap_append, nodup_append] at hnodup
      have hid : p.1 ∈ e.ids := mem_map_of_mem hp
      exact absurd rfl (hnodup.2.2 _ (mem_ids_of_mem_pages ((h.pages _ _).mp hpage)) _
        (mem_flatMap.mpr ⟨e, he, hid⟩))
  have hfrees := releaseRow_frees (h.stands e hin) (h.nodup_ids hin) (.inr hmissing)
  refine ⟨h.stands, h.nodup, fun x hx id hid => hfrees.next ▸ h.upTo x hx id hid, fun id page => ?_⟩
  simp only [hfrees.pages_eq, ← h.pages]
  split
  · rename_i hid
    obtain ⟨p, hp, rfl⟩ := mem_map.mp hid
    rw [hmissing p hp]
  · rfl

theorem Owned.call {st' : OverflowRows V} {c : OverflowCall V} (h : Owned st)
    (hcall : st.call c = some st') : Owned st' := by
  cases c with
  | storeRow row | storeRowOwned row => cases hcall; exact h.keep row
  | releaseRow i =>
    obtain ⟨e, he, rfl⟩ := map_eq_some_iff.mp hcall
    exact h.releaseRow he
  | releaseRowAgain i =>
    obtain ⟨e, he, rfl⟩ := map_eq_some_iff.mp hcall
    exact h.releaseRowAgain (mem_of_getElem? he)

/-- After any stores and releases every row that is not released reads as it was stored, the
next call changes no row that stays, and without live rows no page is allocated. -/
theorem overflow_rows_kept {calls : List (OverflowCall V)} {st : OverflowRows V}
    (hrun : run call {} calls = some st) :
    (∀ e ∈ st.live, st.store.loadRow e.stored = .ok e.row) ∧
      (∀ c st', st.call c = some st' → ∀ e ∈ st.live, e ∈ st'.live →
        st'.store.loadRow e.stored = st.store.loadRow e.stored) ∧
      (st.live = [] → st.store.pages = ∅) := by
  have h := run_preserves (I := Owned) Owned.call owned_empty hrun
  refine ⟨fun e he => h.load he, fun c st' hcall e he he' => ?_, fun hlive => ?_⟩
  · rw [h.load he, (h.call hcall).load he']
  refine ExtTreeMap.ext_getElem? fun id => ?_
  cases hpage : st.store.pages[id]? with
  | none => simp
  | some page =>
    have hmem := (h.pages id page).mp hpage
    rw [hlive] at hmem
    cases hmem

def twoRowCalls : List (OverflowCall Unit) :=
  [.storeRow [some (.blob (List.replicate 300 1)), none],
    .storeRowOwned [some (.blob (List.replicate 257 2)), some (.other ())],
    .releaseRow 0, .releaseRowAgain 0]

theorem overflow_rows_kept_two :
    ((run call {} twoRowCalls).isSome = true ∧ (after call {} twoRowCalls).live.length = 1) ∧
      ∀ e ∈ (after call {} twoRowCalls).live,
        (after call {} twoRowCalls).store.loadRow e.stored = .ok e.row :=
  ⟨by decide +kernel, (overflow_rows_kept (run_eq_some_after (by decide +kernel))).1⟩

end OverflowRows

end AionDb
