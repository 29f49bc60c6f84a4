import AionDb.LibPages
import AionDb.StoreHeap

/-!
# The overflow store

A text or blob longer than the inline threshold is not stored in its row: its
bytes are cut into pages that are linked by their ids, and the row keeps the id
of the first. A page links only to a page allocated after it. That is part of
the store's type, so a chain is read and released by following ids upwards and
no chain that starts above an id reaches below it.

Which values have bytes is the class `LargeValue`.
-/

namespace AionDb

open Std ExtTreeMap List Option

inductive OverflowKind where
  | text
  | blob
deriving DecidableEq

structure OverflowValue where
  firstPageId : Nat
  len : Nat
  kind : OverflowKind
deriving DecidableEq

inductive StoredValue (V : Type) where
  | inline (value : Option V)
  | overflow (value : OverflowValue)
deriving DecidableEq

abbrev StoredRow (V : Type) := List (StoredValue V)

/-- The bytes of a text or blob, and the value that bytes stand for. -/
class LargeValue (V : Type) where
  bytes : V → Option (OverflowKind × List UInt8)
  ofBytes : OverflowKind → List UInt8 → DbResult V

structure OverflowPage where
  next : Option Nat
  payload : List UInt8
deriving DecidableEq

structure OverflowStore where
  nextPageId : Nat
  pages : ExtTreeMap Nat OverflowPage
  page_le : ∀ id page, pages[id]? = some page → id ≤ nextPageId
  link_gt : ∀ id page j, pages[id]? = some page → page.next = some j → id < j ∧ j ≤ nextPageId

def inlineValueThreshold : Nat := 96

def overflowPageBytes : Nat := 256

namespace OverflowStore

def empty : OverflowStore where
  nextPageId := 0
  pages := ∅
  page_le := by simp
  link_gt := by simp

def allocatePageId (s : OverflowStore) : Nat × OverflowStore :=
  (s.nextPageId + 1,
    { s with
      nextPageId := s.nextPageId + 1
      page_le := fun id page h => Nat.le_succ_of_le (s.page_le id page h)
      link_gt := fun id page j h hj =>
        ⟨(s.link_gt id page j h hj).1, Nat.le_succ_of_le (s.link_gt id page j h hj).2⟩ })

def linkPage (pages : ExtTreeMap Nat OverflowPage) (previous : Option Nat) (next : Nat) :
    ExtTreeMap Nat OverflowPage :=
  match previous with
  | none => pages
  | some id => pages.modify id fun page => { page with next := some next }

variable {id n : Nat} {s s' s'' : OverflowStore} {previous : Option Nat}

theorem getElem?_linkPage {pages : ExtTreeMap Nat OverflowPage} {next : Nat} {page : OverflowPage}
    (h : (linkPage pages previous next)[id]? = some page) :
    ∃ page' : OverflowPage, pages[id]? = some page' ∧ (page.next = page'.next ∨ page.next = some next) := by
  cases previous with
  | none => exact ⟨page, h, .inl rfl⟩
  | some k =>
    simp only [linkPage, ExtTreeMap.getElem?_modify] at h
    split at h
    · rename_i hk
      obtain rfl := Std.compare_eq_iff_eq.mp hk
      obtain ⟨page', hp, rfl⟩ := Option.map_eq_some_iff.mp h
      exact ⟨page', hp, .inr rfl⟩
    · exact ⟨page, h, .inl rfl⟩

def appendPage (s : OverflowStore) (previous : Option Nat) (payload : List UInt8) :
    OverflowStore where
  nextPageId := s.nextPageId + 1
  pages := (linkPage s.pages previous (s.nextPageId + 1)).insert (s.nextPageId + 1)
    { next := none, payload }
  page_le := by
    intro id page h
    rw [ExtTreeMap.getElem?_insert] at h
    split at h
    · rename_i hk
      exact (Std.compare_eq_iff_eq.mp hk).ge
    · obtain ⟨page', hp, -⟩ := getElem?_linkPage h
      exact Nat.le_succ_of_le (s.page_le id page' hp)
  link_gt := by
    intro id page j h hj
    rw [ExtTreeMap.getElem?_insert] at h
    split at h
    · simp only [Option.some.injEq] at h
      simp [← h] at hj
    obtain ⟨page', hp, hnext | hnext⟩ := getElem?_linkPage h
    · have := s.link_gt id page' j hp (hnext ▸ hj)
      omega
    · have := s.page_le id page' hp
      obtain rfl : s.nextPageId + 1 = j := by rw [hnext] at hj; exact Option.some.inj hj
      omega

/-- The loop of `store_bytes`; the result is the first page of the chain. -/
def storeChunks (s : OverflowStore) (first previous : Option Nat) :
    List (List UInt8) → Option Nat × OverflowStore
  | [] => (first, s)
  | chunk :: chunks =>
    let pageId := s.nextPageId + 1
    storeChunks (s.appendPage previous chunk) (first <|> some pageId) (some pageId) chunks

def storeBytes (s : OverflowStore) (kind : OverflowKind) (bytes : List UInt8) :
    OverflowValue × OverflowStore :=
  match s.storeChunks none none (Pages.load overflowPageBytes bytes) with
  | (some firstPageId, s) => ({ firstPageId, len := bytes.length, kind }, s)
  | (none, s) =>
    let (firstPageId, s) := s.allocatePageId
    ({ firstPageId, len := bytes.length, kind }, s)

variable {V : Type} [LargeValue V]

def storeValue (s : OverflowStore) : Option V → StoredValue V × OverflowStore
  | none => (.inline none, s)
  | some v =>
    match LargeValue.bytes v with
    | some (kind, bytes) =>
      if inlineValueThreshold < bytes.length then
        let (value, s) := s.storeBytes kind bytes
        (.overflow value, s)
      else (.inline (some v), s)
    | none => (.inline (some v), s)

def storeRow (s : OverflowStore) : Row V → StoredRow V × OverflowStore
  | [] => ([], s)
  | value :: row =>
    let (value, s) := s.storeValue value
    let (row, s) := s.storeRow row
    (value :: row, s)

/-- The loop of `read_bytes`. Links go up, so as many steps as ids were handed out are
enough. -/
def readChain (s : OverflowStore) (len : Nat) :
    Nat → Option Nat → List UInt8 → DbResult (List UInt8)
  | _, none, _ => .error (.internalMsg "overflow page chain is truncated")
  | 0, some _, _ => .error (.internalMsg "overflow page chain is truncated")
  | fuel + 1, some id, bytes =>
    match s.pages[id]? with
    | none => .error (.internalMsg "overflow page is missing")
    | some page =>
      let bytes := bytes ++ page.payload
      if len ≤ bytes.length then .ok (bytes.take len)
      else readChain s len fuel page.next bytes

def readBytes (s : OverflowStore) (value : OverflowValue) : DbResult (List UInt8) :=
  s.readChain value.len (s.nextPageId + 1) (some value.firstPageId) []

def loadValue (s : OverflowStore) : StoredValue V → DbResult (Option V)
  | .inline value => .ok value
  | .overflow value => do
    let bytes ← s.readBytes value
    let v ← LargeValue.ofBytes value.kind bytes
    pure (some v)

def loadRow (s : OverflowStore) (row : StoredRow V) : DbResult (Row V) := row.mapM s.loadValue

def removePage (s : OverflowStore) (id : Nat) : OverflowStore where
  nextPageId := s.nextPageId
  pages := s.pages.erase id
  page_le := by
    intro k page h
    rw [getElem?_erase] at h
    split at h
    · simp at h
    · exact s.page_le k page h
  link_gt := by
    intro k page j h hj
    rw [getElem?_erase] at h
    split at h
    · simp at h
    · exact s.link_gt k page j h hj

def releaseChain : Nat → Option Nat → OverflowStore → OverflowStore
  | _, none, s => s
  | 0, some _, s => s
  | fuel + 1, some id, s => releaseChain fuel (s.pages[id]?.bind (·.next)) (s.removePage id)

def releaseValue (s : OverflowStore) : StoredValue V → OverflowStore
  | .inline _ => s
  | .overflow value => releaseChain (s.nextPageId + 1) (some value.firstPageId) s

def releaseRow (s : OverflowStore) (row : StoredRow V) : OverflowStore :=
  row.foldl releaseValue s

/-- `TableData::release_overflow`: the rows of every version of the table. -/
def releaseTable (s : OverflowStore) (table : TableData (StoredRow V)) : OverflowStore :=
  ((table.heap.toList.flatMap (·.2.versions)).map (·.row)).foldl releaseRow s

/-! ## What storing and releasing leave in place -/

def SameUpTo (n : Nat) (s s' : OverflowStore) : Prop := ∀ id ≤ n, s'.pages[id]? = s.pages[id]?

theorem SameUpTo.refl (n : Nat) (s : OverflowStore) : SameUpTo n s s := fun _ _ => rfl

theorem SameUpTo.trans (h : SameUpTo n s s') (h' : SameUpTo n s' s'') :
    SameUpTo n s s'' := fun id hid => (h' id hid).trans (h id hid)

theorem sameUpTo_appendPage (hn : n ≤ s.nextPageId) (hprev : ∀ p ∈ previous, n < p)
    (payload : List UInt8) :
    SameUpTo n s (s.appendPage previous payload) := by
  intro id hid
  have hne : compare (s.nextPageId + 1) id ≠ .eq := by
    rw [ne_eq, Std.compare_eq_iff_eq]; omega
  rw [appendPage, ExtTreeMap.getElem?_insert, if_neg hne]
  cases previous with
  | none => rfl
  | some p =>
    have hp : compare p id ≠ .eq := by
      have := hprev p rfl
      rw [ne_eq, Std.compare_eq_iff_eq]; omega
    rw [linkPage, ExtTreeMap.getElem?_modify, if_neg hp]

theorem sameUpTo_storeChunks (chunks : List (List UInt8)) :
    ∀ {s : OverflowStore} (first previous : Option Nat), n ≤ s.nextPageId →
      (∀ p ∈ previous, n < p) → SameUpTo n s (s.storeChunks first previous chunks).2 := by
  induction chunks with
  | nil =>
    intro s first previous _ _
    exact SameUpTo.refl n s
  | cons chunk chunks ih =>
    intro s first previous hn hprev
    refine (sameUpTo_appendPage hn hprev chunk).trans (ih _ _ (Nat.le_succ_of_le hn) ?_)
    intro p hp
    obtain rfl := mem_some.mp hp
    exact Nat.lt_succ_of_le hn

/-- The pages of a chain that starts at an id: the ids follow each other. -/
def chainPages (id : Nat) : List (List UInt8) → List (Nat × OverflowPage)
  | [] => []
  | chunk :: chunks =>
    (id, { next := if chunks.isEmpty then none else some (id + 1), payload := chunk }) ::
      chainPages (id + 1) chunks

theorem bounds_of_mem_chainPages {chunks : List (List UInt8)} {p : Nat × OverflowPage}
    (h : p ∈ chainPages id chunks) : id ≤ p.1 ∧ p.1 < id + chunks.length := by
  induction chunks generalizing id with
  | nil => cases h
  | cons chunk chunks ih =>
    rcases mem_cons.mp h with rfl | h
    · exact ⟨Nat.le_refl _, by simp⟩
    · have := ih h
      rw [length_cons]
      omega

theorem map_fst_chainPages (chunks : List (List UInt8)) (id : Nat) :
    (chainPages id chunks).map (·.1) = List.range' id chunks.length := by
  induction chunks generalizing id with
  | nil => rfl
  | cons chunk chunks ih => simp [chainPages, ih, range'_succ]

def Holds (s : OverflowStore) (pages : List (Nat × OverflowPage)) : Prop :=
  ∀ p ∈ pages, s.pages[p.1]? = some p.2

/-! ## Storing -/

theorem storeChunks_fst (chunks : List (List UInt8)) (s : OverflowStore) (first : Nat)
    (previous : Option Nat) : (s.storeChunks (some first) previous chunks).1 = some first := by
  induction chunks generalizing s previous with
  | nil => rfl
  | cons chunk chunks ih => exact ih _ _

theorem nextPageId_storeChunks (chunks : List (List UInt8)) (s : OverflowStore)
    (first previous : Option Nat) :
    (s.storeChunks first previous chunks).2.nextPageId = s.nextPageId + chunks.length := by
  induction chunks generalizing s first previous with
  | nil => rfl
  | cons chunk chunks ih =>
    have hnext : (s.appendPage previous chunk).nextPageId = s.nextPageId + 1 := rfl
    rw [storeChunks, ih, hnext, length_cons]
    omega

theorem storeChunks_holds (chunks : List (List UInt8)) :
    ∀ {s : OverflowStore} {first : Option Nat} {chunk : List UInt8},
      s.pages[s.nextPageId]? = some { next := none, payload := chunk } →
      Holds (s.storeChunks first (some s.nextPageId) chunks).2
        (chainPages s.nextPageId (chunk :: chunks)) := by
  induction chunks with
  | nil =>
    intro s first chunk hlast p hp
    obtain rfl := mem_singleton.mp hp
    exact hlast
  | cons next chunks ih =>
    intro s first chunk hlast
    have hnew : (s.appendPage (some s.nextPageId) next).pages[s.nextPageId + 1]? =
        some { next := none, payload := next } := getElem?_insert_self
    have hlinked : (s.appendPage (some s.nextPageId) next).pages[s.nextPageId]? =
        some { next := some (s.nextPageId + 1), payload := chunk } := by
      have hne : compare (s.nextPageId + 1) s.nextPageId ≠ .eq := by
        rw [ne_eq, Std.compare_eq_iff_eq]; omega
      rw [appendPage, ExtTreeMap.getElem?_insert, if_neg hne, linkPage,
        ExtTreeMap.getElem?_modify, if_pos Std.ReflCmp.compare_self, hlast]
      rfl
    have hsame := sameUpTo_storeChunks chunks (s := s.appendPage (some s.nextPageId) next)
      (first <|> some (s.nextPageId + 1)) (some (s.nextPageId + 1))
      (Nat.le_succ s.nextPageId) (by simp)
    intro p hp
    rcases mem_cons.mp hp with rfl | hp
    · exact (hsame _ (Nat.le_refl _)).trans hlinked
    · exact ih hnew p hp

/-- What storing adds: pages under new ids, each id once. -/
structure Puts (s s' : OverflowStore) (pages : List (Nat × OverflowPage)) : Prop where
  grows : s.nextPageId ≤ s'.nextPageId
  same : SameUpTo s.nextPageId s s'
  new : ∀ id page, s.nextPageId < id → (s'.pages[id]? = some page ↔ (id, page) ∈ pages)
  fresh : ∀ p ∈ pages, s.nextPageId < p.1 ∧ p.1 ≤ s'.nextPageId
  nodup : (pages.map (·.1)).Nodup

theorem Puts.refl (s : OverflowStore) : Puts s s [] where
  grows := Nat.le_refl _
  same := SameUpTo.refl _ s
  new id page hid := by
    refine ⟨fun h => ?_, fun h => nomatch h⟩
    have := s.page_le id page h
    omega
  fresh := by simp
  nodup := nodup_nil

theorem Puts.trans {p q : List (Nat × OverflowPage)} (h : Puts s s' p) (h' : Puts s' s'' q) :
    Puts s s'' (p ++ q) where
  grows := Nat.le_trans h.grows h'.grows
  same id hid := (h'.same id (Nat.le_trans hid h.grows)).trans (h.same id hid)
  new id page hid := by
    rw [mem_append]
    rcases Nat.lt_or_ge s'.nextPageId id with hlt | hle
    · rw [h'.new id page hlt]
      refine ⟨.inr, fun hmem => hmem.resolve_left fun hp => ?_⟩
      have := (h.fresh _ hp).2
      omega
    · rw [h'.same id hle, h.new id page hid]
      refine ⟨.inl, fun hmem => hmem.resolve_right fun hq => ?_⟩
      have := (h'.fresh _ hq).1
      omega
  fresh := by
    intro x hx
    rcases mem_append.mp hx with hx | hx
    · exact ⟨(h.fresh x hx).1, Nat.le_trans (h.fresh x hx).2 h'.grows⟩
    · exact ⟨Nat.lt_of_le_of_lt h.grows (h'.fresh x hx).1, (h'.fresh x hx).2⟩
  nodup := by
    rw [map_append, nodup_append]
    refine ⟨h.nodup, h'.nodup, fun a ha b hb hab => ?_⟩
    obtain ⟨x, hx, rfl⟩ := mem_map.mp ha
    obtain ⟨y, hy, rfl⟩ := mem_map.mp hb
    have := (h.fresh x hx).2
    have := (h'.fresh y hy).1
    omega

theorem storeBytes_puts (s : OverflowStore) (kind : OverflowKind) {bytes : List UInt8}
    (hne : bytes ≠ []) :
    (s.storeBytes kind bytes).1 = { firstPageId := s.nextPageId + 1, len := bytes.length, kind } ∧
      Puts s (s.storeBytes kind bytes).2
        (chainPages (s.nextPageId + 1) (Pages.load overflowPageBytes bytes)) := by
  obtain ⟨chunk, chunks, hload⟩ := Pages.exists_load_eq_cons overflowPageBytes hne
  have hfirst := storeChunks_fst chunks (s.appendPage none chunk) (s.nextPageId + 1)
    (some (s.nextPageId + 1))
  have hheld : Holds (s.storeChunks none none (chunk :: chunks)).2
      (chainPages (s.nextPageId + 1) (chunk :: chunks)) :=
    storeChunks_holds (s := s.appendPage none chunk) chunks getElem?_insert_self
  have hnext := nextPageId_storeChunks (chunk :: chunks) s none none
  have hsame := sameUpTo_storeChunks (chunk :: chunks) none none (Nat.le_refl s.nextPageId) (by simp)
  rw [storeBytes, hload]
  match hr : s.storeChunks none none (chunk :: chunks) with
  | (none, t) => cases (congrArg Prod.fst hr).symm.trans hfirst
  | (some first, t) =>
    obtain rfl : first = s.nextPageId + 1 :=
      Option.some.inj ((congrArg Prod.fst hr).symm.trans hfirst)
    rw [hr] at hheld hnext hsame
    dsimp only at hheld hnext hsame ⊢
    refine ⟨rfl, ?_, hsame, fun id page hid => ⟨fun h => ?_, fun h => hheld _ h⟩, ?_, ?_⟩
    · exact hnext.symm ▸ Nat.le_add_right _ _
    · -- an id that the store has handed out since is one of the chain
      have hle := t.page_le id page h
      have hmem : id ∈ (chainPages (s.nextPageId + 1) (chunk :: chunks)).map (·.1) := by
        rw [map_fst_chainPages, mem_range'_1]
        omega
      obtain ⟨p, hp, rfl⟩ := mem_map.mp hmem
      cases (hheld p hp).symm.trans h
      exact hp
    · intro p hp
      have := bounds_of_mem_chainPages hp
      omega
    · rw [map_fst_chainPages]
      exact nodup_range' ..

variable {V : Type} [LargeValue V]

/-- A stored value stands for a value of the row. -/
def Stands : Option V → StoredValue V → Prop
  | value, .inline stored => stored = value
  | some v, .overflow o =>
    ∃ bytes, LargeValue.bytes v = some (o.kind, bytes) ∧ bytes.length = o.len ∧ bytes ≠ []
  | none, .overflow _ => False

def pagesOf : Option V → StoredValue V → List (Nat × OverflowPage)
  | some v, .overflow o =>
    (LargeValue.bytes v).elim [] fun bytes =>
      chainPages o.firstPageId (Pages.load overflowPageBytes bytes.2)
  | _, _ => []

def rowPages (row : Row V) (stored : StoredRow V) : List (Nat × OverflowPage) :=
  (List.zipWith pagesOf row stored).flatten

theorem storeValue_puts (s : OverflowStore) (value : Option V) :
    Stands value (s.storeValue value).1 ∧
      Puts s (s.storeValue value).2 (pagesOf value (s.storeValue value).1) := by
  cases value with
  | none => exact ⟨rfl, Puts.refl s⟩
  | some v =>
    simp only [storeValue]
    split
    · rename_i kind bytes hbytes
      split
      · rename_i hlong
        have hne : bytes ≠ [] := by rintro rfl; cases hlong
        obtain ⟨hvalue, hputs⟩ := storeBytes_puts s kind hne
        simp only [hvalue, Stands, pagesOf, hbytes, elim_some]
        exact ⟨⟨bytes, rfl, rfl, hne⟩, hputs⟩
      · exact ⟨rfl, Puts.refl s⟩
    · exact ⟨rfl, Puts.refl s⟩

theorem storeRow_puts (row : Row V) (s : OverflowStore) :
    List.Forall₂ Stands row (s.storeRow row).1 ∧
      Puts s (s.storeRow row).2 (rowPages row (s.storeRow row).1) := by
  induction row generalizing s with
  | nil => exact ⟨.nil, Puts.refl s⟩
  | cons value row ih =>
    obtain ⟨hstands, hputs⟩ := storeValue_puts s value
    obtain ⟨hrow, hputs'⟩ := ih (s.storeValue value).2
    exact ⟨.cons hstands hrow, hputs.trans hputs'⟩

end OverflowStore

def StoredRow.Above {V : Type} (n : Nat) (row : StoredRow V) : Prop :=
  ∀ o, .overflow o ∈ row → n < o.firstPageId

def StoredRow.UpTo {V : Type} (n : Nat) (row : StoredRow V) : Prop :=
  ∀ o, .overflow o ∈ row → o.firstPageId ≤ n

namespace OverflowStore

variable {V : Type} [LargeValue V]

theorem nextPageId_releaseChain (fuel : Nat) :
    ∀ (id : Option Nat) (s : OverflowStore),
      (releaseChain fuel id s).nextPageId = s.nextPageId := by
  induction fuel with
  | zero => intro id s; cases id <;> rfl
  | succ fuel ih =>
    intro id s
    cases id with
    | none => rfl
    | some id => exact ih _ _

variable {n : Nat} {s s' : OverflowStore}

theorem sameUpTo_releaseChain (fuel : Nat) :
    ∀ (id : Option Nat) (s : OverflowStore), (∀ k ∈ id, n < k) →
      SameUpTo n s (releaseChain fuel id s) := by
  induction fuel with
  | zero => intro id s _; cases id <;> exact SameUpTo.refl n s
  | succ fuel ih =>
    intro id s hid
    cases id with
    | none => exact SameUpTo.refl n s
    | some id =>
      have hlt := hid id rfl
      have hremove : SameUpTo n s (s.removePage id) := by
        intro k hk
        have hne : compare id k ≠ .eq := by rw [ne_eq, Std.compare_eq_iff_eq]; omega
        rw [removePage, getElem?_erase, if_neg hne]
      refine hremove.trans (ih _ _ ?_)
      intro j hj
      obtain ⟨page, hpage, hnext⟩ := bind_eq_some_iff.mp hj
      have := (s.link_gt id page j hpage hnext).1
      omega

omit [LargeValue V] in
theorem releaseRow_spec (row : StoredRow V) : ∀ {s : OverflowStore}, row.Above n →
    SameUpTo n s (s.releaseRow row) ∧ (s.releaseRow row).nextPageId = s.nextPageId := by
  induction row with
  | nil => intro s _; exact ⟨SameUpTo.refl n s, rfl⟩
  | cons value row ih =>
    intro s habove
    have hvalue : SameUpTo n s (s.releaseValue value) ∧
        (s.releaseValue value).nextPageId = s.nextPageId := by
      cases value with
      | inline _ => exact ⟨SameUpTo.refl n s, rfl⟩
      | overflow o =>
        have hlt := habove o (mem_cons_self ..)
        exact ⟨sameUpTo_releaseChain _ _ _ (by simpa using hlt), nextPageId_releaseChain _ _ _⟩
    obtain ⟨hsame, hnext⟩ := ih (s := s.releaseValue value)
      fun o ho => habove o (mem_cons_of_mem _ ho)
    exact ⟨hvalue.1.trans hsame, hnext.trans hvalue.2⟩

omit [LargeValue V] in
theorem releaseTable_spec {table : TableData (StoredRow V)}
    (h : table.AllRows (StoredRow.Above n)) :
    SameUpTo n s (s.releaseTable table) ∧ (s.releaseTable table).nextPageId = s.nextPageId := by
  have habove : ∀ row ∈ (table.heap.toList.flatMap (·.2.versions)).map (·.row),
      StoredRow.Above n row := by
    intro row hrow
    obtain ⟨v, hv, rfl⟩ := mem_map.mp hrow
    obtain ⟨⟨id, tuple⟩, htuple, hv⟩ := mem_flatMap.mp hv
    exact h id tuple (mem_toList_iff_getElem?_eq_some.mp htuple) v hv
  rw [releaseTable]
  generalize (table.heap.toList.flatMap (·.2.versions)).map (·.row) = rows at habove ⊢
  induction rows generalizing s with
  | nil => exact ⟨SameUpTo.refl n s, rfl⟩
  | cons row rows ih =>
    have hrow := releaseRow_spec (s := s) row (habove row (mem_cons_self ..))
    have hrest := ih (s := s.releaseRow row) fun r hr => habove r (mem_cons_of_mem _ hr)
    exact ⟨hrow.1.trans hrest.1, hrest.2.trans hrow.2⟩

theorem readChain_congr (hsame : SameUpTo s.nextPageId s s') (len : Nat) (fuel : Nat) :
    ∀ (fuel' id : Nat) (bytes : List UInt8), id ≤ s.nextPageId →
      s.nextPageId - id < fuel → s.nextPageId - id < fuel' →
      s'.readChain len fuel' (some id) bytes = s.readChain len fuel (some id) bytes := by
  induction fuel with
  | zero => intro fuel' id bytes _ h; omega
  | succ fuel ih =>
    intro fuel' id bytes hid hfuel hfuel'
    obtain ⟨fuel', rfl⟩ : ∃ k, fuel' = k + 1 := ⟨fuel' - 1, by omega⟩
    simp only [readChain]
    rw [hsame id hid]
    cases hpage : s.pages[id]? with
    | none => rfl
    | some page =>
      simp only
      split
      · rfl
      · cases hnext : page.next with
        | none => cases fuel <;> cases fuel' <;> rfl
        | some j =>
          have := s.link_gt id page j hpage hnext
          exact ih fuel' j _ this.2 (by omega) (by omega)

theorem loadRow_congr (hsame : SameUpTo s.nextPageId s s') (hgrows : s.nextPageId ≤ s'.nextPageId)
    {row : StoredRow V} (hrow : row.UpTo s.nextPageId) :
    s'.loadRow row = s.loadRow row := by
  have hvalue : ∀ value ∈ row, s'.loadValue value = s.loadValue value := by
    intro value hvalue
    cases value with
    | inline _ => rfl
    | overflow o =>
      have hid := hrow o hvalue
      simp only [loadValue, readBytes]
      rw [readChain_congr hsame o.len (s.nextPageId + 1) _ _ [] hid (by omega) (by omega)]
  clear hrow
  simp only [loadRow]
  induction row with
  | nil => rfl
  | cons value row ih =>
    rw [mapM_cons, mapM_cons, hvalue value (mem_cons_self ..),
      ih fun v hv => hvalue v (mem_cons_of_mem _ hv)]

theorem upTo_of_loadRow {stored : StoredRow V} {row : Row V} (h : s.loadRow stored = .ok row) :
    stored.UpTo s.nextPageId := by
  simp only [loadRow] at h
  induction stored generalizing row with
  | nil => intro o ho; simp at ho
  | cons value stored ih =>
    rw [mapM_cons] at h
    cases hvalue : s.loadValue value with
    | error e => rw [hvalue] at h; cases h
    | ok v =>
      rw [hvalue] at h
      cases hrest : stored.mapM s.loadValue with
      | error e =>
        simp only [hrest, bind, Except.bind] at h
        cases h
      | ok rest =>
        intro o ho
        rcases mem_cons.mp ho with rfl | ho
        · -- the first page of the chain is there
          cases hpage : s.pages[o.firstPageId]? with
          | some page => exact s.page_le _ page hpage
          | none =>
            simp only [loadValue, readBytes, readChain, hpage, bind, Except.bind] at hvalue
            cases hvalue
        · exact ih hrest o ho

end OverflowStore

end AionDb
