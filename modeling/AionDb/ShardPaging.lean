import AionDb.ShardRangesSpec

/-!
# Paged range scans

A page holds the rows above its lower bound until the limit is reached. The bound is the
last key of the page before, and for the first page the start key itself, so that a row
at the start key is on no page.
-/

namespace AionDb.Paging

open List Ranges
open RangeSystem (byteKey)

abbrev Row := Key × Key

structure ContinuationToken where
  lastKey : Key
  pageSeq : Nat

structure ScanPageResponse where
  rows : List Row
  next : Option ContinuationToken

def inPage (lower upper : Key) (row : Row) : Bool := lower < row.1 ∧ Below row.1 upper

def fill (limit : Nat) (rows : List Row) : List Row → List Row
  | [] => rows
  | entry :: rest =>
    let rows := rows ++ [entry]
    if limit ≤ rows.length then rows else fill limit rows rest

def lowerKey (startKey : Key) (continuation : Option ContinuationToken) : Key :=
  (continuation.map (·.lastKey)).getD startKey

section

variable (startKey endKey : Key) (storage : List Row) (limit : Nat)

def paginate (continuation : Option ContinuationToken) : ScanPageResponse :=
  let rows := fill limit [] (storage.filter (inPage (lowerKey startKey continuation) endKey))
  let next := rows.getLast?.map fun row =>
    { lastKey := row.1, pageSeq := (continuation.map fun t => (t.pageSeq + 1) % 2 ^ 32).getD 1 }
  { rows, next := next.filter fun t => storage.any (inPage t.lastKey endKey) }

/-- The rows of all pages, each asked for with the token of the page before. -/
def scan : Nat → Option ContinuationToken → Option (List Row)
  | 0, _ => none
  | fuel + 1, continuation =>
    let page := paginate startKey endKey storage limit continuation
    match page.next with
    | none => some page.rows
    | some token => (scan fuel (some token)).map (page.rows ++ ·)

end

variable {startKey endKey : Key} {storage : List Row} {limit : Nat}

theorem fill_eq_take (l rows : List Row) (h : rows.length < limit) :
    fill limit rows l = rows ++ l.take (limit - rows.length) := by
  induction l generalizing rows with
  | nil => simp [fill]
  | cons entry rest ih =>
    obtain ⟨n, hn⟩ : ∃ n, limit - rows.length = n + 1 := ⟨limit - rows.length - 1, by omega⟩
    simp only [fill, hn, take_succ_cons]
    split
    · next hfull =>
      rw [length_append, length_singleton] at hfull
      simp [show n = 0 by omega]
    · next hfull =>
      rw [ih _ (Nat.not_le.mp hfull), append_assoc, length_append, length_singleton,
        show limit - (rows.length + 1) = n by omega, singleton_append]

/-- What comes after a row of a page is what the bound at its key leaves. -/
theorem filter_inPage_last (hsorted : storage.Pairwise (·.1 < ·.1)) {lower : Key}
    {pre rest : List Row} {last : Row}
    (h : storage.filter (inPage lower endKey) = pre ++ last :: rest) :
    storage.filter (inPage last.1 endKey) = rest := by
  have hsub := h ▸ hsorted.filter (inPage lower endKey)
  obtain ⟨-, hlast, hpre⟩ := pairwise_append.mp hsub
  have hmem : last ∈ storage.filter (inPage lower endKey) := h ▸ mem_append_right _ mem_cons_self
  have hlower : lower < last.1 := (of_decide_eq_true (mem_filter.mp hmem).2).1
  calc storage.filter (inPage last.1 endKey)
      = (storage.filter (inPage lower endKey)).filter (last.1 < ·.1) := by
        rw [filter_filter]
        refine filter_congr fun row _ => ?_
        simp only [inPage, ← Bool.decide_and]
        exact decide_eq_decide.mpr
          ⟨fun ⟨hk, hb⟩ => ⟨hk, hlower.trans hk, hb⟩, fun ⟨hk, _, hb⟩ => ⟨hk, hb⟩⟩
    _ = rest := by
        rw [h, filter_append, filter_eq_nil_iff.mpr, filter_cons_of_neg (by simp), nil_append]
        · exact filter_eq_self.mpr fun row hr => decide_eq_true ((pairwise_cons.mp hlast).1 row hr)
        · intro row hr hlt
          exact lt_asymm (of_decide_eq_true hlt) (hpre row hr last mem_cons_self)

/-- A page takes the first rows above its bound; its token leaves the others. -/
theorem paginate_spec (hsorted : storage.Pairwise (·.1 < ·.1)) (hlimit : 1 ≤ limit)
    {token : Option ContinuationToken} {P : List Row}
    (hP : storage.filter (inPage (lowerKey startKey token) endKey) = P) :
    (paginate startKey endKey storage limit token).rows = P.take limit ∧
      match (paginate startKey endKey storage limit token).next with
      | none => P.drop limit = []
      | some t => P ≠ [] ∧ storage.filter (inPage t.lastKey endKey) = P.drop limit := by
  have hfill : fill limit [] P = P.take limit := fill_eq_take P [] hlimit
  refine ⟨by rw [paginate, hP, hfill], ?_⟩
  simp only [paginate, hP, hfill]
  rcases eq_nil_or_concat (P.take limit) with hnil | ⟨pre, last, hpre⟩
  · have hempty : P = [] := (take_eq_nil_iff.mp hnil).resolve_left (by omega)
    simp [hempty]
  · have hsplit : P = pre ++ last :: P.drop limit :=
      (take_append_drop limit P).symm.trans (by simp [hpre])
    have hrest := filter_inPage_last hsorted (hP.trans hsplit)
    simp only [hpre, concat_eq_append, getLast?_append, getLast?_singleton, Option.some_or,
      Option.map_some, Option.filter_some]
    by_cases hany : storage.any (inPage last.1 endKey)
    · rw [if_pos hany]
      exact ⟨by rintro rfl; simp at hpre, hrest⟩
    · rw [if_neg hany]
      exact hrest.symm.trans
        (filter_eq_nil_iff.mpr fun row hr hin => hany (any_eq_true.mpr ⟨row, hr, hin⟩))

/-- From any token on, the pages hold what lies above its key. -/
theorem exists_scan (hsorted : storage.Pairwise (·.1 < ·.1)) (hlimit : 1 ≤ limit)
    {P : List Row} {token : Option ContinuationToken}
    (hP : storage.filter (inPage (lowerKey startKey token) endKey) = P) :
    ∃ fuel, scan startKey endKey storage limit fuel token = some P := by
  induction hn : P.length using Nat.strong_induction_on generalizing P token with
  | _ n ih =>
    obtain ⟨hrows, hnext⟩ := paginate_spec hsorted hlimit hP
    cases htok : (paginate startKey endKey storage limit token).next with
    | none =>
      rw [htok] at hnext
      refine ⟨1, ?_⟩
      rw [scan, htok, hrows, take_of_length_le (drop_eq_nil_iff.mp hnext)]
    | some t =>
      rw [htok] at hnext
      have hpos := length_pos_iff.mpr hnext.1
      have hP' : storage.filter (inPage (lowerKey startKey (some t)) endKey) = P.drop limit :=
        hnext.2
      obtain ⟨fuel, hfuel⟩ := ih _ (by rw [length_drop]; omega) hP' rfl
      refine ⟨fuel + 1, ?_⟩
      simp only [scan, htok, hrows, hfuel, Option.map_some, take_append_drop]

end AionDb.Paging
