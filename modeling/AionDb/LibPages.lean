import Mathlib.Data.List.Basic

/-!
# Ordered sequences cut into pages

A sorted sequence kept as a list of non-empty pages. A search is given by a
probe: how an element compares with what is sought. `pageIndex` picks the
page by the first element of each page, `binarySearchBy` the place inside it,
and a page that outgrows the capacity is cut in the middle.
-/

namespace Pages

variable {ε : Type*}

/-- The number of leading elements that satisfy `p`. -/
def partitionPoint {α : Type*} (p : α → Bool) (l : List α) : Nat := (l.takeWhile p).length

/-- `ok i` when the element at `i` is the one sought, `error i` when it would go to `i`. -/
def binarySearchBy (probe : ε → Ordering) (l : List ε) : Except Nat Nat :=
  let i := partitionPoint (probe · == .lt) l
  if l[i]?.any (probe · == .eq) then .ok i else .error i

variable {fill i : Nat} {l : List ε} {probe : ε → Ordering}

theorem binarySearchBy_eq_ok (h : binarySearchBy probe l = .ok i) :
    ∃ x, l[i]? = some x ∧ probe x = .eq := by
  unfold binarySearchBy at h
  dsimp only at h
  split at h
  · rename_i hfound
    cases h
    obtain ⟨x, hx, heq⟩ := (Option.any_eq_true _ _).mp hfound
    exact ⟨x, hx, by simpa using heq⟩
  · cases h

theorem le_of_binarySearchBy_eq_error (h : binarySearchBy probe l = .error i) : i ≤ l.length := by
  unfold binarySearchBy at h
  dsimp only at h
  split at h
  · cases h
  · cases h
    exact (List.takeWhile_prefix _).length_le

/-- The last page whose first element is not above what is sought, or the first page. -/
def pageIndex (probe : ε → Ordering) (pages : List (List ε)) : Nat :=
  partitionPoint (fun page => page.head?.any (probe · != .gt)) pages - 1

/-- A page above the capacity is cut in the middle. -/
def splitPage (capacity : Nat) (page : List ε) : List (List ε) :=
  if page.length ≤ capacity then [page]
  else [page.take (page.length / 2), page.drop (page.length / 2)]

/-- Changes the element sought, or puts a new one in its place. -/
def upsertPage (probe : ε → Ordering) (update : ε → ε) (new : ε) (page : List ε) : List ε :=
  match binarySearchBy probe page with
  | .ok i => page.modify i update
  | .error i => page.insertIdx i new

def upsert (capacity : Nat) (probe : ε → Ordering) (update : ε → ε) (new : ε)
    (pages : List (List ε)) : List (List ε) :=
  if pages.isEmpty then [[new]]
  else
    let i := pageIndex probe pages
    pages.take i ++
      (pages[i]?.elim [] fun page => splitPage capacity (upsertPage probe update new page)) ++
      pages.drop (i + 1)

/-- Changes the element sought, or removes it when `update` gives `none`. -/
def adjustPage (probe : ε → Ordering) (update : ε → Option ε) (page : List ε) : List ε :=
  match binarySearchBy probe page with
  | .error _ => page
  | .ok i => page.take i ++ (page[i]?.bind update).toList ++ page.drop (i + 1)

/-- Changes or removes the element sought; a page that becomes empty is removed. -/
def adjust (probe : ε → Ordering) (update : ε → Option ε) (pages : List (List ε)) : List (List ε) :=
  let i := pageIndex probe pages
  pages.take i ++
    (pages[i]?.elim [] fun page =>
      let page := adjustPage probe update page
      if page.isEmpty then [] else [page]) ++
    pages.drop (i + 1)

def find (probe : ε → Ordering) (pages : List (List ε)) : Option ε := do
  let page ← pages[pageIndex probe pages]?
  match binarySearchBy probe page with
  | .ok i => page[i]?
  | .error _ => none

/-- Cuts a sequence into pages of `fill` elements; the fuel is the length of the list. -/
def loadAux (fill : Nat) : Nat → List ε → List (List ε)
  | 0, _ => []
  | _ + 1, [] => []
  | fuel + 1, l => l.take fill :: loadAux fill fuel (l.drop fill)

def load (fill : Nat) (l : List ε) : List (List ε) := loadAux fill l.length l

theorem exists_load_eq_cons (fill : Nat) (h : l ≠ []) :
    ∃ page pages, load fill l = page :: pages := by
  cases l with
  | nil => exact absurd rfl h
  | cons x l => exact ⟨_, _, rfl⟩

theorem flatten_loadAux (hfill : 0 < fill) (fuel : Nat) :
    ∀ l : List ε, l.length ≤ fuel → (loadAux fill fuel l).flatten = l := by
  induction fuel with
  | zero =>
    intro l hl
    exact (List.eq_nil_of_length_eq_zero (Nat.le_zero.mp hl)).symm
  | succ fuel ih =>
    intro l hl
    cases l with
    | nil => rfl
    | cons x l =>
      have hdrop : ((x :: l).drop fill).length ≤ fuel := by
        rw [List.length_drop]
        omega
      rw [loadAux, List.flatten_cons, ih _ hdrop, List.take_append_drop]
      exact fun h => nomatch h

theorem flatten_load (hfill : 0 < fill) (l : List ε) : (load fill l).flatten = l :=
  flatten_loadAux hfill l.length l (Nat.le_refl _)

end Pages
