import AionDb.LibEffect
import Mathlib.Data.List.ReduceOption

/-!
# `IN` over a subquery

The values of the subquery have a hash index, which answers alone where all of them have the type
of the left side. Of a row with a NULL only that is kept. A row constructor and the rows it is
looked for in are compared as texts.
-/

namespace AionDb.InSubquery

open List

/-- What the executor knows of values; NULL is not one of them. -/
structure Runtime (V K T ε : Type) where
  compareRuntimeValues : V → V → Except ε (Option Ordering)
  buildHashKey : V → Option K
  dataType : V → T
  rendered : V → List Char
  text : List Char → V
  arityError : Nat → Nat → ε

/-- The left side, evaluated: a value, or the components of a row constructor. -/
inductive Inner (V : Type)
  | value (v : Option V)
  | row (args : List (Option V))

def needsQuote : List Char := [',', '(', ')', '"', '\\', ' ']

def escape (text : List Char) : List Char :=
  text.flatMap fun c => if c = '"' ∨ c = '\\' then ['\\', c] else [c]

def pushInSubqueryTupleField (text : List Char) : List Char :=
  if text.isEmpty || text.any (· ∈ needsQuote) then '"' :: escape text ++ ['"'] else text

variable {V K T ε : Type} (r : Runtime V K T ε)

/-- A field stands behind a comma, the first one without it. A row constructor has the same text. -/
def inSubqueryTupleText (values : List (Option V)) : List Char :=
  let fields := values.flatMap fun v => ',' :: v.elim [] (pushInSubqueryTupleField ∘ r.rendered)
  '(' :: (fields.tail ++ [')'])

def Inner.leftVal : Inner V → Option V
  | .value v => v
  | .row args => some (r.text (inSubqueryTupleText r args))

/-- What is kept of a row: a value, a NULL, or nothing of a row without columns. -/
def projectedValue : Inner V → List (Option V) → Except ε (Option (Option V))
  | .value _, row => return row.head?
  | .row args, row =>
    if row.length ≠ args.length then throw (r.arityError row.length args.length)
    else return some (if row.any (·.isNone) then none else some (r.text (inSubqueryTupleText r row)))

def search (left : V) (values : List V) : Except ε Bool :=
  values.anyM fun v => return (← r.compareRuntimeValues left v) = some .eq

/-- The values under the key of the left side come first. -/
def find [DecidableEq K] [DecidableEq T] (left : V) (values : List V) : Except ε Bool := do
  let allHashable := values.all fun v => (r.buildHashKey v).isSome
  let firstValueType := values.head?.map r.dataType
  let homogeneousType := values.all fun v => some (r.dataType v) = firstValueType
  let canSkipLinearOnMiss :=
    allHashable ∧ homogeneousType ∧ firstValueType = some (r.dataType left)
  match r.buildHashKey left with
  | none => search r left values
  | some key =>
    if ← search r left (values.filter (r.buildHashKey · = some key)) then return true
    else if canSkipLinearOnMiss then return false else search r left values

def resolveInSubquery [DecidableEq K] [DecidableEq T] (inner : Inner V)
    (rows : List (List (Option V))) (negated : Bool) : Except ε (Option Bool) :=
  match inner.leftVal r with
  | none => return none
  | some left => do
    let cells ← rows.mapM (projectedValue r inner)
    let found ← find r left (cells.filterMap Option.join)
    let hasNull := cells.any (·.any (·.isNone))
    if !found && hasNull then return none else return some (found != negated)

/-! ## The answer of SQL -/

def equals (left v : V) : Bool :=
  match r.compareRuntimeValues left v with
  | .ok (some .eq) => true
  | _ => false

/-- Equality of the two sides; unknown where a NULL decides. -/
def sqlEq : Inner V → List (Option V) → Option Bool
  | .value v, row => v.bind fun v => row.head?.join.map (equals r v)
  | .row args, row =>
    let each := zipWith (fun a b => a.bind fun a => b.map (equals r a)) args row
    if some false ∈ each then some false else if none ∈ each then none else some true

def sqlIn (inner : Inner V) (rows : List (List (Option V))) : Option Bool :=
  let each := rows.map (sqlEq r inner)
  if some true ∈ each then some true else if none ∈ each then none else some false

/-- `v` can be compared with the left side, and has its key if it has its type and is equal to it. -/
def Comparable (left v : V) : Prop :=
  (∃ o, r.compareRuntimeValues left v = .ok (some o)) ∧
    (equals r left v → r.dataType v = r.dataType left → r.buildHashKey v = r.buildHashKey left)

/-- A row with a NULL is not told from the left side by its other components. Without one, equal
components are rendered alike, and the texts of the rows are compared as such. -/
def Agrees : Inner V → List (Option V) → Prop
  | .value v, row => row ≠ [] ∧ ∀ x ∈ v, ∀ y, some y ∈ row.head? → Comparable r x y
  | .row args, row => row.length = args.length ∧
    (none ∈ row ∧ sqlEq r (.row args) row = none ∨ ∃ as bs : List V, as.map some = args ∧
      bs.map some = row ∧
      (∀ p ∈ as.zip bs, equals r p.1 p.2 ↔ r.rendered p.1 = r.rendered p.2) ∧
      ∃ o, r.compareRuntimeValues (r.text (inSubqueryTupleText r args))
        (r.text (inSubqueryTupleText r row)) = .ok (some o) ∧
        (o = .eq ↔ inSubqueryTupleText r args = inSubqueryTupleText r row))

/-! ## Rows and their texts -/

theorem escape_cancel : ∀ {a b x y : List Char}, escape a ++ '"' :: x = escape b ++ '"' :: y →
    a = b ∧ x = y
  | [], [], _, _, h => ⟨rfl, (cons.inj h).2⟩
  | [], c :: b, _, _, h | c :: b, [], _, _, h => by grind [escape]
  | c :: a, d :: b, x, y, h => by
    have ih := @escape_cancel a b x y
    grind [escape]

section

variable {a b x y : List Char} {c d : Char}

theorem takeWhile_plain (ha : ¬ (a.isEmpty || a.any (· ∈ needsQuote))) (hc : c ∈ needsQuote) :
    (a ++ c :: x).takeWhile (· ∉ needsQuote) = a := by
  rw [takeWhile_append_of_pos (by simp_all)]
  simp [hc]

theorem field_cancel (hc : c ∈ needsQuote) (hd : d ∈ needsQuote)
    (h : pushInSubqueryTupleField a ++ c :: x = pushInSubqueryTupleField b ++ d :: y) :
    a = b ∧ c :: x = d :: y := by
  unfold pushInSubqueryTupleField at h
  split at h <;> split at h
  · simp only [cons_append, append_assoc, cons.injEq, true_and] at h
    exact escape_cancel h
  · next hb =>
    have hnil : b = [] := (takeWhile_plain hb hd).symm.trans (congrArg _ h.symm)
    exact absurd (hnil ▸ rfl) hb
  · next ha _ =>
    have hnil : a = [] := (takeWhile_plain ha hc).symm.trans (congrArg _ h)
    exact absurd (hnil ▸ rfl) ha
  · next ha hb =>
    have htake := congrArg (takeWhile (· ∉ needsQuote)) h
    rw [takeWhile_plain ha hc, takeWhile_plain hb hd] at htake
    subst htake
    exact ⟨rfl, append_cancel_left h⟩

end

/-- The fields, each behind a comma, and the end. -/
def tupleRest (fields : List (List Char)) : List Char :=
  fields.flatMap (',' :: pushInSubqueryTupleField ·) ++ [')']

theorem tupleRest_inj : ∀ {l m : List (List Char)}, tupleRest l = tupleRest m → l = m
  | [], [], _ => rfl
  | [], _ :: _, h | _ :: _, [], h => by simp [tupleRest] at h
  | f :: l, g :: m, h => by
    have hhead : ∀ l, ∃ c ∈ needsQuote, ∃ x, tupleRest l = c :: x
      | [] => ⟨_, by decide, _, rfl⟩
      | _ :: _ => ⟨_, by decide, _, rfl⟩
    obtain ⟨c, hc, x, hl⟩ := hhead l
    obtain ⟨d, hd, y, hm⟩ := hhead m
    have h : pushInSubqueryTupleField f ++ tupleRest l =
        pushInSubqueryTupleField g ++ tupleRest m := by simpa [tupleRest] using h
    rw [hl, hm] at h
    obtain ⟨rfl, hrest⟩ := field_cancel hc hd h
    rw [tupleRest_inj (hl.trans (hrest.trans hm.symm))]

variable {r} {left : V} {values as bs : List V}

theorem inSubqueryTupleText_inj (hlen : as.length = bs.length) :
    inSubqueryTupleText r (as.map some) = inSubqueryTupleText r (bs.map some) ↔
      as.map r.rendered = bs.map r.rendered := by
  have htext : ∀ v (vs : List V), inSubqueryTupleText r ((v :: vs).map some) =
      '(' :: (tupleRest ((v :: vs).map r.rendered)).tail := by
    simp [inSubqueryTupleText, tupleRest, flatMap_map]
  cases as with
  | nil => simp [eq_nil_of_length_eq_zero hlen.symm]
  | cons a as =>
    cases bs with
    | nil => cases hlen
    | cons b bs =>
      rw [htext, htext]
      exact ⟨fun h => tupleRest_inj (congrArg (',' :: ·) (cons.inj h).2), fun h => by rw [h]⟩

theorem sqlEq_row (hlen : as.length = bs.length)
    (h : ∀ p ∈ as.zip bs, equals r p.1 p.2 ↔ r.rendered p.1 = r.rendered p.2) :
    sqlEq r (.row (as.map some)) (bs.map some) =
      some (decide (as.map r.rendered = bs.map r.rendered)) := by
  have hfalse : false ∉ zipWith (equals r) as bs ↔ as.map r.rendered = bs.map r.rendered := by
    induction as generalizing bs with
    | nil => simp [eq_nil_of_length_eq_zero hlen.symm]
    | cons a as ih =>
      cases bs with
      | nil => cases hlen
      | cons b bs =>
        obtain ⟨hhead, hrest⟩ := forall_mem_cons.mp h
        simp [← ih (Nat.succ.inj hlen) hrest, ← hhead]
  have heach : zipWith (fun a b => a.bind fun a => b.map (equals r a)) (as.map some)
      (bs.map some) = (zipWith (equals r) as bs).map some := by
    simp [zipWith_map, map_zipWith]
  simp only [sqlEq, heach, ← hfalse]
  by_cases hmem : false ∈ zipWith (equals r) as bs <;> simp [hmem, -map_zipWith]

theorem projectedValue_spec {inner : Inner V} {row : List (Option V)}
    (hleft : inner.leftVal r = some left) (h : Agrees r inner row) :
    ∃ cell, projectedValue r inner row = .ok (some cell) ∧
      sqlEq r inner row = cell.map (equals r left) ∧ ∀ v ∈ cell, Comparable r left v := by
  match inner, row with
  | .value _, [] => exact absurd rfl h.1
  | .value _, cell :: row =>
    cases hleft
    refine ⟨cell, rfl, rfl, ?_⟩
    rintro v ⟨⟩
    exact h.2 left rfl v rfl
  | .row args, row =>
    cases hleft
    obtain ⟨hlen, ⟨hnull, hnone⟩ | ⟨as, bs, rfl, rfl, hrendered, o, ho, heq⟩⟩ := h
    · refine ⟨none, ?_, hnone, nofun⟩
      rw [projectedValue, if_neg (not_not.mpr hlen), if_pos (any_eq_true.mpr ⟨none, hnull, rfl⟩)]
      rfl
    have hlen' : as.length = bs.length := by simpa using hlen.symm
    have hequals : equals r (r.text (inSubqueryTupleText r (as.map some)))
        (r.text (inSubqueryTupleText r (bs.map some))) = decide (o = .eq) := by
      cases o <;> simp [equals, ho]
    refine ⟨some (r.text (inSubqueryTupleText r (bs.map some))), ?_, ?_, ?_⟩
    · rw [projectedValue, if_neg (not_not.mpr hlen), if_neg (by simp)]
      rfl
    · simp only [sqlEq_row hlen' hrendered, Option.map_some, hequals, heq,
        inSubqueryTupleText_inj hlen']
    · rintro _ ⟨⟩
      refine ⟨⟨o, ho⟩, fun h _ => ?_⟩
      rw [heq.mp (of_decide_eq_true (hequals ▸ h))]

theorem exists_cells {inner : Inner V} {rows : List (List (Option V))}
    (hleft : inner.leftVal r = some left) (h : ∀ row ∈ rows, Agrees r inner row) :
    ∃ cells : List (Option V), rows.mapM (projectedValue r inner) = .ok (cells.map some) ∧
      rows.map (sqlEq r inner) = cells.map (·.map (equals r left)) ∧
      ∀ v, some v ∈ cells → Comparable r left v := by
  choose! cell hcell hsql hv using fun row hrow => projectedValue_spec hleft (h row hrow)
  refine ⟨rows.map cell, ?_, ?_, fun v hmem => ?_⟩
  · rw [map_map]
    exact Effect.mapM_eq_ok.mpr (forall₂_map_right_iff.mpr (forall₂_same.mpr hcell))
  · rw [map_map]
    exact map_congr_left hsql
  · obtain ⟨row, hrow, hcell⟩ := mem_map.mp hmem
    exact hv row hrow v hcell

/-! ## The search -/

theorem search_eq (h : ∀ v ∈ values, ∃ o, r.compareRuntimeValues left v = .ok (some o)) :
    search r left values = .ok (values.any (equals r left)) := by
  induction values with
  | nil => rfl
  | cons v vs ih =>
    obtain ⟨⟨o, ho⟩, h⟩ := forall_mem_cons.mp h
    have heq : equals r left v = (o == .eq) := by cases o <;> simp [equals, ho]
    simp only [search, anyM] at ih ⊢
    rw [ih h, any_cons, heq, ho]
    cases o <;> rfl

variable [DecidableEq K] [DecidableEq T]

theorem find_eq (h : ∀ v ∈ values, Comparable r left v) :
    find r left values = .ok (values.any (equals r left)) := by
  have hcompare := fun v hv => (h v hv).1
  simp only [find, search_eq hcompare]
  split
  · rfl
  next key hleft =>
  rw [search_eq fun v hv => hcompare v (mem_of_mem_filter hv)]
  show (if _ then _ else _) = _
  by_cases hhit : (values.filter (r.buildHashKey · = some key)).any (equals r left)
  · obtain ⟨v, hv, heq⟩ := any_eq_true.mp hhit
    rw [if_pos hhit, any_eq_true.mpr ⟨v, mem_of_mem_filter hv, heq⟩]
    rfl
  rw [if_neg hhit]
  split
  · next hskip =>
    -- a value equal to the left side has its type and so its key
    refine congrArg _ (any_eq_false.mpr fun v hv heq => hhit ?_).symm
    have htype := of_decide_eq_true (all_eq_true.mp hskip.2.1 v hv)
    have hv' := (h v hv).2 heq (Option.some.inj (htype.trans hskip.2.2))
    exact any_eq_true.mpr ⟨v, mem_filter.mpr ⟨hv, by simp [hv', hleft]⟩, heq⟩
  · rfl

/-- Numbers; the text of a row is of no account below. -/
def numbers : Runtime Nat Nat Unit Unit where
  compareRuntimeValues a b := .ok (some (compare a b))
  buildHashKey := some
  dataType _ := ()
  rendered _ := []
  text _ := 0
  arityError _ _ := ()

end AionDb.InSubquery
