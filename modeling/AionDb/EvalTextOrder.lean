import Mathlib.Data.List.DropRight

/-!
# The order of texts

`compare_values` on two texts. Texts that look like multiranges, circles or points are compared by
what they stand for, if both of them do; all others as strings. Which of the two it is depends on
the pair, so there is an order among texts of one kind only.
-/

namespace AionDb.TextOrder

open List Std

/-- The order of UTF-8 bytes, by which the code compares, is that of the characters. -/
abbrev Text := List Char

structure GeomCircle (F : Type) where
  x : F
  y : F
  radius : F

/-- `f64` as the standard library has it, and the parsers of circles and multiranges. -/
structure Runtime (F : Type) where
  infinity : F
  negInfinity : F
  nan : F
  zero : F
  isZero : F → Bool
  isNan : F → Bool
  parse : Text → Option F
  toText : F → Text
  totalCmp : F → F → Ordering
  totalCmp_trans : TransCmp totalCmp
  parseCircleText : Text → Option (GeomCircle F)
  compareMultirangeText : Text → Text → Option Ordering

/-- The characters with the Unicode property `White_Space`. -/
def isWhitespace (c : Char) : Bool :=
  let n := c.toNat
  9 ≤ n && n ≤ 13 || 8192 ≤ n && n ≤ 8202 ||
    [32, 133, 160, 5760, 8232, 8233, 8239, 8287, 12288].contains n

def trim (text : Text) : Text := (text.dropWhile isWhitespace).rdropWhile isWhitespace

def eqIgnoreAsciiCase (text : Text) (token : String) : Bool := text.map Char.toLower == token.toList

def stripParens (text : Text) : Option Text :=
  if text.head? = some '(' ∧ text.tail.getLast? = some ')' then some text.tail.dropLast else none

def needsGeomParse (text : Text) : Bool := text.head?.any ['{', '<', '('].contains

def looksLikeMultirange (text : Text) : Bool :=
  (trim text).head? == some '{' && (trim text).getLast? == some '}'

variable {F : Type} [DecidableEq F] (r : Runtime F)

namespace Runtime

def parseFixedPointCoordinate (text : Text) : Option F :=
  let trimmed := trim text
  if ["inf", "+inf", "infinity", "+infinity"].any (eqIgnoreAsciiCase trimmed) then some r.infinity
  else if ["-inf", "-infinity"].any (eqIgnoreAsciiCase trimmed) then some r.negInfinity
  else if eqIgnoreAsciiCase trimmed "nan" then some r.nan
  else r.parse trimmed

def formatFixedPointCoordinate (value : F) : Text :=
  let value := if r.isZero value then r.zero else value
  if r.isNan value then "NaN".toList
  else if value = r.infinity then "Infinity".toList
  else if value = r.negInfinity then "-Infinity".toList
  else
    let text := r.toText value
    if text.contains 'e' || text.contains 'E' then text
    else (text.rdropWhile (· == '0')).rdropWhile (· == '.')

def normalizeFixedPointText (text : Text) : Option Text :=
  if !text.contains ',' then none
  else do
    let trimmed := trim text
    -- parentheses go only if both are there
    let inner := (stripParens trimmed).getD trimmed
    let x ← r.parseFixedPointCoordinate (inner.takeWhile (· != ','))
    let y ← r.parseFixedPointCoordinate (inner.dropWhile (· != ',')).tail
    return '(' :: r.formatFixedPointCoordinate x ++ ',' :: r.formatFixedPointCoordinate y ++ [')']

def compareCircles : GeomCircle F → GeomCircle F → Ordering :=
  compareLex (fun a b => r.totalCmp a.radius b.radius)
    (compareLex (fun a b => r.totalCmp a.x b.x) fun a b => r.totalCmp a.y b.y)

def compareGeom (left right : Text) : Ordering :=
  match r.parseCircleText left, r.parseCircleText right with
  | some a, some b => r.compareCircles a b
  | _, _ =>
    match r.normalizeFixedPointText left, r.normalizeFixedPointText right with
    | some a, some b => compare a b
    | _, _ => compare left right

/-- `compare_values` on two texts. -/
def compareText (left right : Text) : Ordering :=
  -- one text that starts like a shape is enough for the parsers to be tried on both
  if needsGeomParse left || needsGeomParse right then
    if looksLikeMultirange left && looksLikeMultirange right then
      (r.compareMultirangeText left right).getD (r.compareGeom left right)
    else r.compareGeom left right
  else compare left right

/-! ## Texts of one kind -/

inductive Kind | multirange | circle | point | string
deriving DecidableEq

def kind (text : Text) : Kind :=
  if !needsGeomParse text then .string
  else if looksLikeMultirange text then .multirange
  else if (r.parseCircleText text).isSome then .circle
  else if (r.normalizeFixedPointText text).isSome then .point
  else .string

variable {r} {a b c : Text} {k : Kind}

omit [DecidableEq F] in
theorem compareCircles_trans : TransCmp r.compareCircles := by
  have := r.totalCmp_trans
  have hfield : ∀ field : GeomCircle F → F, TransCmp fun a b => r.totalCmp (field a) (field b) :=
    fun field => { eq_swap := OrientedCmp.eq_swap, isLE_trans := TransCmp.isLE_trans }
  have := hfield (·.radius)
  have := hfield (·.x)
  have := hfield (·.y)
  exact inferInstanceAs (TransCmp (compareLex _ (compareLex _ _)))

theorem kind_eq_string (h : r.kind a = .string) (hneeds : needsGeomParse a = true) :
    looksLikeMultirange a = false ∧ r.parseCircleText a = none ∧
      r.normalizeFixedPointText a = none := by
  unfold kind at h
  split_ifs at h with h1 h2 h3 h4
  · simp [hneeds] at h1
  · exact ⟨by simpa using h2, by simpa using h3, by simpa using h4⟩

theorem compareText_of_string (ha : r.kind a = .string) (hb : r.kind b = .string) :
    r.compareText a b = compare a b := by
  unfold compareText
  -- the text that asks for the parsers is refused by all of them
  split_ifs with hneeds hlooks
  · simp only [Bool.or_eq_true, Bool.and_eq_true] at hneeds hlooks
    rcases hneeds with h | h
    · simp [kind_eq_string ha h] at hlooks
    · simp [kind_eq_string hb h] at hlooks
  · rcases Bool.or_eq_true_iff.mp hneeds with h | h
    · simp [compareGeom, kind_eq_string ha h]
    · simp [compareGeom, kind_eq_string hb h]
  · rfl

theorem compareText_of_shape (ha : r.kind a ≠ .string) (hm : r.kind a ≠ .multirange) :
    r.compareText a b = r.compareGeom a b := by
  unfold kind at ha hm
  unfold compareText
  split_ifs at ha hm with h1 h2 <;> simp_all

/-- The texts of a kind are compared by the keys they have. -/
theorem exists_keys (r : Runtime F) (hk : k ≠ .multirange) :
    ∃ (K : Type) (cmp : K → K → Ordering) (Key : Text → K → Prop), TransCmp cmp ∧
      (∀ a, r.kind a = k → ∃ x, Key a x) ∧
      ∀ {a b x y}, r.kind a = k → r.kind b = k → Key a x → Key b y →
        r.compareText a b = cmp x y := by
  -- the text itself, the numbers of the circle, the normal form of the point
  cases k with
  | multirange => exact absurd rfl hk
  | string =>
    refine ⟨Text, compare, fun a x => a = x, inferInstance, fun a _ => ⟨a, rfl⟩, ?_⟩
    rintro a b _ _ ha hb rfl rfl
    exact compareText_of_string ha hb
  | circle =>
    refine ⟨_, r.compareCircles, fun a x => r.parseCircleText a = some x, compareCircles_trans,
      fun a ha => ?_, fun ha hb hx hy => ?_⟩
    · unfold kind at ha
      split_ifs at ha with _ _ h
      exact Option.isSome_iff_exists.mp h
    · rw [compareText_of_shape (by simp [ha]) (by simp [ha]), compareGeom, hx, hy]
  | point =>
    have hpoint : ∀ a, r.kind a = .point →
        r.parseCircleText a = none ∧ ∃ x, r.normalizeFixedPointText a = some x := by
      intro a ha
      unfold kind at ha
      split_ifs at ha with _ _ hcircle hpoint
      exact ⟨by simpa using hcircle, Option.isSome_iff_exists.mp hpoint⟩
    refine ⟨Text, compare, fun a x => r.normalizeFixedPointText a = some x, inferInstance,
      fun a ha => (hpoint a ha).2, fun ha hb hx hy => ?_⟩
    rw [compareText_of_shape (by simp [ha]) (by simp [ha]), compareGeom, (hpoint _ ha).1, hx, hy]

/-- Numbers of which no more than the special values is needed. -/
inductive Special | negInfinity | zero | infinity | nan
deriving DecidableEq

def special : Runtime Special where
  infinity := .infinity
  negInfinity := .negInfinity
  nan := .nan
  zero := .zero
  isZero := (· = .zero)
  isNan := (· = .nan)
  parse text := if text = ['0'] then some .zero else none
  toText _ := ['0']
  totalCmp a b := compare a.ctorIdx b.ctorIdx
  totalCmp_trans := { eq_swap := OrientedCmp.eq_swap, isLE_trans := TransCmp.isLE_trans }
  parseCircleText _ := none
  compareMultirangeText _ _ := none

end Runtime

end AionDb.TextOrder
