import AionDb.NumericValue
import Mathlib.Data.Prod.Lex

/-!
# The order of NUMERIC values

`cmp` aligns two values and compares their coefficients; where the aligned one
has too many limbs it goes on with the coefficient as it is. `place` says where
a value belongs, and `cmp` agrees with it as long as the alignment fits.
Equality and hash do not align at all: they are those of scale and coefficient.
-/

namespace AionDb.Numeric.NumericValue

variable {a b : NumericValue}

/-! ## The order -/

theorem compare_toRat {s : Nat} {x y : Int} (ha : a.toRat = x / 10 ^ s) (hb : b.toRat = y / 10 ^ s) :
    compare x y = compare a.toRat b.toRat := by
  have hpos : (0 : ℚ) < 10 ^ s := by positivity
  rw [ha, hb]
  rcases lt_trichotomy x y with h | h | h
  · rw [compare_lt_iff_lt.mpr h, compare_lt_iff_lt.mpr (by gcongr)]
  · rw [h, compare_eq_iff_eq.mpr rfl, compare_eq_iff_eq.mpr rfl]
  · rw [compare_gt_iff_gt.mpr h, compare_gt_iff_gt.mpr (by gcongr)]

theorem compareAligned_eq (hfit : AlignFits a b) : compareAligned a b = compare a.toRat b.toRat := by
  have ha := toRat_eq (Nat.le_max_left a.scale b.scale)
  have hb := toRat_eq (Nat.le_max_right a.scale b.scale)
  unfold compareAligned
  dsimp only
  split
  · rename_i c hc
    split at hc
    · rename_i hsmall
      obtain ⟨ha', hb'⟩ := Bool.and_eq_true_iff.mp hsmall
      obtain ⟨h1, h2⟩ := alignSmall_eq ha' hb' hc
      rw [h1, h2, compare_toRat ha hb]
    · cases hc
  · obtain ⟨⟨x, hx⟩, y, hy⟩ := hfit.scaled
    rw [compareBig, hx, hy, Option.getD_some, Option.getD_some, BigCoefficient.cmpSigned_eq,
      (scaled_spec (Nat.le_max_left ..)).1 x hx, (scaled_spec (Nat.le_max_right ..)).1 y hy,
      compare_toRat ha hb]

def Plain (a : NumericValue) : Prop :=
  a.isSpecial = true → a.coefficient.1 = 0 ∨ a.coefficient.1 = 1 ∨ a.coefficient.1 = -1

/-- The place of a value: the finite ones between the infinities, NaN above all. -/
def place (a : NumericValue) : ℤ ×ₗ ℚ :=
  toLex (if a.isNan then (3, 0) else if a.isPosInfinity then (2, 0) else if a.isNegInfinity then (-2, 0)
    else (0, a.toRat))

theorem place_cases (h : Plain a) :
    a.isNan = true ∧ a.place = toLex (3, 0) ∨
    a.isNan = false ∧ a.isSpecial = true ∧ a.rank = 2 ∧ a.place = toLex (2, 0) ∨
    a.isNan = false ∧ a.isSpecial = true ∧ a.rank = -2 ∧ a.place = toLex (-2, 0) ∨
    a.isNan = false ∧ a.isSpecial = false ∧ -1 ≤ a.rank ∧ a.rank ≤ 1 ∧
      a.place = toLex (0, a.toRat) := by
  cases hs : a.isSpecial with
  | true => rcases h hs with h | h | h <;>
      simp [isNan, place, isPosInfinity, isNegInfinity, rank, hs, h]
  | false =>
    simp only [isNan, place, isPosInfinity, isNegInfinity, rank, hs, Bool.false_and,
      Bool.false_eq_true, reduceIte, false_and, true_and, and_true, false_or]
    split_ifs <;> simp

theorem cmp_eq_place (ha : Plain a) (hb : Plain b)
    (hfit : a.isSpecial = false → b.isSpecial = false → AlignFits a b) :
    cmp a b = compare a.place b.place := by
  have halign := fun h h' => compareAligned_eq (hfit h h')
  rcases place_cases ha with ⟨ha, hpa⟩ | ⟨ha, hsa, hra, hpa⟩ | ⟨ha, hsa, hra, hpa⟩ |
      ⟨ha, hsa, hla, hra, hpa⟩ <;>
    rcases place_cases hb with ⟨hb, hpb⟩ | ⟨hb, hsb, hrb, hpb⟩ | ⟨hb, hsb, hrb, hpb⟩ |
      ⟨hb, hsb, hlb, hrb, hpb⟩ <;>
    simp only [cmp, Prod.Lex.compare_def, compareLex, compareOn, ofLex_toLex, *,
      Int.compare_eq_ite_lt, Bool.and_true, Bool.and_false, Bool.and_self, Bool.or_true,
      Bool.true_or, Bool.or_self, Bool.false_eq_true, reduceIte] <;>
    split_ifs <;> first | rfl | omega

theorem rank_bounds : -2 ≤ a.rank ∧ a.rank ≤ 2 := by
  unfold rank
  split_ifs <;> decide

theorem scaled_eq_none {s : Nat} (hlt : a.scale < s) (h : ¬Fits (a.num * 10 ^ (s - a.scale))) :
    a.scaled s = none := by
  rw [Option.eq_none_iff_forall_ne_some, scaled, if_pos hlt]
  intro r hr
  obtain ⟨hv, hfit⟩ := BigCoefficient.mulPow10_spec.1 r hr
  exact h (hv ▸ hfit (by omega))

theorem eq_iff : a.eq b = true ↔ a.scale = b.scale ∧ a.num = b.num := by
  unfold eq
  split
  · rename_i hsmall
    obtain ⟨ha, hb⟩ := Bool.and_eq_true_iff.mp hsmall
    rw [num_of_small ha, num_of_small hb, Bool.and_eq_true_iff, beq_iff_eq, beq_iff_eq, Subtype.ext_iff,
      and_comm]
  · split
    · rename_i hne
      simp [hne]
    · rename_i heq
      rw [BigCoefficient.cmpSigned_eq, beq_iff_eq, compare_eq_iff_eq]
      exact ⟨fun h => ⟨not_not.mp heq, h⟩, fun h => h.2⟩

theorem hash_eq (hs : a.scale = b.scale) (hn : a.num = b.num) (hbig : a.big.isSome = b.big.isSome) :
    a.hash = b.hash := by
  unfold hash
  cases ha : a.big with
  | none =>
    have hb : b.big = none := by simpa [ha] using hbig
    rw [num_of_small (by simp [ha]), num_of_small (by simp [hb])] at hn
    rw [hb, hs, Subtype.ext hn]
  | some x =>
    obtain ⟨y, hb⟩ := Option.isSome_iff_exists.mp (by simpa [ha] using hbig.symm)
    obtain rfl : x = y := BigCoefficient.value_inj (by simpa [num, toBigCoefficient, ha, hb] using hn)
    rw [hb, hs]

/-- The key that `build_hash_key` makes of a NUMERIC: the value, with its equality and hash. -/
def buildHashKey (a : NumericValue) : NumericValue := a

/-- A hash table takes two keys for one if they are equal and are hashed alike. -/
def SameGroup (a b : NumericValue) : Prop :=
  (buildHashKey a).eq (buildHashKey b) = true ∧ (buildHashKey a).hash = (buildHashKey b).hash

section

variable (ha : Plain a) (hb : Plain b)
  (hscale : a.isSpecial = false → b.isSpecial = false → a.toRat = b.toRat → a.scale = b.scale)
  (hrep : a.scale = b.scale → a.num = b.num → a.big.isSome = b.big.isSome)
include hrep

theorem isSpecial_eq (hs : a.scale = b.scale) (hn : a.num = b.num) : a.isSpecial = b.isSpecial := by
  have h := hrep hs hn
  rw [isSpecial, isSpecial, hs]
  cases ha : a.big <;> cases hb : b.big <;> simp_all

include ha hb hscale

theorem place_eq_iff : a.place = b.place ↔ a.scale = b.scale ∧ a.num = b.num := by
  by_cases hs : a.isSpecial = b.isSpecial
  · cases hsb : b.isSpecial with
    | true =>
      have hsa := hs.trans hsb
      obtain ⟨ha1, ha2⟩ := Bool.and_eq_true_iff.mp hsa
      obtain ⟨hb1, hb2⟩ := Bool.and_eq_true_iff.mp hsb
      rw [num_of_small ha2, num_of_small hb2, beq_iff_eq.mp ha1, beq_iff_eq.mp hb1]
      rcases ha hsa with h | h | h <;> rcases hb hsb with h' | h' | h' <;>
        simp [place, isNan, isPosInfinity, isNegInfinity, hsa, hsb, h, h']
    | false =>
      have hsa := hs.trans hsb
      have hplace : a.place = b.place ↔ a.toRat = b.toRat := by
        simp [place, isNan, isPosInfinity, isNegInfinity, hsa, hsb]
      rw [hplace]
      constructor
      · intro hq
        have hs := hscale hsa hsb hq
        rw [toRat, toRat, hs, div_left_inj' (by positivity)] at hq
        exact ⟨hs, by exact_mod_cast hq⟩
      · rintro ⟨hs, hn⟩
        rw [toRat, toRat, hs, hn]
  · refine iff_of_false (fun h => ?_) fun h => hs (isSpecial_eq hrep h.1 h.2)
    -- NaN and the infinities have places of their own
    rcases place_cases ha with ⟨h1, ha'⟩ | ⟨-, h1, -, ha'⟩ | ⟨-, h1, -, ha'⟩ | ⟨h0, h1, -, -, ha'⟩ <;>
      rcases place_cases hb with ⟨h2, hb'⟩ | ⟨-, h2, -, hb'⟩ | ⟨-, h2, -, hb'⟩ | ⟨h3, h2, -, -, hb'⟩ <;>
      simp_all [isNan]

end

end AionDb.Numeric.NumericValue
