import AionDb.LibRound
import AionDb.StoreIndex
import Mathlib.Tactic.FieldSimp

/-!
# The order of numbers in index keys

`compare_values_total` on the numbers: two NUMERICs, or a NUMERIC and another
number, are compared as decimals; any other two numbers are compared as `f64`,
by an arm that stands before the exact arms for integers. Only the `f64`s of
integers occur here, and those are integers. Real numbers are left out.
-/

namespace AionDb

inductive NumericValue where
  | nan
  | infinity
  | negInfinity
  | finite (coefficient : Int) (scale : Nat)

inductive IndexNumber where
  | int (v : Int32)
  | bigInt (v : Int64)
  | money (v : Int64)
  | boolean (v : Bool)
  | numeric (v : NumericValue)

/-! ## Conversion to `f64` -/

/-- The halves and the product are exact, the sum is rounded. -/
def u64ToF64 (value : Nat) : Nat :=
  let upper := value / 2 ^ 32
  let lower := value % 2 ^ 32
  Rounding.roundEven 53 (upper * 4294967296 + lower)

def i64ToF64 (value : Int) : Int :=
  if value < 0 then -(u64ToF64 value.natAbs) else u64ToF64 value.natAbs

def numericToF64WithoutNumeric : IndexNumber → Option Int
  | .int v => some v.toInt
  | .bigInt v | .money v => some (i64ToF64 v.toInt)
  | .boolean v => some (if v then 1 else 0)
  | .numeric _ => none

/-! ## Decimals -/

namespace NumericValue

def fitsI128 (c : Int) : Bool := -2 ^ 127 ≤ c ∧ c < 2 ^ 127

/-- `checked_mul(checked_ten_pow(n)?)`; the table of powers ends at 38. -/
def checkedScale (c : Int) (n : Nat) : Option Int :=
  if n ≤ 38 ∧ fitsI128 (c * 10 ^ n) then some (c * 10 ^ n) else none

/-- `mul_pow10`: 320 limbs of nine digits are the limit of every product. -/
def mulPow10 (c : Int) (n : Nat) : Option Int :=
  if c = 0 ∨ n = 0 ∨ c.natAbs * 10 ^ n < 10 ^ 2880 then some (c * 10 ^ n) else none

/-- A coefficient that cannot be scaled is compared as it is. -/
def compareBig (c : Int) (s : Nat) (d : Int) (t : Nat) : Ordering :=
  compare ((mulPow10 c (max s t - s)).getD c) ((mulPow10 d (max s t - t)).getD d)

def compareAligned (c : Int) (s : Nat) (d : Int) (t : Nat) : Ordering :=
  if fitsI128 c && fitsI128 d then
    match checkedScale c (max s t - s), checkedScale d (max s t - t) with
    | some a, some b => compare a b
    | _, _ => compareBig c s d t
  else compareBig c s d t

def specialRank : NumericValue → Int
  | infinity => 2
  | negInfinity => -2
  | nan => 0
  | finite c _ => c.sign

def cmp : NumericValue → NumericValue → Ordering
  | nan, nan => .eq
  | nan, _ => .gt
  | _, nan => .lt
  | finite c s, finite d t => compareAligned c s d t
  | a, b => compare a.specialRank b.specialRank

end NumericValue

def IndexNumber.toNumeric : IndexNumber → NumericValue
  | .numeric v => v
  | .int v => .finite v.toInt 0
  | .bigInt v | .money v => .finite v.toInt 0
  | .boolean v => .finite (if v then 1 else 0) 0

/-- The arms for two numbers, in the order of the source; the exact arms for integers that
follow are never reached. -/
def IndexNumber.cmp (a b : IndexNumber) : Ordering :=
  match numericToF64WithoutNumeric a, numericToF64WithoutNumeric b with
  | some x, some y => compare x y
  | _, _ => a.toNumeric.cmp b.toNumeric

instance : Ord IndexNumber := ⟨IndexNumber.cmp⟩

/-! ## The numbers meant -/

abbrev Number := WithTop (WithTop (WithBot ℚ))

def NumericValue.number : NumericValue → Number
  | nan => ⊤
  | infinity => ((⊤ : WithTop (WithBot ℚ)) : Number)
  | negInfinity => (((⊥ : WithBot ℚ) : WithTop (WithBot ℚ)) : Number)
  | finite c s => (((c / 10 ^ s : ℚ) : WithBot ℚ) : WithTop (WithBot ℚ))

def IndexNumber.number (a : IndexNumber) : Number := a.toNumeric.number

/-- A decimal keeps its value when it is brought to the scale of the other one. -/
def NumericValue.Alignable : NumericValue → NumericValue → Prop
  | finite c s, finite _ t => c = 0 ∨ t ≤ s ∨ c.natAbs * 10 ^ (t - s) < 10 ^ 2880
  | _, _ => True

/-- Neither comparison of the two numbers loses digits that tell them apart. -/
def IndexNumber.Exact (a b : IndexNumber) : Prop :=
  match numericToF64WithoutNumeric a, numericToF64WithoutNumeric b with
  | some x, some y => x = y → a.number = b.number
  | _, _ => a.toNumeric.Alignable b.toNumeric ∧ b.toNumeric.Alignable a.toNumeric

def IndexNumber.integer : IndexNumber → Option Int
  | .int v => some v.toInt
  | .bigInt v | .money v => some v.toInt
  | .boolean v => some (if v then 1 else 0)
  | .numeric _ => none

theorem eq_compare {α : Type} [LinearOrder α] {o : Ordering} {a b : α} (hlt : o = .lt → a < b)
    (heq : o = .eq → a = b) (hgt : o = .gt → b < a) : o = compare a b := by
  cases o with
  | lt => exact (compare_lt_iff_lt.mpr (hlt rfl)).symm
  | eq => exact (compare_eq_iff_eq.mpr (heq rfl)).symm
  | gt => exact (compare_gt_iff_gt.mpr (hgt rfl)).symm

/-! ## Integers as `f64` -/

theorem i64ToF64_mono {m n : Int} (h : m ≤ n) : i64ToF64 m ≤ i64ToF64 n := by
  have hmono : ∀ {k l : Nat}, k ≤ l → u64ToF64 k ≤ u64ToF64 l := by
    intro k l hkl
    refine Rounding.roundEven_mono (by decide) ?_
    omega
  unfold i64ToF64
  split <;> split
  · have := hmono (show n.natAbs ≤ m.natAbs by omega)
    omega
  · omega
  · omega
  · exact_mod_cast hmono (show m.natAbs ≤ n.natAbs by omega)

theorem i64ToF64_of_lt {m : Int} (h : m.natAbs < 2 ^ 53) : i64ToF64 m = m := by
  have hsmall : u64ToF64 m.natAbs = m.natAbs := by
    have hsplit : m.natAbs / 2 ^ 32 * 4294967296 + m.natAbs % 2 ^ 32 = m.natAbs := by omega
    unfold u64ToF64
    dsimp only
    rw [hsplit]
    exact Rounding.roundEven_of_lt h
  unfold i64ToF64
  rw [hsmall]
  split <;> omega

theorem numericToF64WithoutNumeric_eq (a : IndexNumber) :
    numericToF64WithoutNumeric a = a.integer.map i64ToF64 := by
  cases a with
  | int v =>
    have hle := v.le_toInt
    have hlt := v.toInt_lt
    simp only [numericToF64WithoutNumeric, IndexNumber.integer, Option.map_some]
    rw [i64ToF64_of_lt (by omega)]
  | bigInt v => rfl
  | money v => rfl
  | boolean v => cases v <;> rfl
  | numeric v => rfl

theorem number_of_integer {a : IndexNumber} {p : Int} (h : a.integer = some p) :
    a.number = (((p : ℚ) : WithBot ℚ) : WithTop (WithBot ℚ)) := by
  cases a <;> cases h <;> simp [IndexNumber.number, IndexNumber.toNumeric, NumericValue.number]

/-! ## Decimals by their numbers -/

namespace NumericValue

theorem compareBig_eq {c d : Int} {s t : Nat} (hc : (finite c s).Alignable (finite d t))
    (hd : (finite d t).Alignable (finite c s)) :
    compareBig c s d t = compare (c * 10 ^ (max s t - s)) (d * 10 ^ (max s t - t)) := by
  have hscale : ∀ {c : Int} {s t : Nat}, c = 0 ∨ t ≤ s ∨ c.natAbs * 10 ^ (t - s) < 10 ^ 2880 →
      mulPow10 c (max s t - s) = some (c * 10 ^ (max s t - s)) := by
    intro c s t h
    refine if_pos (h.imp id (Or.imp (fun hle => ?_) fun hlt => ?_))
    · omega
    · rwa [show max s t - s = t - s by omega]
  unfold compareBig
  rw [hscale hc, max_comm s t, hscale hd]
  rfl

theorem compareAligned_eq {c d : Int} {s t : Nat} (hc : (finite c s).Alignable (finite d t))
    (hd : (finite d t).Alignable (finite c s)) :
    compareAligned c s d t = compare (c * 10 ^ (max s t - s)) (d * 10 ^ (max s t - t)) := by
  have hscale : ∀ {c e : Int} {n : Nat}, checkedScale c n = some e → e = c * 10 ^ n := by
    intro c e n h
    unfold checkedScale at h
    split at h
    · exact (Option.some.inj h).symm
    · cases h
  unfold compareAligned
  split
  · split
    · next hx hy => rw [hscale hx, hscale hy]
    · exact compareBig_eq hc hd
  · exact compareBig_eq hc hd

theorem compare_aligned_number (c d : Int) (s t : Nat) :
    compare (c * 10 ^ (max s t - s)) (d * 10 ^ (max s t - t)) =
      compare (finite c s).number (finite d t).number := by
  have hscaled : ∀ (c : Int) (s n : Nat), s ≤ n →
      (c / 10 ^ s : ℚ) = ((c * 10 ^ (n - s) : Int) : ℚ) / 10 ^ n := by
    intro c s n h
    obtain ⟨k, rfl⟩ := Nat.exists_eq_add_of_le h
    rw [Nat.add_sub_cancel_left, pow_add]
    push_cast
    field_simp
  have hpos : (0 : ℚ) < 10 ^ max s t := by positivity
  have hlt : ∀ {x y : Int}, x < y → ((x : ℚ) / 10 ^ max s t) < (y : ℚ) / 10 ^ max s t := by
    intro x y h
    exact (div_lt_div_iff_of_pos_right hpos).mpr (by exact_mod_cast h)
  simp only [number]
  rw [hscaled c s _ (le_max_left s t), hscaled d t _ (le_max_right s t)]
  refine eq_compare (fun h => ?_) (fun h => ?_) fun h => ?_
  · exact_mod_cast hlt (compare_lt_iff_lt.mp h)
  · rw [compare_eq_iff_eq.mp h]
  · exact_mod_cast hlt (compare_gt_iff_gt.mp h)

theorem cmp_eq {x y : NumericValue} (hx : x.Alignable y) (hy : y.Alignable x) :
    x.cmp y = compare x.number y.number := by
  have hsign : ∀ c : Int, -2 < c.sign ∧ c.sign < 2 := by
    intro c
    rcases Int.sign_trichotomy c with h | h | h <;> rw [h] <;> decide
  have hlt {a b : Number} (h : a < b) : .lt = compare a b := (compare_lt_iff_lt.mpr h).symm
  have hgt {a b : Number} (h : b < a) : .gt = compare a b := (compare_gt_iff_gt.mpr h).symm
  cases x with
  | finite c s =>
    cases y with
    | finite d t => exact (compareAligned_eq hx hy).trans (compare_aligned_number c d s t)
    | nan => exact hlt (WithTop.coe_lt_top _)
    | infinity =>
      refine (compare_lt_iff_lt.mpr (hsign c).2).trans (hlt ?_)
      exact WithTop.coe_lt_coe.mpr (WithTop.coe_lt_top _)
    | negInfinity =>
      refine (compare_gt_iff_gt.mpr (hsign c).1).trans (hgt ?_)
      exact WithTop.coe_lt_coe.mpr (WithTop.coe_lt_coe.mpr (WithBot.bot_lt_coe _))
  | nan =>
    cases y with
    | nan => exact (compare_eq_iff_eq.mpr rfl).symm
    | finite _ _ | infinity | negInfinity => exact hgt (WithTop.coe_lt_top _)
  | infinity =>
    cases y with
    | nan => exact hlt (WithTop.coe_lt_top _)
    | finite d t =>
      refine (compare_gt_iff_gt.mpr (hsign d).2).trans (hgt ?_)
      exact WithTop.coe_lt_coe.mpr (WithTop.coe_lt_top _)
    | infinity => exact (compare_eq_iff_eq.mpr rfl).symm
    | negInfinity => exact hgt (WithTop.coe_lt_coe.mpr (WithTop.coe_lt_top _))
  | negInfinity =>
    cases y with
    | nan => exact hlt (WithTop.coe_lt_top _)
    | finite d t =>
      refine (compare_lt_iff_lt.mpr (hsign d).1).trans (hlt ?_)
      exact WithTop.coe_lt_coe.mpr (WithTop.coe_lt_coe.mpr (WithBot.bot_lt_coe _))
    | infinity => exact hlt (WithTop.coe_lt_coe.mpr (WithTop.coe_lt_top _))
    | negInfinity => exact (compare_eq_iff_eq.mpr rfl).symm

end NumericValue

/-! ## The order of index keys -/

theorem compare_integers {p q : Int} (h : i64ToF64 p = i64ToF64 q → p = q) :
    compare (i64ToF64 p) (i64ToF64 q) = compare p q := by
  refine eq_compare (fun hlt => ?_) (fun heq => h (compare_eq_iff_eq.mp heq)) fun hgt => ?_
  · exact lt_of_not_ge fun hle => absurd (compare_lt_iff_lt.mp hlt) (not_lt.mpr (i64ToF64_mono hle))
  · exact lt_of_not_ge fun hle => absurd (compare_gt_iff_gt.mp hgt) (not_lt.mpr (i64ToF64_mono hle))

theorem cmp_eq_compare_number {a b : IndexNumber} (h : a.Exact b) :
    a.cmp b = compare a.number b.number := by
  unfold IndexNumber.Exact at h
  unfold IndexNumber.cmp
  simp only [numericToF64WithoutNumeric_eq] at h ⊢
  cases ha : a.integer with
  | none =>
    simp only [ha, Option.map_none] at h ⊢
    exact NumericValue.cmp_eq h.1 h.2
  | some p =>
    cases hb : b.integer with
    | none =>
      simp only [ha, hb, Option.map_none, Option.map_some] at h ⊢
      exact NumericValue.cmp_eq h.1 h.2
    | some q =>
      simp only [ha, hb, Option.map_some, number_of_integer ha, number_of_integer hb] at h ⊢
      rw [compare_integers fun heq => by exact_mod_cast h heq]
      refine eq_compare (fun h => ?_) (fun h => ?_) fun h => ?_
      · exact_mod_cast compare_lt_iff_lt.mp h
      · exact_mod_cast compare_eq_iff_eq.mp h
      · exact_mod_cast compare_gt_iff_gt.mp h

end AionDb
