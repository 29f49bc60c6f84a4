import AionDb.NumericCoefficient

/-!
# NUMERIC values

A value is a coefficient and a scale; the largest scale with a small coefficient
stands for NaN and the infinities. Every operation has a path on `i128`, taken
as long as the aligned coefficients fit, and one on limbs.

The two agree with the rationals except at the edges: a scale that reaches the
special one, and coefficients whose alignment has more digits than the limb
path gives, where a comparison goes on with a coefficient that is not aligned.
-/

namespace AionDb.Numeric

def specialScale : Nat := 4294967295

structure NumericValue where
  coefficient : I128
  scale : Nat
  big : Option BigCoefficient

/-- `checked_ten_pow`; its table ends with the last power that an `i128` can hold. -/
def checkedTenPow (n : Nat) : Option I128 := if n ≤ 38 then checked (10 ^ n) else none

namespace NumericValue

variable (a b : NumericValue)

def new (coefficient : I128) (scale : Nat) : NumericValue := ⟨coefficient, scale, none⟩

def toBigCoefficient : BigCoefficient := a.big.getD (.fromI128 a.coefficient)

def nan : NumericValue := new ⟨0, by decide⟩ specialScale

def isSpecial : Bool := a.scale == specialScale && a.big.isNone

def isNan : Bool := a.isSpecial && a.coefficient.1 == 0

def isPosInfinity : Bool := a.isSpecial && a.coefficient.1 == 1

def isNegInfinity : Bool := a.isSpecial && a.coefficient.1 == -1

def isNegative : Bool := a.big.elim (decide (a.coefficient.1 < 0)) (·.negative)

def isZero : Bool := !a.isSpecial && a.big.elim (a.coefficient.1 == 0) (·.isZero)

/-! ## Alignment -/

def alignSmall : Option (I128 × I128) := do
  let scale := max a.scale b.scale
  let ca ← checked (a.coefficient.1 * (← checkedTenPow (scale - a.scale)).1)
  let cb ← checked (b.coefficient.1 * (← checkedTenPow (scale - b.scale)).1)
  pure (ca, cb)

def scaled (scale : Nat) : Option BigCoefficient :=
  if a.scale < scale then a.toBigCoefficient.mulPow10 (scale - a.scale) else some a.toBigCoefficient

/-! ## Comparison, equality and hash -/

def compareBig : Ordering :=
  let scale := max a.scale b.scale
  ((a.scaled scale).getD a.toBigCoefficient).cmpSigned ((b.scaled scale).getD b.toBigCoefficient)

def compareAligned : Ordering :=
  let fast := if a.big.isNone && b.big.isNone then alignSmall a b else none
  match fast with
  | some c => compare c.1.1 c.2.1
  | none => compareBig a b

def rank : Int :=
  if a.isPosInfinity then 2 else if a.isNegInfinity then -2 else if a.isNegative then -1
  else if a.isZero then 0 else 1

def cmp : Ordering :=
  if a.isNan && b.isNan then .eq
  else if a.isNan then .gt
  else if b.isNan then .lt
  else if a.isSpecial || b.isSpecial then compare a.rank b.rank
  else compareAligned a b

def eq : Bool :=
  if a.big.isNone && b.big.isNone then a.coefficient == b.coefficient && a.scale == b.scale
  else if a.scale ≠ b.scale then false
  else a.toBigCoefficient.cmpSigned b.toBigCoefficient == .eq

/-- What is fed to the hasher: the tag, the coefficient or the sign and the limbs, and the scale. -/
def hash : Nat × (I128 ⊕ Bool × List Nat) × Nat :=
  match a.big with
  | some big => (1, .inr (big.negative, big.limbs), a.scale)
  | none => (0, .inl a.coefficient, a.scale)

/-! ## What values stand for -/

def num : Int := a.toBigCoefficient.value

def toRat : ℚ := a.num / 10 ^ a.scale

def AlignFits : Prop :=
  (a.scale < b.scale → Fits (a.num * 10 ^ (b.scale - a.scale))) ∧
    (b.scale < a.scale → Fits (b.num * 10 ^ (a.scale - b.scale)))
deriving Decidable

variable {a b}

@[simp] theorem num_new {c : I128} {s : Nat} : (new c s).num = c.1 := BigCoefficient.value_fromI128 c

theorem toRat_new {c : I128} {s : Nat} : (new c s).toRat = c.1 / 10 ^ s := by
  rw [toRat, num_new]
  rfl

theorem num_of_small (h : a.big.isNone = true) : a.num = a.coefficient.1 := by
  rw [num, toBigCoefficient, Option.isNone_iff_eq_none.mp h]
  exact BigCoefficient.value_fromI128 _

theorem isNan_of_finite (h : a.isSpecial = false) : a.isNan = false := by simp [isNan, h]

theorem toRat_eq {s : Nat} (h : a.scale ≤ s) : a.toRat = (a.num * 10 ^ (s - a.scale) : Int) / 10 ^ s := by
  obtain ⟨d, rfl⟩ := Nat.exists_eq_add_of_le h
  rw [toRat, Nat.add_sub_cancel_left, Int.cast_mul, Int.cast_pow, Int.cast_ofNat, pow_add,
    mul_div_mul_right _ _ (by positivity)]

theorem scaled_spec {s : Nat} (h : a.scale ≤ s) :
    (∀ r, a.scaled s = some r → r.value = a.num * 10 ^ (s - a.scale)) ∧
      ((a.scale < s → Fits (a.num * 10 ^ (s - a.scale))) → ∃ r, a.scaled s = some r) := by
  unfold scaled
  split
  · rename_i hlt
    exact ⟨fun r hr => (BigCoefficient.mulPow10_spec.1 r hr).1,
      fun hfit => BigCoefficient.mulPow10_spec.2 (hfit hlt)⟩
  · refine ⟨fun r hr => ?_, fun _ => ⟨_, rfl⟩⟩
    cases hr
    rw [show s - a.scale = 0 by omega, pow_zero, mul_one]
    rfl

theorem AlignFits.scaled (h : AlignFits a b) :
    (∃ x, a.scaled (max a.scale b.scale) = some x) ∧ ∃ y, b.scaled (max a.scale b.scale) = some y := by
  refine ⟨(scaled_spec (Nat.le_max_left ..)).2 fun hlt => ?_,
    (scaled_spec (Nat.le_max_right ..)).2 fun hlt => ?_⟩
  · rw [Nat.max_eq_right (by omega)]
    exact h.1 (by omega)
  · rw [Nat.max_eq_left (by omega)]
    exact h.2 (by omega)

theorem checkedTenPow_eq {n : Nat} {c : I128} (h : checkedTenPow n = some c) : c.1 = 10 ^ n := by
  unfold checkedTenPow at h
  split at h
  · exact checked_eq_some.mp h
  · cases h

theorem alignSmall_eq {c : I128 × I128} (ha : a.big.isNone = true) (hb : b.big.isNone = true)
    (h : alignSmall a b = some c) :
    c.1.1 = a.num * 10 ^ (max a.scale b.scale - a.scale) ∧
      c.2.1 = b.num * 10 ^ (max a.scale b.scale - b.scale) := by
  obtain ⟨pa, hpa, h⟩ := Option.bind_eq_some_iff.mp h
  obtain ⟨ca, hca, h⟩ := Option.bind_eq_some_iff.mp h
  obtain ⟨pb, hpb, h⟩ := Option.bind_eq_some_iff.mp h
  obtain ⟨cb, hcb, h⟩ := Option.bind_eq_some_iff.mp h
  cases h
  rw [num_of_small ha, num_of_small hb, ← checkedTenPow_eq hpa, ← checkedTenPow_eq hpb]
  exact ⟨checked_eq_some.mp hca, checked_eq_some.mp hcb⟩

end NumericValue

end AionDb.Numeric
