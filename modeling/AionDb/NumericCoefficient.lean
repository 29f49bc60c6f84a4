import AionDb.LibLimbs

/-!
# The coefficients of NUMERIC

A coefficient is an `i128`, or a sign and limbs in base 10^9. A
`BigCoefficient` carries what `normalize` brings about: its limbs are the digits
of its magnitude, with no zero at the top, and zero is not negative. So it is
determined by the integer it stands for, and every operation is described by
that integer.
-/

namespace AionDb.Numeric

open Nat (ofDigits digits)

abbrev limbBase : Nat := 1000000000

def maxBigLimbs : Nat := 320

def maxBigDecimalDigits : Nat := maxBigLimbs * 9

abbrev I128 := { n : Int // -2 ^ 127 ≤ n ∧ n < 2 ^ 127 }

def checked (n : Int) : Option I128 :=
  if h : -2 ^ 127 ≤ n ∧ n < 2 ^ 127 then some ⟨n, h⟩ else none

theorem checked_eq_some {n : Int} {c : I128} : checked n = some c ↔ c.1 = n := by
  unfold checked
  split
  · exact ⟨fun h => by cases h; rfl, fun h => congrArg some (Subtype.ext h.symm)⟩
  · rename_i hn
    exact ⟨nofun, fun h => absurd (h ▸ c.2) hn⟩

def Fits (n : Int) : Prop := n.natAbs < 10 ^ maxBigDecimalDigits
deriving Decidable

theorem fits_iff {n : Int} : Fits n ↔ n.natAbs < limbBase ^ maxBigLimbs := by
  rw [Fits, maxBigDecimalDigits, show limbBase = 10 ^ 9 from rfl, ← Nat.pow_mul, Nat.mul_comm]

structure BigCoefficient where
  limbs : List Nat
  negative : Bool
  digits_eq : digits limbBase (ofDigits limbBase limbs) = limbs
  sign : limbs = [] → negative = false

def signed (negative : Bool) (n : Nat) : Int := if negative then -n else n

namespace BigCoefficient

variable (a b : BigCoefficient)

def magnitude : Nat := ofDigits limbBase a.limbs

def value : Int := signed a.negative a.magnitude

/-! ## The operations -/

def zero : BigCoefficient := ⟨[], false, rfl, fun _ => rfl⟩

def isZero : Bool := a.limbs.isEmpty

def fromI128 (v : I128) : BigCoefficient where
  limbs := digits limbBase v.1.natAbs
  negative := decide (v.1 < 0)
  digits_eq := by rw [Nat.ofDigits_digits]
  sign h := by
    rw [Nat.digits_eq_nil_iff_eq_zero, Int.natAbs_eq_zero] at h
    simp [h]

def normalize (negative : Bool) (limbs : List Nat) (h : ∀ x ∈ limbs, x < limbBase) :
    BigCoefficient where
  limbs := Limbs.trim limbs
  negative := negative && !(Limbs.trim limbs).isEmpty
  digits_eq := by rw [Limbs.trim_eq_digits (by decide) h, Nat.ofDigits_digits]
  sign h := by simp [h]

def cmpMagnitudes : Ordering :=
  if a.limbs.length ≠ b.limbs.length then compare a.limbs.length b.limbs.length
  else Limbs.compareTop a.limbs b.limbs

def mulU64 (factor : Nat) : Option BigCoefficient :=
  if factor = 0 ∨ a.isZero then some zero
  else if factor = 1 then some a
  else
    let result := normalize a.negative (Limbs.mulDigit limbBase factor a.limbs 0)
      (Limbs.mulDigit_lt (by decide))
    if maxBigLimbs < result.limbs.length then none else some result

def mulPow10Loop (result : BigCoefficient) (remaining : Nat) : Option BigCoefficient :=
  if remaining = 0 then some result
  else do
    let chunk := min remaining 18
    let result ← result.mulU64 (10 ^ chunk)
    mulPow10Loop result (remaining - chunk)
termination_by remaining
decreasing_by omega

def mulPow10 (n : Nat) : Option BigCoefficient :=
  if a.isZero ∨ n = 0 then some a else mulPow10Loop a n

def cmpSigned : Ordering :=
  if a.isZero && b.isZero then .eq
  else if a.isZero then if b.negative then .gt else .lt
  else if b.isZero then if a.negative then .lt else .gt
  else if a.negative && !b.negative then .lt
  else if !a.negative && b.negative then .gt
  else if a.negative then (cmpMagnitudes a b).swap
  else cmpMagnitudes a b

/-! ## What they stand for -/

variable {a b}

theorem limbs_eq : a.limbs = digits limbBase a.magnitude := a.digits_eq.symm

theorem isZero_iff : a.isZero = true ↔ a.magnitude = 0 := by
  rw [isZero, List.isEmpty_iff, limbs_eq, Nat.digits_eq_nil_iff_eq_zero]

theorem natAbs_value : a.value.natAbs = a.magnitude := by
  unfold value signed
  split <;> omega

theorem value_of_isZero (h : a.isZero = true) : a.value = 0 := by
  rw [← Int.natAbs_eq_zero, natAbs_value, isZero_iff.mp h]

@[simp] theorem value_fromI128 (v : I128) : (fromI128 v).value = v.1 := by
  simp only [value, signed, magnitude, fromI128, Nat.ofDigits_digits, decide_eq_true_eq]
  split <;> omega

theorem value_normalize {negative : Bool} {limbs : List Nat} {h : ∀ x ∈ limbs, x < limbBase} :
    (normalize negative limbs h).value = signed negative (ofDigits limbBase limbs) := by
  simp only [value, signed, magnitude, normalize, Limbs.trim_eq_digits (by decide) h,
    Nat.ofDigits_digits]
  by_cases h0 : ofDigits limbBase limbs = 0
  · simp [h0]
  · simp [h0, Nat.digits_eq_nil_iff_eq_zero]

theorem length_le_iff : a.limbs.length ≤ maxBigLimbs ↔ Fits a.value := by
  rw [limbs_eq, Nat.digits_length_le_iff (by decide), fits_iff, natAbs_value]

theorem cmpMagnitudes_eq : cmpMagnitudes a b = compare a.magnitude b.magnitude := by
  rw [cmpMagnitudes, limbs_eq (a := a), limbs_eq (a := b)]
  exact Limbs.compare_digits (by decide) _ _

theorem capped_spec {n : Int} (hv : a.value = n) :
    (∀ r, (if maxBigLimbs < a.limbs.length then none else some a) = some r →
      r.value = n ∧ Fits r.value) ∧
    (Fits n → ∃ r, (if maxBigLimbs < a.limbs.length then none else some a) = some r) := by
  rw [← hv, ← length_le_iff]
  split
  · exact ⟨nofun, fun hfit => absurd hfit (by omega)⟩
  · rename_i hshort
    refine ⟨fun r hr => ?_, fun _ => ⟨_, rfl⟩⟩
    cases hr
    exact ⟨rfl, length_le_iff.mp (Nat.le_of_not_lt hshort)⟩

theorem mulU64_spec {factor : Nat} (hf : 1 < factor) :
    (∀ r, a.mulU64 factor = some r → r.value = a.value * factor ∧ Fits r.value) ∧
      (Fits (a.value * factor) → ∃ r, a.mulU64 factor = some r) := by
  unfold mulU64
  by_cases hz : a.isZero = true
  · rw [if_pos (Or.inr hz), value_of_isZero hz, Int.zero_mul]
    refine ⟨fun r hr => ?_, fun _ => ⟨_, rfl⟩⟩
    cases hr
    exact ⟨rfl, Nat.pow_pos (by decide)⟩
  · rw [if_neg (not_or.mpr ⟨by omega, hz⟩), if_neg (by omega)]
    refine capped_spec ?_
    rw [value_normalize, Limbs.ofDigits_mulDigit, value]
    by_cases ha : a.negative = true <;> simp [signed, ha, magnitude]

theorem mulPow10Loop_spec {n : Nat} :
    (∀ r, mulPow10Loop a n = some r → r.value = a.value * 10 ^ n ∧ (n ≠ 0 → Fits r.value)) ∧
      (Fits (a.value * 10 ^ n) → ∃ r, mulPow10Loop a n = some r) := by
  fun_induction mulPow10Loop a n with
  | case1 a => exact ⟨fun r hr => by cases hr; simp, fun _ => ⟨_, rfl⟩⟩
  | case2 a n hn chunk ih =>
    have hchunk : chunk ≠ 0 ∧ chunk ≤ n := by omega
    have hpow : (10 : Int) ^ n = ((10 ^ chunk : Nat) : Int) * 10 ^ (n - chunk) := by
      rw [Nat.cast_pow, Nat.cast_ofNat, ← pow_add, Nat.add_sub_cancel' hchunk.2]
    obtain ⟨hsome, hfits⟩ := mulU64_spec (a := a) (Nat.one_lt_pow hchunk.1 (by decide : 1 < 10))
    rw [hpow, ← Int.mul_assoc]
    constructor
    · intro r hr
      obtain ⟨m, hm, hr⟩ := Option.bind_eq_some_iff.mp hr
      obtain ⟨hv, hf⟩ := hsome m hm
      obtain ⟨hv', hf'⟩ := (ih m).1 r hr
      refine ⟨by rw [hv', hv], fun _ => ?_⟩
      by_cases hrest : n - chunk = 0
      · rw [hv', hrest, pow_zero, Int.mul_one]
        exact hf
      · exact hf' hrest
    · intro hfit
      have hfit' : Fits (a.value * (10 ^ chunk : Nat)) := by
        have hten : 0 < ((10 : Int) ^ (n - chunk)).natAbs := Int.natAbs_pos.mpr (by positivity)
        rw [Fits, Int.natAbs_mul] at hfit
        exact Nat.lt_of_le_of_lt (Nat.le_mul_of_pos_right _ hten) hfit
      obtain ⟨m, hm⟩ := hfits hfit'
      rw [hm]
      exact (ih m).2 (by rwa [(hsome m hm).1])

theorem mulPow10_spec {n : Nat} :
    (∀ r, a.mulPow10 n = some r → r.value = a.value * 10 ^ n ∧ (n ≠ 0 → Fits r.value)) ∧
      (Fits (a.value * 10 ^ n) → ∃ r, a.mulPow10 n = some r) := by
  unfold mulPow10
  split
  · rename_i h
    refine ⟨fun r hr => ?_, fun _ => ⟨_, rfl⟩⟩
    cases hr
    rcases h with h | rfl
    · rw [value_of_isZero h, Int.zero_mul]
      exact ⟨rfl, fun _ => Nat.pow_pos (by decide)⟩
    · exact ⟨by rw [pow_zero, Int.mul_one], fun h => absurd rfl h⟩
  · exact mulPow10Loop_spec

theorem cmpSigned_eq : a.cmpSigned b = compare a.value b.value := by
  rw [cmpSigned, cmpMagnitudes_eq, Nat.compare_swap, value, value]
  simp only [signed, Bool.and_eq_true, isZero_iff, Nat.compare_eq_ite_lt, Int.compare_eq_ite_lt]
  rcases Bool.eq_false_or_eq_true a.negative with ha | ha <;>
    rcases Bool.eq_false_or_eq_true b.negative with hb | hb <;>
    simp only [ha, hb, Bool.not_true, Bool.not_false, Bool.false_eq_true, and_true, and_false,
      reduceIte] <;>
    split_ifs <;> first | rfl | omega

theorem value_inj (h : a.value = b.value) : a = b := by
  have hm : a.magnitude = b.magnitude := by rw [← natAbs_value, h, natAbs_value]
  have hl : a.limbs = b.limbs := by rw [limbs_eq, hm, limbs_eq]
  have hn : a.negative = b.negative := by
    by_cases hz : a.limbs = []
    · rw [a.sign hz, b.sign (hl ▸ hz)]
    · have hpos : a.magnitude ≠ 0 := fun h0 => hz (by rw [limbs_eq, h0, Nat.digits_zero])
      unfold value signed at h
      rcases Bool.eq_false_or_eq_true a.negative with ha | ha <;>
        rcases Bool.eq_false_or_eq_true b.negative with hb | hb <;>
        simp only [ha, hb, Bool.false_eq_true, reduceIte] at h ⊢ <;> omega
  cases a
  cases b
  cases hl
  cases hn
  rfl

end BigCoefficient

end AionDb.Numeric
