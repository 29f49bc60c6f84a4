import Mathlib.Data.Nat.Digits.Lemmas

/-!
# Arithmetic on lists of limbs

A number is kept as its digits in a large base, the lowest first; `Nat.ofDigits`
is what a list stands for. The operations are the loops of a schoolbook
implementation, with their carries.
-/

namespace Limbs

open Nat List

variable {base : Nat} {a b l : List Nat}

/-! ## Trimming and comparing -/

def trim : List Nat → List Nat
  | [] => []
  | x :: l => if x = 0 ∧ trim l = [] then [] else x :: trim l

theorem trim_eq_digits (hbase : 1 < base) (hl : ∀ x ∈ l, x < base) :
    trim l = base.digits (ofDigits base l) := by
  induction l with
  | nil => simp [trim]
  | cons x l ih =>
    have hnil := digits_eq_nil_iff_eq_zero (b := base) (n := ofDigits base l)
    rw [ofDigits_cons, trim, ih fun y hy => hl y (mem_cons_of_mem _ hy)]
    split
    · rename_i h
      simp [h.1, hnil.mp h.2]
    · rename_i h
      rw [hnil] at h
      exact (digits_add base hbase x _ (hl x mem_cons_self) (by omega)).symm

/-- The order of two lists of one length; the top limbs decide first. -/
def compareTop : List Nat → List Nat → Ordering
  | x :: a, y :: b => (compareTop a b).then (compare x y)
  | _, _ => .eq

theorem compareTop_eq (hlen : a.length = b.length) (ha : ∀ x ∈ a, x < base)
    (hb : ∀ x ∈ b, x < base) : compareTop a b = compare (ofDigits base a) (ofDigits base b) := by
  induction a generalizing b with
  | nil =>
    rw [length_nil] at hlen
    rw [length_eq_zero_iff.mp hlen.symm]
    simp [compareTop]
  | cons x a ih =>
    obtain ⟨y, b, rfl⟩ := exists_cons_of_length_pos (l := b) (by simp [← hlen])
    rw [compareTop, ih (by simpa using hlen) (fun z hz => ha z (mem_cons_of_mem _ hz))
      fun z hz => hb z (mem_cons_of_mem _ hz), ofDigits_cons, ofDigits_cons]
    have hx := ha x mem_cons_self
    have hy := hb y mem_cons_self
    rcases lt_trichotomy (ofDigits base a) (ofDigits base b) with hlt | heq | hgt
    · have hmul := Nat.mul_le_mul_left base hlt
      rw [Nat.mul_succ] at hmul
      have hlt' : x + base * ofDigits base a < y + base * ofDigits base b := by omega
      rw [compare_lt_iff_lt.mpr hlt, compare_lt_iff_lt.mpr hlt']
      rfl
    · rw [heq, compare_eq_iff_eq.mpr rfl, Ordering.then]
      simp only [Nat.compare_eq_ite_lt, Nat.add_lt_add_iff_right]
    · have hmul := Nat.mul_le_mul_left base hgt
      rw [Nat.mul_succ] at hmul
      have hgt' : x + base * ofDigits base a > y + base * ofDigits base b := by omega
      rw [compare_gt_iff_gt.mpr hgt, compare_gt_iff_gt.mpr hgt']
      rfl

theorem compare_digits (hbase : 1 < base) (m n : Nat) :
    (if (base.digits m).length ≠ (base.digits n).length then
      compare (base.digits m).length (base.digits n).length
    else compareTop (base.digits m) (base.digits n)) = compare m n := by
  have hlen : ∀ {m n}, (base.digits m).length < (base.digits n).length → m < n := fun h =>
    Nat.lt_of_not_le fun hle => Nat.not_le_of_lt h (le_length_digits_le base _ _ hle)
  split
  · rename_i hne
    rcases Nat.lt_or_gt_of_ne hne with h | h
    · rw [compare_lt_iff_lt.mpr h, compare_lt_iff_lt.mpr (hlen h)]
    · rw [compare_gt_iff_gt.mpr h, compare_gt_iff_gt.mpr (hlen h)]
  · rename_i heq
    rw [compareTop_eq (not_not.mp heq) (fun _ => digits_lt_base hbase)
      fun _ => digits_lt_base hbase, ofDigits_digits, ofDigits_digits]

/-! ## Multiplying -/

def mulDigit (base factor : Nat) : List Nat → Nat → List Nat
  | [], carry => base.digits carry
  | x :: l, carry =>
    let prod := x * factor + carry
    prod % base :: mulDigit base factor l (prod / base)

theorem ofDigits_mulDigit {factor carry : Nat} :
    ofDigits base (mulDigit base factor l carry) = ofDigits base l * factor + carry := by
  induction l generalizing carry with
  | nil => simp [mulDigit, ofDigits_digits]
  | cons x l ih =>
    rw [mulDigit, ofDigits_cons, ih, ofDigits_cons, Nat.mul_add, Nat.add_mul, Nat.mul_assoc]
    have := Nat.mod_add_div (x * factor + carry) base
    omega

theorem mulDigit_lt (hbase : 1 < base) {factor carry : Nat} :
    ∀ x ∈ mulDigit base factor l carry, x < base := by
  induction l generalizing carry with
  | nil => exact fun x hx => digits_lt_base hbase hx
  | cons x l ih => exact forall_mem_cons.mpr ⟨Nat.mod_lt _ (by omega), ih⟩

end Limbs
