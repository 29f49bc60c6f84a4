import Mathlib.Algebra.Order.Ring.Nat
import Mathlib.Data.Nat.Size

/-!
# Rounding to a number of significant bits

`roundEven p n` is the number of at most `p` significant bits nearest to `n`,
the one with the even significand when two are as near.
-/

namespace Rounding

/-- The multiple of `2 ^ e` nearest to `n`, the even one of two. -/
def nearest (e n : Nat) : Nat :=
  if 2 ^ e < 2 * (n % 2 ^ e) ∨ 2 ^ e = 2 * (n % 2 ^ e) ∧ n / 2 ^ e % 2 = 1 then
    (n / 2 ^ e + 1) * 2 ^ e
  else n / 2 ^ e * 2 ^ e

def roundEven (p n : Nat) : Nat := nearest (n.size - p) n

theorem nearest_mono (e : Nat) {n m : Nat} (h : n ≤ m) : nearest e n ≤ nearest e m := by
  have hq : n / 2 ^ e ≤ m / 2 ^ e := Nat.div_le_div_right h
  rcases Nat.lt_or_eq_of_le hq with hlt | heq
  · -- the multiple above `n` is not above the one below `m`
    have hup : nearest e n ≤ (n / 2 ^ e + 1) * 2 ^ e := by
      unfold nearest
      split
      · exact Nat.le_refl _
      · exact Nat.mul_le_mul_right _ (Nat.le_succ _)
    have hdown : m / 2 ^ e * 2 ^ e ≤ nearest e m := by
      unfold nearest
      split
      · exact Nat.mul_le_mul_right _ (Nat.le_succ _)
      · exact Nat.le_refl _
    exact Nat.le_trans hup (Nat.le_trans (Nat.mul_le_mul_right _ hlt) hdown)
  · have hr : n % 2 ^ e ≤ m % 2 ^ e := by
      have hn := Nat.div_add_mod n (2 ^ e)
      have hm := Nat.div_add_mod m (2 ^ e)
      rw [heq] at hn
      omega
    unfold nearest
    rw [heq]
    split <;> split
    · exact Nat.le_refl _
    · omega
    · exact Nat.mul_le_mul_right _ (Nat.le_succ _)
    · exact Nat.le_refl _

theorem nearest_two_pow {e k : Nat} (h : e ≤ k) : nearest e (2 ^ k) = 2 ^ k := by
  have hdvd : 2 ^ e ∣ 2 ^ k := Nat.pow_dvd_pow 2 h
  unfold nearest
  rw [Nat.mod_eq_zero_of_dvd hdvd, if_neg, Nat.div_mul_cancel hdvd]
  have := Nat.two_pow_pos e
  omega

theorem roundEven_mono {p n m : Nat} (hp : 0 < p) (h : n ≤ m) : roundEven p n ≤ roundEven p m := by
  have hsize : n.size ≤ m.size := Nat.size_le_size h
  rcases Nat.lt_or_eq_of_le (Nat.sub_le_sub_right hsize p) with hlt | heq
  · -- a power of two lies between them, and it is its own rounding
    have hpow : 2 ^ (m.size - 1) ≤ m := Nat.lt_size.mp (by omega)
    calc nearest (n.size - p) n
        ≤ nearest (n.size - p) (2 ^ n.size) := nearest_mono _ (Nat.le_of_lt (Nat.lt_size_self n))
      _ = 2 ^ n.size := nearest_two_pow (Nat.sub_le ..)
      _ ≤ 2 ^ (m.size - 1) := Nat.pow_le_pow_right (by decide) (by omega)
      _ = nearest (m.size - p) (2 ^ (m.size - 1)) := (nearest_two_pow (by omega)).symm
      _ ≤ nearest (m.size - p) m := nearest_mono _ hpow
  · unfold roundEven
    rw [heq]
    exact nearest_mono _ h

theorem roundEven_of_lt {p n : Nat} (h : n < 2 ^ p) : roundEven p n = n := by
  unfold roundEven
  rw [Nat.sub_eq_zero_of_le (Nat.size_le.mpr h)]
  simp [nearest, Nat.mod_one]

end Rounding
