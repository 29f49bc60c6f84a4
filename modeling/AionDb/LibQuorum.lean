import Mathlib.Data.Finset.Card

/-!
# Majorities

A quorum of a cluster of `n` parties is a set of more than half of them. Two
quorums share a party; where every party gives one ballot to one candidate,
two candidates with a quorum are the same.
-/

namespace Quorum

variable {ν κ : Type*} [DecidableEq ν]

def size (n : Nat) : Nat := n / 2 + 1

theorem exists_common {n : Nat} {members A B : Finset ν} (hcard : members.card ≤ n)
    (hA : A ⊆ members) (hB : B ⊆ members) (hAq : size n ≤ A.card) (hBq : size n ≤ B.card) :
    ∃ v, v ∈ A ∧ v ∈ B := by
  have hlt : members.card < A.card + B.card := by
    unfold size at hAq hBq
    omega
  obtain ⟨v, hv⟩ := Finset.inter_nonempty_of_card_lt_card_add_card hA hB hlt
  exact ⟨v, Finset.mem_inter.mp hv⟩

theorem unique_winner (vote : ν → κ → Prop) {n : Nat} {members A B : Finset ν}
    (hcard : members.card ≤ n) (hA : A ⊆ members) (hB : B ⊆ members) (hAq : size n ≤ A.card)
    (hBq : size n ≤ B.card) (honce : ∀ v c d, vote v c → vote v d → c = d) {a b : κ}
    (ha : ∀ v ∈ A, vote v a) (hb : ∀ v ∈ B, vote v b) : a = b := by
  obtain ⟨v, hvA, hvB⟩ := exists_common hcard hA hB hAq hBq
  exact honce v a b (ha v hvA) (hb v hvB)

end Quorum
