import Mathlib.Logic.Basic

/-!
# Tables that keep one lock mode for a key and a transaction

`held` is what a lock table has for a transaction on a key, and `granted` says
which modes were granted since the last release. The table loses nothing when
the modes it holds go together and each of them keeps away whoever a granted
mode keeps away. How modes are merged is up to the table: `Sound.grant` asks
that the new mode covers the old one.
-/

namespace ModeTable

variable {K T M : Type} {compat : M → M → Bool}

/-- Whoever goes with `m` goes with `n`. -/
def Covers (compat : M → M → Bool) (m n : M) : Prop :=
  ∀ other, compat m other = true → compat n other = true

structure Sound (compat : M → M → Bool) (held : K → T → Option M)
    (granted : K → T → M → Prop) : Prop where
  compatible : ∀ k t₁ t₂ m₁ m₂, t₁ ≠ t₂ → held k t₁ = some m₁ → held k t₂ = some m₂ →
    compat m₁ m₂ = true
  covered : ∀ k t m, granted k t m → ∃ h, held k t = some h ∧ Covers compat h m

namespace Sound

variable {held held' : K → T → Option M} {granted granted' : K → T → M → Prop}

theorem grant [DecidableEq K] [DecidableEq T] (hs : Sound compat held granted)
    (hcomm : ∀ m n, compat m n = compat n m) {key : K} {txn : T} {new : M}
    (hheld : ∀ k u, held' k u = if k = key ∧ u = txn then some new else held k u)
    (hothers : ∀ u m, u ≠ txn → held key u = some m → compat m new = true)
    (hold : ∀ m ∈ held key txn, Covers compat new m)
    (hgranted : ∀ k t m, granted' k t m → granted k t m ∨ k = key ∧ t = txn ∧ Covers compat new m) :
    Sound compat held' granted' where
  compatible := by
    intro k t₁ t₂ m₁ m₂ hne h₁ h₂
    rw [hheld] at h₁ h₂
    split at h₁
    · next heq =>
      obtain ⟨rfl, rfl⟩ := heq
      cases h₁
      rw [if_neg fun heq => hne heq.2.symm] at h₂
      rw [hcomm]
      exact hothers t₂ m₂ (Ne.symm hne) h₂
    · split at h₂
      · next heq =>
        obtain ⟨rfl, rfl⟩ := heq
        cases h₂
        exact hothers t₁ m₁ hne h₁
      · exact hs.compatible k t₁ t₂ m₁ m₂ hne h₁ h₂
  covered := by
    intro k t m hm
    rw [hheld]
    rcases hgranted k t m hm with hm | ⟨rfl, rfl, hcov⟩
    · obtain ⟨h, hh, hcov⟩ := hs.covered k t m hm
      split
      · next heq =>
        obtain ⟨rfl, rfl⟩ := heq
        exact ⟨new, rfl, fun other ho => hcov other (hold h hh other ho)⟩
      · exact ⟨h, hh, hcov⟩
    · exact ⟨new, if_pos ⟨rfl, rfl⟩, hcov⟩

theorem release (hs : Sound compat held granted) (gone : K → T → Prop) [∀ k t, Decidable (gone k t)]
    (hheld : ∀ k u, held' k u = if gone k u then none else held k u)
    (hgranted : ∀ k t m, granted' k t m → granted k t m ∧ ¬ gone k t) :
    Sound compat held' granted' where
  compatible := by
    intro k t₁ t₂ m₁ m₂ hne h₁ h₂
    rw [hheld, Option.ite_none_left_eq_some] at h₁ h₂
    exact hs.compatible k t₁ t₂ m₁ m₂ hne h₁.2 h₂.2
  covered := by
    intro k t m hm
    obtain ⟨hm, hkept⟩ := hgranted k t m hm
    rw [hheld, if_neg hkept]
    exact hs.covered k t m hm

theorem granted_compatible (hs : Sound compat held granted) (hcomm : ∀ m n, compat m n = compat n m)
    {k : K} {t₁ t₂ : T} {m₁ m₂ : M} (hne : t₁ ≠ t₂) (h₁ : granted k t₁ m₁) (h₂ : granted k t₂ m₂) :
    compat m₁ m₂ = true := by
  obtain ⟨held₁, hh₁, hcov₁⟩ := hs.covered k t₁ m₁ h₁
  obtain ⟨held₂, hh₂, hcov₂⟩ := hs.covered k t₂ m₂ h₂
  have hheld := hcov₁ _ (hs.compatible k t₁ t₂ held₁ held₂ hne hh₁ hh₂)
  rw [hcomm] at hheld ⊢
  exact hcov₂ _ hheld

end Sound

end ModeTable
