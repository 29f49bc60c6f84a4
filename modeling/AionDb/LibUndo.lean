import Mathlib.Data.List.Basic

/-!
# Undo logs over independent slots

A state is made of slots that can be captured and assigned one by one. An
undo log lists captured slots, oldest first; undoing applies its entries from
the newest to the oldest. A slot is captured at most once after the latest
mark: the older entry wins anyway. `undo_change` is the reason this is enough:
once every slot that a change may touch has an entry after a mark, undoing to
that mark does not see the change.
-/

namespace Undo

open List

/-- A state `σ` made of slots `K`; an action `A` is a slot together with its content. -/
structure Slots (σ K A : Type*) where
  slotOf : A → K
  capture : σ → K → A
  apply : σ → A → σ
  slot_capture : ∀ s k, slotOf (capture s k) = k
  capture_apply_self : ∀ s a, capture (apply s a) (slotOf a) = a
  capture_apply_of_ne : ∀ s a k, k ≠ slotOf a → capture (apply s a) k = capture s k
  ext : ∀ s s', (∀ k, capture s k = capture s' k) → s = s'

namespace Slots

variable {σ K A : Type*} (S : Slots σ K A)

/-- Undoes the entries of a log, the newest first. -/
def undo (log : List A) (s : σ) : σ := log.foldr (fun a s => S.apply s a) s

theorem apply_capture (s : σ) (k : K) : S.apply s (S.capture s k) = s := by
  refine S.ext _ _ fun k' => ?_
  by_cases hk : k' = S.slotOf (S.capture s k)
  · subst hk
    rw [S.capture_apply_self, S.slot_capture]
  · exact S.capture_apply_of_ne _ _ _ hk

theorem capture_undo_congr {s s' : σ} {k : K} :
    ∀ log : List A, (∃ a ∈ log, S.slotOf a = k) ∨ S.capture s k = S.capture s' k →
      S.capture (S.undo log s) k = S.capture (S.undo log s') k := by
  intro log
  induction log with
  | nil => simp [undo]
  | cons a log ih =>
    intro h
    simp only [undo, foldr_cons] at ih ⊢
    by_cases hk : k = S.slotOf a
    · subst hk
      rw [S.capture_apply_self, S.capture_apply_self]
    rw [S.capture_apply_of_ne _ _ _ hk, S.capture_apply_of_ne _ _ _ hk]
    refine ih (h.imp_left ?_)
    rintro ⟨b, hb, rfl⟩
    rcases mem_cons.mp hb with rfl | hb
    · exact absurd rfl hk
    · exact ⟨b, hb, rfl⟩

theorem undo_concat_capture (log : List A) (s : σ) (k : K) :
    S.undo (log ++ [S.capture s k]) s = S.undo log s := by
  simp [undo, foldr_append, S.apply_capture]

variable [DecidableEq K]

/-- Captures a slot unless it has an entry after the latest mark. -/
def record (mark : Nat) (s : σ) (log : List A) (k : K) : List A :=
  if (log.drop mark).any (S.slotOf · = k) then log else log ++ [S.capture s k]

def recordAll (mark : Nat) (s : σ) (log : List A) (ks : List K) : List A :=
  ks.foldl (S.record mark s) log

variable {mark cut : Nat} {s s' : σ} {log : List A}

theorem prefix_record (k : K) : log <+: S.record mark s log k := by
  rw [record]
  split
  · exact prefix_rfl
  · exact prefix_append ..

theorem prefix_recordAll (ks : List K) : log <+: S.recordAll mark s log ks := by
  induction ks generalizing log with
  | nil => exact prefix_rfl
  | cons k ks ih => exact (S.prefix_record k).trans ih

theorem undo_record (h : cut ≤ log.length) (k : K) :
    S.undo ((S.record mark s log k).drop cut) s = S.undo (log.drop cut) s := by
  rw [record]
  split
  · rfl
  · rw [drop_append_of_le_length h, undo_concat_capture]

theorem undo_recordAll (h : cut ≤ log.length) (ks : List K) :
    S.undo ((S.recordAll mark s log ks).drop cut) s = S.undo (log.drop cut) s := by
  induction ks generalizing log with
  | nil => rfl
  | cons k ks ih =>
    have hlen : cut ≤ (S.record mark s log k).length :=
      Nat.le_trans h (S.prefix_record k).length_le
    exact (ih hlen).trans (S.undo_record h k)

theorem mem_drop_of_prefix {l l' : List A} {n : Nat} {a : A} (h : l <+: l') (ha : a ∈ l.drop n) :
    a ∈ l'.drop n := by
  obtain ⟨t, rfl⟩ := h
  rw [drop_append]
  exact mem_append_left _ ha

section

variable (hcut : cut ≤ mark) (hmark : mark ≤ log.length)
include hcut hmark

theorem mem_record (k : K) : ∃ a ∈ (S.record mark s log k).drop cut, S.slotOf a = k := by
  rw [record]
  split
  · rename_i h
    obtain ⟨a, ha, hk⟩ := any_eq_true.mp h
    have hsub : log.drop mark = (log.drop cut).drop (mark - cut) := by
      rw [drop_drop]; congr 1; omega
    exact ⟨a, mem_of_mem_drop (hsub ▸ ha), by simpa using hk⟩
  · rw [drop_append_of_le_length (Nat.le_trans hcut hmark)]
    exact ⟨_, mem_append_right _ (mem_singleton.mpr rfl), S.slot_capture s k⟩

theorem mem_recordAll {ks : List K} {k : K} (hk : k ∈ ks) :
    ∃ a ∈ (S.recordAll mark s log ks).drop cut, S.slotOf a = k := by
  induction ks generalizing log with
  | nil => simp at hk
  | cons k' ks ih =>
    have hlen : mark ≤ (S.record mark s log k').length :=
      Nat.le_trans hmark (S.prefix_record k').length_le
    rcases mem_cons.mp hk with rfl | hk
    · obtain ⟨a, ha, hka⟩ := S.mem_record (s := s) hcut hmark k
      exact ⟨a, mem_drop_of_prefix (S.prefix_recordAll ks) ha, hka⟩
    · exact ih hlen hk

theorem undo_change {ks : List K} (h : ∀ k ∉ ks, S.capture s' k = S.capture s k) :
    S.undo ((S.recordAll mark s log ks).drop cut) s' = S.undo (log.drop cut) s := by
  rw [← S.undo_recordAll (Nat.le_trans hcut hmark) ks]
  refine S.ext _ _ fun k => S.capture_undo_congr _ ?_
  by_cases hk : k ∈ ks
  · exact .inl (S.mem_recordAll hcut hmark hk)
  · exact .inr (h k hk)

end

end Slots

end Undo
