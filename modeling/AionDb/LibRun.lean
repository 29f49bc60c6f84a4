import Mathlib.Tactic.Linarith

/-!
# Runs of a partial step function

A system is given by a step function `σ → α → Option σ`: `none` says that the
action is not possible in the state. A run is a list of actions; every
interleaving of concurrent parties is one such list, so a statement about all
runs is a statement about all interleavings.
-/

namespace Run

variable {σ α : Type*} {step : σ → α → Option σ}

/-- Takes the actions one after another; `none` as soon as one is impossible. -/
def run (step : σ → α → Option σ) : σ → List α → Option σ
  | s, [] => some s
  | s, a :: as => (step s a).bind fun s' => run step s' as

/-- The state the run ends in; for a run that is known to be possible. -/
def after (step : σ → α → Option σ) (s : σ) (as : List α) : σ := (run step s as).getD s

/-- `P` holds of the state and the action at every step of the run. -/
def Along (step : σ → α → Option σ) (P : σ → α → Prop) : σ → List α → Prop
  | _, [] => True
  | s, a :: as => P s a ∧ ∀ s' ∈ step s a, Along step P s' as

instance Along.decidable {P : σ → α → Prop} [∀ s a, Decidable (P s a)] :
    ∀ (s : σ) (as : List α), Decidable (Along step P s as)
  | _, [] => isTrue trivial
  | s, a :: as =>
    haveI : ∀ s', Decidable (Along step P s' as) := fun s' => Along.decidable s' as
    match hs : step s a with
    | none => decidable_of_iff (P s a) (by simp [Along, hs])
    | some s' => decidable_of_iff (P s a ∧ Along step P s' as) (by simp [Along, hs])

@[simp] theorem run_nil (s : σ) : run step s [] = some s := rfl

variable {as bs : List α} {s s' : σ} {P : σ → α → Prop} {I : σ → Prop} {a : α}

theorem run_cons :
    run step s (a :: as) = some s' ↔ ∃ m, step s a = some m ∧ run step m as = some s' := by
  simp [run, Option.bind_eq_some_iff]

theorem run_append :
    run step s (as ++ bs) = some s' ↔ ∃ m, run step s as = some m ∧ run step m bs = some s' := by
  induction as generalizing s with
  | nil => simp
  | cons a as ih =>
    simp only [List.cons_append, run_cons, ih]
    constructor
    · rintro ⟨m, hm, m', hm', h⟩
      exact ⟨m', ⟨m, hm, hm'⟩, h⟩
    · rintro ⟨m', ⟨m, hm, hm'⟩, h⟩
      exact ⟨m, hm, m', hm', h⟩

theorem run_eq_some_after (h : (run step s as).isSome = true) :
    run step s as = some (after step s as) := by
  obtain ⟨s', hs'⟩ := Option.isSome_iff_exists.mp h
  simp [after, hs']

theorem step_eq_some_after (h : (run step s [a]).isSome = true) :
    step s a = some (after step s [a]) := by
  obtain ⟨m, hm, hrest⟩ := run_cons.mp (run_eq_some_after h)
  rw [hm, ← hrest, run_nil]

theorem run_mem (h : run step s as = some s') (ha : a ∈ as) :
    ∃ pre post m m', as = pre ++ a :: post ∧ run step s pre = some m ∧
      step m a = some m' ∧ run step m' post = some s' := by
  obtain ⟨pre, post, rfl⟩ := List.append_of_mem ha
  obtain ⟨m, hm, hrest⟩ := run_append.mp h
  obtain ⟨m', hstep, hpost⟩ := run_cons.mp hrest
  exact ⟨pre, post, m, m', rfl, hm, hstep, hpost⟩

theorem run_preserves_along (hstep : ∀ {s a s'}, I s → P s a → step s a = some s' → I s') (hs : I s)
    (hP : Along step P s as) (h : run step s as = some s') :
    I s' := by
  induction as generalizing s with
  | nil => cases h; exact hs
  | cons a as ih =>
    obtain ⟨m, hm, hrest⟩ := run_cons.mp h
    exact ih (hstep hs hP.1 hm) (hP.2 m hm) hrest

theorem along_of_forall (h : ∀ a ∈ as, ∀ s, P s a) (s : σ) : Along step P s as := by
  induction as generalizing s with
  | nil => trivial
  | cons a as ih =>
    exact ⟨h a (List.mem_cons_self ..) s, fun s' _ =>
      ih (fun b hb => h b (List.mem_cons_of_mem _ hb)) s'⟩

theorem run_preserves (hstep : ∀ {s a s'}, I s → step s a = some s' → I s') (hs : I s)
    (h : run step s as = some s') : I s' :=
  run_preserves_along (P := fun _ _ => True) (fun hs _ => hstep hs) hs
    (along_of_forall (fun _ _ _ => trivial) s) h

theorem along_and {Q : σ → α → Prop} (hP : Along step P s as) (hQ : Along step Q s as) :
    Along step (fun s a => P s a ∧ Q s a) s as := by
  induction as generalizing s with
  | nil => trivial
  | cons a as ih => exact ⟨⟨hP.1, hQ.1⟩, fun s' hs' => ih (hP.2 s' hs') (hQ.2 s' hs')⟩

theorem along_append {m : σ} (h : Along step P s (as ++ bs)) (hm : run step s as = some m) :
    Along step P s as ∧ Along step P m bs := by
  induction as generalizing s with
  | nil => cases hm; exact ⟨trivial, h⟩
  | cons a as ih =>
    obtain ⟨s', hs', hrest⟩ := run_cons.mp hm
    obtain ⟨h1, h2⟩ := h
    obtain ⟨h3, h4⟩ := ih (h2 s' hs') hrest
    refine ⟨⟨h1, fun t ht => ?_⟩, h4⟩
    cases hs'.symm.trans ht
    exact h3

end Run
