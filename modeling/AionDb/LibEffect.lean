import Mathlib.Data.List.Forall2

/-!
# Fallible actions on a state

An action reads and changes a state and may fail; a failure keeps what was
changed before it. `Moves R m` says that `m` takes every state along the
preorder `R`, whether it fails or not; `Spec m s Q E` says how `m` ends when
run from `s`, with a result or with a failure. A computation whose failure
keeps nothing is an `Except`; the first part is about those.
-/

namespace Effect

open List

/-! ## Results -/

section
variable {ε α β σ : Type} {b : β} {f : α → Except ε β} {s' : σ} {l : List α} {a : α}
  {x : Except ε α} {bs : List β}

theorem bind_eq_ok : (x >>= f) = .ok b ↔ ∃ a, x = .ok a ∧ f a = .ok b := by
  cases x with
  | error e => simp [bind, Except.bind]
  | ok a => simp [bind, Except.bind]

theorem exists_bind_eq_ok {f : α → β} :
    (∃ b, (x >>= fun a => .ok (f a)) = .ok b) ↔ ∃ a, x = .ok a := by
  cases x <;> simp [bind, Except.bind]

theorem toOption_eq_some : x.toOption = some a ↔ x = .ok a := by
  cases x <;> simp [Except.toOption]

theorem eq_ok_of_isSome (default : α) (h : x.toOption.isSome = true) :
    x = .ok (x.toOption.getD default) := by
  cases x with
  | error e => cases h
  | ok a => rfl

theorem foldlM_cons_eq_ok {f : σ → α → Except ε σ} {s : σ} :
    (a :: l).foldlM f s = .ok s' ↔ ∃ m, f s a = .ok m ∧ l.foldlM f m = .ok s' := by
  rw [foldlM_cons, bind_eq_ok]

theorem foldlM_nil_eq_ok {f : σ → α → Except ε σ} {s : σ} : [].foldlM f s = .ok s' ↔ s = s' := by
  simp [pure, Except.pure]

theorem foldlM_preserves {f : σ → α → Except ε σ} {I : σ → Prop}
    (hstep : ∀ a ∈ l, ∀ s s', I s → f s a = .ok s' → I s') {s : σ} (hs : I s)
    (h : l.foldlM f s = .ok s') : I s' := by
  induction l generalizing s with
  | nil => rw [foldlM_nil_eq_ok] at h; exact h ▸ hs
  | cons a l ih =>
    obtain ⟨m, hm, hrest⟩ := foldlM_cons_eq_ok.mp h
    have hI := hstep a (mem_cons_self ..) s m hs hm
    exact ih (fun b hb => hstep b (mem_cons_of_mem _ hb)) hI hrest

theorem mapM_eq_ok : l.mapM f = .ok bs ↔ List.Forall₂ (fun a b => f a = .ok b) l bs := by
  induction l generalizing bs with
  | nil => cases bs <;> simp [pure, Except.pure]
  | cons a l ih =>
    rw [mapM_cons, bind_eq_ok]
    simp only [bind_eq_ok, ih, forall₂_cons_left_iff, pure, Except.pure, Except.ok.injEq]
    constructor
    · rintro ⟨b, hb, bs', hbs, rfl⟩
      exact ⟨b, bs', hb, hbs, rfl⟩
    · rintro ⟨b, bs', hb, hbs, rfl⟩
      exact ⟨b, hb, bs', hbs, rfl⟩

theorem exists_mapM_eq_ok (h : ∀ a ∈ l, ∃ b, f a = .ok b) : ∃ bs, l.mapM f = .ok bs := by
  induction l with
  | nil => exact ⟨[], rfl⟩
  | cons a l ih =>
    obtain ⟨b, hb⟩ := h a (mem_cons_self ..)
    obtain ⟨bs, hbs⟩ := ih fun a' ha' => h a' (mem_cons_of_mem _ ha')
    exact ⟨b :: bs, mapM_eq_ok.mpr (.cons hb (mapM_eq_ok.mp hbs))⟩

theorem exists_mapM_eq_ok_iff : (∃ bs, l.mapM f = .ok bs) ↔ ∀ a ∈ l, ∃ b, f a = .ok b := by
  refine ⟨fun ⟨bs, h⟩ a ha => ?_, exists_mapM_eq_ok⟩
  obtain ⟨i, hi, rfl⟩ := getElem_of_mem ha
  have hall := mapM_eq_ok.mp h
  have hi' : i < bs.length := hall.length_eq ▸ hi
  exact ⟨_, hall.get hi hi'⟩

theorem mem_of_mapM_eq_ok (h : l.mapM f = .ok bs) (hb : b ∈ bs) : ∃ a ∈ l, f a = .ok b := by
  rw [mapM_eq_ok] at h
  induction h with
  | nil => cases hb
  | cons hab _ ih =>
    rcases mem_cons.mp hb with rfl | hb
    · exact ⟨_, mem_cons_self .., hab⟩
    · obtain ⟨a, ha, hab⟩ := ih hb
      exact ⟨a, mem_cons_of_mem _ ha, hab⟩

end

/-! ## Actions -/

abbrev Eff (σ ε α : Type) := ExceptT ε (StateM σ) α

variable {σ ε α β : Type} {R : σ → σ → Prop}

theorem bind_apply_of_ok {m : Eff σ ε α} {k : α → Eff σ ε β} {s s' : σ} {a : α}
    (h : m s = (.ok a, s')) : (m >>= k) s = k a s' := by
  simp only [bind, ExceptT.bind, ExceptT.mk, StateT.bind, ExceptT.bindCont, h]

theorem modify_bind_apply (f : σ → σ) (k : PUnit → Eff σ ε β) (s : σ) :
    ((modify f : Eff σ ε PUnit) >>= k) s = k () (f s) := rfl

theorem get_bind_apply (k : σ → Eff σ ε β) (s : σ) : ((get : Eff σ ε σ) >>= k) s = k s s := rfl

/-! ## How an action ends -/

/-- Run from `s`, the action ends with `Q` of its result and the state, or
fails with `E` of the state. -/
def Spec (m : Eff σ ε α) (s : σ) (Q : α → σ → Prop) (E : σ → Prop) : Prop :=
  match m s with
  | (.ok a, s') => Q a s'
  | (.error _, s') => E s'

section
variable {Q : α → σ → Prop} {E : σ → Prop} {s : σ} {f : σ → σ} {m : Eff σ ε α} {E' : σ → Prop}
  {a : α} {Q' : α → σ → Prop}

theorem spec_pure (h : Q a s) : Spec (pure a : Eff σ ε α) s Q E := h

theorem spec_modify {Q : PUnit → σ → Prop} (h : Q () (f s)) :
    Spec (modify f : Eff σ ε PUnit) s Q E := h

theorem spec_modify_bind {k : PUnit → Eff σ ε α} (h : Spec (k ()) (f s) Q E) :
    Spec (modify f >>= k) s Q E := h

theorem spec_mono (h : Spec m s Q E) (hQ : ∀ a s', Q a s' → Q' a s') (hE : ∀ s', E s' → E' s') :
    Spec m s Q' E' := by
  unfold Spec at *
  match hm : m s with
  | (.ok a, s') => rw [hm] at h; exact hQ a s' h
  | (.error e, s') => rw [hm] at h; exact hE s' h

theorem spec_bind {k : α → Eff σ ε β} {Q' : β → σ → Prop} (hm : Spec m s Q E)
    (hk : ∀ a s', Q a s' → Spec (k a) s' Q' E) : Spec (m >>= k) s Q' E := by
  unfold Spec at hm
  match hr : m s with
  | (.ok a, s') =>
    rw [hr] at hm
    have h := hk a s' hm
    unfold Spec at h ⊢
    rwa [bind_apply_of_ok hr]
  | (.error e, s') =>
    rw [hr] at hm
    unfold Spec
    simp only [bind, ExceptT.bind, ExceptT.mk, StateT.bind, ExceptT.bindCont, hr]
    exact hm

theorem spec_get_bind {k : σ → Eff σ ε β} {Q' : β → σ → Prop} (h : Spec (k s) s Q' E) :
    Spec (get >>= k) s Q' E := h

theorem spec_liftExcept {r : Except ε α} (hok : ∀ a, r = .ok a → Q a s) (herr : E s) :
    Spec (liftM r : Eff σ ε α) s Q E := by
  cases r with
  | ok a => exact hok a rfl
  | error e => exact herr

theorem spec_liftExcept_bind {r : Except ε β} {k : β → Eff σ ε α}
    (hok : ∀ b, r = .ok b → Spec (k b) s Q E) (herr : ∀ e, r = .error e → E s) :
    Spec (liftM r >>= k : Eff σ ε α) s Q E := by
  cases r with
  | ok b => exact hok b rfl
  | error e => exact herr e rfl

theorem spec_ite {c : Prop} [Decidable c] {m' : Eff σ ε α} (h : c → Spec m s Q E)
    (h' : ¬c → Spec m' s Q E) : Spec (if c then m else m') s Q E := by
  by_cases hc : c
  · rw [if_pos hc]; exact h hc
  · rw [if_neg hc]; exact h' hc

theorem spec_forM {I : σ → Prop} {f : β → Eff σ ε PUnit} (l : List β)
    (h : ∀ b ∈ l, ∀ s, I s → Spec (f b) s (fun _ => I) E) (hs : I s) :
    Spec (l.forM f) s (fun _ => I) E := by
  induction l generalizing s with
  | nil => exact hs
  | cons b l ih =>
    show Spec (f b >>= fun _ => l.forM f) s _ E
    exact spec_bind (h b (mem_cons_self ..) s hs)
      fun _ s' hs' => ih (fun b' hb' => h b' (mem_cons_of_mem _ hb')) hs'

theorem spec_foldlM {I : α → σ → Prop} {f : α → β → Eff σ ε α} (l : List β)
    (h : ∀ b ∈ l, ∀ a s, I a s → Spec (f a b) s I E) (hs : I a s) :
    Spec (l.foldlM f a) s I E := by
  induction l generalizing a s with
  | nil => exact hs
  | cons b l ih =>
    rw [foldlM_cons]
    exact spec_bind (h b (mem_cons_self ..) a s hs)
      fun a' s' hs' => ih (fun b' hb' => h b' (mem_cons_of_mem _ hb')) hs'

theorem exists_ok_of_spec (h : Spec m s Q fun _ => False) : ∃ a s', m s = (.ok a, s') ∧ Q a s' := by
  unfold Spec at h
  match hm : m s with
  | (.ok a, s') => rw [hm] at h; exact ⟨a, s', rfl, h⟩
  | (.error e, s') => rw [hm] at h; exact h.elim

theorem spec_and (h : Spec m s Q E) (h' : Spec m s Q' E') :
    Spec m s (fun a s => Q a s ∧ Q' a s) (fun s => E s ∧ E' s) := by
  unfold Spec at *
  match hm : m s with
  | (.ok a, s') => rw [hm] at h h'; exact ⟨h, h'⟩
  | (.error e, s') => rw [hm] at h h'; exact ⟨h, h'⟩

end

/-! ## Where an action goes -/

/-- Whatever the outcome, the action takes the state along `R`. -/
def Moves (R : σ → σ → Prop) (m : Eff σ ε α) : Prop := ∀ s, R s (m s).2

theorem moves_modify {f : σ → σ} (h : ∀ s, R s (f s)) : Moves R (modify f : Eff σ ε PUnit) := h

section
variable [Std.Refl R]

theorem moves_pure (a : α) : Moves R (pure a : Eff σ ε α) := fun s => Std.Refl.refl s

theorem moves_get : Moves R (get : Eff σ ε σ) := fun s => Std.Refl.refl s

end

variable [IsTrans σ R]

theorem moves_bind {m : Eff σ ε α} {k : α → Eff σ ε β} (hm : Moves R m) (hk : ∀ a, Moves R (k a)) :
    Moves R (m >>= k) := by
  intro s
  have h := hm s
  show R s (((m >>= k) : Eff σ ε β) s).2
  simp only [bind, ExceptT.bind, ExceptT.mk, StateT.bind, ExceptT.bindCont]
  match hr : m s with
  | (.ok a, s') =>
    rw [hr] at h
    exact Trans.trans h (hk a s')
  | (.error e, s') =>
    rw [hr] at h
    exact h

theorem moves_forM [Std.Refl R] {f : β → Eff σ ε PUnit} (l : List β) (h : ∀ b ∈ l, Moves R (f b)) :
    Moves R (l.forM f) := by
  induction l with
  | nil => exact moves_pure _
  | cons b l ih =>
    show Moves R (f b >>= fun _ => l.forM f)
    exact moves_bind (h b (mem_cons_self ..)) fun _ => ih fun b' hb' => h b' (mem_cons_of_mem _ hb')

end Effect
