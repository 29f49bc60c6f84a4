import Mathlib.Data.List.Basic
import Mathlib.Data.List.Pairwise

/-!
# A log executed at once and executed by groups

The items of a log belong to groups. One reader executes each item as it
arrives; another holds the items of a group back until the group is released
and then executes them together. Where a group is released only past items
that are independent of it, and every group with items is released, the two
executions differ by exchanges of independent neighbours, so they end alike.
-/

namespace Deferred

open List

variable {ρ : Type*}

/-! ## Exchanges of independent neighbours -/

/-- `l'` comes from `l` by exchanges of neighbours `b, a` with `I a b`. -/
inductive Swaps (I : ρ → ρ → Prop) : List ρ → List ρ → Prop where
  | refl (l : List ρ) : Swaps I l l
  | swap {a b : ρ} (l l' : List ρ) (h : I a b) : Swaps I (l ++ b :: a :: l') (l ++ a :: b :: l')
  | trans {l₁ l₂ l₃ : List ρ} (h₁ : Swaps I l₁ l₂) (h₂ : Swaps I l₂ l₃) : Swaps I l₁ l₃

namespace Swaps

variable {I : ρ → ρ → Prop} {l l' : List ρ}

theorem append_left (c : List ρ) (h : Swaps I l l') : Swaps I (c ++ l) (c ++ l') := by
  induction h with
  | refl l => exact refl _
  | swap x y h =>
    rw [← append_assoc, ← append_assoc]
    exact swap _ _ h
  | trans _ _ ih1 ih2 => exact ih1.trans ih2

theorem append_right (c : List ρ) (h : Swaps I l l') : Swaps I (l ++ c) (l' ++ c) := by
  induction h with
  | refl l => exact refl _
  | swap x y h =>
    rw [append_assoc, append_assoc, cons_append, cons_append, cons_append, cons_append]
    exact swap _ _ h
  | trans _ _ ih1 ih2 => exact ih1.trans ih2

theorem cons (a : ρ) (h : Swaps I l l') : Swaps I (a :: l) (a :: l') := append_left [a] h

theorem move_back {r : ρ} (h : ∀ a ∈ l, I a r) : Swaps I (r :: l) (l ++ [r]) := by
  induction l with
  | nil => exact refl _
  | cons a l ih =>
    have hfirst : Swaps I (r :: a :: l) (a :: r :: l) := swap [] l (h a mem_cons_self)
    exact hfirst.trans (cons a (ih fun b hb => h b (mem_cons_of_mem _ hb)))

theorem move_front {a : ρ} (h : ∀ r ∈ l, I a r) : Swaps I (l ++ [a]) (a :: l) := by
  induction l with
  | nil => exact refl _
  | cons r l ih =>
    have hrest : Swaps I (r :: (l ++ [a])) (r :: a :: l) :=
      cons r (ih fun b hb => h b (mem_cons_of_mem _ hb))
    exact hrest.trans (swap [] l (h r mem_cons_self))

theorem mem_iff (h : Swaps I l l') {r : ρ} : r ∈ l ↔ r ∈ l' := by
  induction h with
  | refl l => rfl
  | swap x y h =>
    simp only [mem_append, mem_cons]
    tauto
  | trans _ _ ih1 ih2 => exact ih1.trans ih2

end Swaps

/-! ## Execution -/

section
variable {σ : Type*} (step : σ → ρ → σ → Prop)

/-- From `s` the items can be executed in order, and `s'` is reached. -/
def Exec : List ρ → σ → σ → Prop
  | [], s, s' => s = s'
  | r :: l, s, s' => ∃ t, step s r t ∧ Exec l t s'

variable {step} {ok : ρ → Prop} {σ' : Type*} {s u : σ} {Inv : σ → Prop} {f : σ → σ'}
  {step' : σ' → ρ → σ' → Prop}

theorem exec_append {l l' : List ρ} :
    Exec step (l ++ l') s u ↔ ∃ t, Exec step l s t ∧ Exec step l' t u := by
  induction l generalizing s with
  | nil => simp [Exec]
  | cons r l ih =>
    simp only [cons_append, Exec, ih]
    constructor
    · rintro ⟨m, hm, t, ht, hu⟩
      exact ⟨t, ⟨m, hm, ht⟩, hu⟩
    · rintro ⟨t, ⟨m, hm, ht⟩, hu⟩
      exact ⟨m, hm, t, ht, hu⟩

theorem Swaps.exec {I : ρ → ρ → Prop} {l l' : List ρ} (h : Swaps I l l')
    (hcomm : ∀ a b, I a b → ∀ s t u, step s b t → step t a u → ∃ t', step s a t' ∧ step t' b u) (hexec : Exec step l s u) : Exec step l' s u := by
  induction h with
  | refl l => exact hexec
  | @swap a b x y hab =>
    obtain ⟨m, hx, t, hb, t1, ha, hy⟩ := exec_append.mp hexec
    obtain ⟨t', ha', hb'⟩ := hcomm a b hab m t t1 hb ha
    exact exec_append.mpr ⟨m, hx, t', ha', t1, hb', hy⟩
  | trans _ _ ih1 ih2 => exact ih2 (ih1 hexec)

theorem Exec.map (hstep : ∀ s r s', Inv s → ok r → step s r s' → Inv s' ∧ step' (f s) r (f s'))
    {l : List ρ} (hl : ∀ r ∈ l, ok r) {s' : σ} (hs : Inv s) (h : Exec step l s s') :
    Exec step' l (f s) (f s') := by
  induction l generalizing s with
  | nil => exact congrArg f h
  | cons r l ih =>
    obtain ⟨t, ht, hrest⟩ := h
    obtain ⟨hinv, ht'⟩ := hstep s r t hs (hl r mem_cons_self) ht
    exact ⟨f t, ht', ih (fun b hb => hl b (mem_cons_of_mem _ hb)) hinv hrest⟩

theorem Exec.lift
    (hstep : ∀ s r a, Inv s → ok r → step' (f s) r a → ∃ s', Inv s' ∧ step s r s' ∧ f s' = a)
    {l : List ρ} (hl : ∀ r ∈ l, ok r) {a : σ'} (hs : Inv s) (h : Exec step' l (f s) a) :
    ∃ s', Exec step l s s' ∧ f s' = a := by
  induction l generalizing s with
  | nil => exact ⟨s, rfl, h⟩
  | cons r l ih =>
    obtain ⟨b, hb, hrest⟩ := h
    obtain ⟨t, hinv, ht, rfl⟩ := hstep s r b hs (hl r mem_cons_self) hb
    obtain ⟨s', hs', ha⟩ := ih (fun b hb => hl b (mem_cons_of_mem _ hb)) hinv hrest
    exact ⟨s', ⟨t, ht, hs'⟩, ha⟩

end

/-! ## Groups -/

inductive Item (τ ρ : Type*) where
  | now (r : ρ)
  | held (t : τ) (r : ρ)
  | release (t : τ)
  | discard (t : τ)
  | skip

section
variable {τ : Type*}

/-- What a reader executes that holds nothing back. -/
def arrival : List (Item τ ρ) → List ρ
  | [] => []
  | .now r :: l | .held _ r :: l => r :: arrival l
  | .release _ :: l | .discard _ :: l | .skip :: l => arrival l

theorem mem_arrival {l : List (Item τ ρ)} {r : ρ} (h : r ∈ arrival l) :
    .now r ∈ l ∨ ∃ t, .held t r ∈ l := by
  induction l with
  | nil => cases h
  | cons x l ih =>
    have hrest : r ∈ arrival l → .now r ∈ x :: l ∨ ∃ t, .held t r ∈ x :: l := fun h =>
      (ih h).imp (mem_cons_of_mem _) fun ⟨t, ht⟩ => ⟨t, mem_cons_of_mem _ ht⟩
    cases x with
    | now r' =>
      rcases mem_cons.mp h with rfl | h
      · exact Or.inl mem_cons_self
      · exact hrest h
    | held t r' =>
      rcases mem_cons.mp h with rfl | h
      · exact Or.inr ⟨t, mem_cons_self⟩
      · exact hrest h
    | release t | discard t | skip => exact hrest h

variable [DecidableEq τ]

/-- What a reader executes that holds groups back, `h` being held so far. -/
def deferred : List (τ × ρ) → List (Item τ ρ) → List ρ
  | _, [] => []
  | h, .now r :: l => r :: deferred h l
  | h, .held t r :: l => deferred (h ++ [(t, r)]) l
  | h, .release t :: l => (h.filter (·.1 = t)).map (·.2) ++ deferred (h.filter (·.1 ≠ t)) l
  | h, .discard t :: l => deferred (h.filter (·.1 ≠ t)) l
  | h, .skip :: l => deferred h l

/-- Whatever is executed before an item that arrived earlier is independent of
it, no group with items is discarded, and nothing is held in the end. -/
def Orderly (I : ρ → ρ → Prop) : List (τ × ρ) → List (Item τ ρ) → Prop
  | h, [] => h = []
  | h, .now r :: l => (∀ p ∈ h, I p.2 r) ∧ Orderly I h l
  | h, .held t r :: l => Orderly I (h ++ [(t, r)]) l
  | h, .release t :: l =>
    h.Pairwise (fun p q => p.1 ≠ t → q.1 = t → I p.2 q.2) ∧ Orderly I (h.filter (·.1 ≠ t)) l
  | h, .discard t :: l => (∀ p ∈ h, p.1 ≠ t) ∧ Orderly I h l
  | h, .skip :: l => Orderly I h l

instance instDecidableOrderly (I : ρ → ρ → Prop) [DecidableRel I] :
    ∀ (h : List (τ × ρ)) (l : List (Item τ ρ)), Decidable (Orderly I h l)
  | h, [] => decidable_of_iff (h.isEmpty = true) isEmpty_iff
  | h, .now r :: l =>
    have := instDecidableOrderly I h l
    inferInstanceAs (Decidable ((∀ p ∈ h, I p.2 r) ∧ Orderly I h l))
  | h, .held t r :: l => instDecidableOrderly I (h ++ [(t, r)]) l
  | h, .release t :: l =>
    have := instDecidableOrderly I (h.filter (·.1 ≠ t)) l
    inferInstanceAs (Decidable (h.Pairwise (fun p q => p.1 ≠ t → q.1 = t → I p.2 q.2) ∧
      Orderly I (h.filter (·.1 ≠ t)) l))
  | h, .discard t :: l =>
    have := instDecidableOrderly I h l
    inferInstanceAs (Decidable ((∀ p ∈ h, p.1 ≠ t) ∧ Orderly I h l))
  | h, .skip :: l => instDecidableOrderly I h l

variable {I : ρ → ρ → Prop}

theorem swaps_release {t : τ} {h : List (τ × ρ)}
    (hpair : h.Pairwise (fun p q => p.1 ≠ t → q.1 = t → I p.2 q.2)) :
    Swaps I ((h.filter (·.1 = t)).map (·.2) ++ (h.filter (·.1 ≠ t)).map (·.2)) (h.map (·.2)) := by
  induction h with
  | nil => exact .refl _
  | cons p h ih =>
    obtain ⟨hp, hpair⟩ := pairwise_cons.mp hpair
    by_cases hpt : p.1 = t
    · simpa [hpt] using (ih hpair).cons p.2
    have hfront : Swaps I ((h.filter (·.1 = t)).map (·.2) ++ [p.2])
        (p.2 :: (h.filter (·.1 = t)).map (·.2)) := by
      refine Swaps.move_front fun r hr => ?_
      obtain ⟨q, hq, rfl⟩ := mem_map.mp hr
      obtain ⟨hmem, hqt⟩ := mem_filter.mp hq
      exact hp q hmem hpt (of_decide_eq_true hqt)
    have h₁ := hfront.append_right ((h.filter (·.1 ≠ t)).map (·.2))
    have h₂ := (ih hpair).cons p.2
    rw [append_assoc, singleton_append, cons_append] at h₁
    simpa [hpt] using h₁.trans h₂

theorem swaps_of_orderly {h : List (τ × ρ)} {l : List (Item τ ρ)} (ho : Orderly I h l) :
    Swaps I (deferred h l) (h.map (·.2) ++ arrival l) := by
  induction l generalizing h with
  | nil =>
    cases ho
    exact .refl _
  | cons x l ih =>
    cases x with
    | now r =>
      obtain ⟨hr, ho⟩ := ho
      have hback : Swaps I (r :: h.map (·.2)) (h.map (·.2) ++ [r]) :=
        Swaps.move_back fun a ha => by
          obtain ⟨p, hp, rfl⟩ := mem_map.mp ha
          exact hr p hp
      have h₂ := hback.append_right (arrival l)
      rw [append_assoc, singleton_append, cons_append] at h₂
      exact ((ih ho).cons r).trans h₂
    | held t r =>
      have h₁ := ih (h := h ++ [(t, r)]) ho
      rw [map_append, append_assoc] at h₁
      exact h₁
    | release t =>
      obtain ⟨hpair, ho⟩ := ho
      have h₁ := (ih ho).append_left ((h.filter (·.1 = t)).map (·.2))
      have h₂ := (swaps_release hpair).append_right (arrival l)
      rw [← append_assoc] at h₁
      exact h₁.trans h₂
    | discard t =>
      obtain ⟨hne, ho⟩ := ho
      have hsame : h.filter (·.1 ≠ t) = h :=
        filter_eq_self.mpr fun p hp => decide_eq_true (hne p hp)
      show Swaps I (deferred (h.filter (·.1 ≠ t)) l) _
      rw [hsame]
      exact ih ho
    | skip => exact ih ho

end

end Deferred
