import Mathlib.Data.List.Infix

/-!
# Replicated logs

A log is a list of entries, each stamped with the term of the leader that wrote
it. A follower takes a stretch of the leader's log into its own with `merge`:
what it already holds under the same term stays, and the first conflict cuts
its log.

`Matching` says of two logs that one common entry makes them equal up to it.
`Grounded lead l` derives it for all logs at once: every entry of `l` has the
leader's log of its own term below it, so two logs with an entry of one term at
one place are both beginnings of the same list.
-/

namespace ReplicatedLog

open List

variable {ε : Type*} (term : ε → Nat)

/-- Takes entries into the log from place `n` on. -/
def merge : List ε → Nat → List ε → List ε
  | l, _, [] => l
  | l, n, e :: es =>
    match l[n]? with
    | some d => if term d = term e then merge l (n + 1) es else merge (l.take n ++ [e]) (n + 1) es
    | none => merge (l ++ [e]) (n + 1) es

/-- A common entry makes the logs equal up to it. -/
def Matching (l L : List ε) : Prop :=
  ∀ i d e, l[i]? = some d → L[i]? = some e → term d = term e → l.take (i + 1) = L.take (i + 1)

/-- Up to each of its entries the log is the one of the leader of that term. -/
def Grounded (lead : Nat → List ε) (l : List ε) : Prop :=
  ∀ i e, l[i]? = some e → l.take (i + 1) <+: lead (term e)

def lastTerm (l : List ε) : Nat := l.getLast?.elim 0 term

def Sorted (l : List ε) : Prop := l.Pairwise fun d e => term d ≤ term e

/-- `L` may lead a party that holds `l`. -/
def UpToDate (l L : List ε) : Prop :=
  lastTerm term l < lastTerm term L ∨ lastTerm term l = lastTerm term L ∧ l.length ≤ L.length

variable {term} {l L m : List ε} {lead lead' : Nat → List ε} {n k i : Nat} {es : List ε}

/-! ## Beginnings of lists -/

theorem take_eq_of_isPrefix (h : l <+: L) (hk : k ≤ l.length) : l.take k = L.take k := by
  obtain ⟨t, rfl⟩ := h
  rw [take_append_of_le_length hk]

theorem getElem?_eq_of_take_eq (h : l.take k = L.take k) (hi : i < k) : l[i]? = L[i]? := by
  rw [← getElem?_take_of_lt hi, h, getElem?_take_of_lt hi]

theorem getElem?_of_isPrefix {e : ε} (h : l <+: L) (he : l[i]? = some e) : L[i]? = some e := by
  obtain ⟨t, rfl⟩ := h
  rw [getElem?_append_left (List.getElem?_eq_some_iff.mp he).1, he]

theorem length_take_of_getElem? {e : ε} (he : l[i]? = some e) : (l.take (i + 1)).length = i + 1 := by
  have hlt : i < l.length := (List.getElem?_eq_some_iff.mp he).1
  rw [length_take]
  omega

/-! ## Grounded logs -/

theorem Grounded.matching (hl : Grounded term lead l) (hL : Grounded term lead L) :
    Matching term l L := by
  intro i d e hd he hterm
  have h1 := hl i d hd
  have h2 := hL i e he
  rw [← hterm] at h2
  exact (prefix_of_prefix_length_le h1 h2
    (by rw [length_take_of_getElem? hd, length_take_of_getElem? he])).eq_of_length
    (by rw [length_take_of_getElem? hd, length_take_of_getElem? he])

theorem Grounded.mono (h : Grounded term lead l) (hgrow : ∀ t, lead t <+: lead' t) :
    Grounded term lead' l := fun i e he => (h i e he).trans (hgrow _)

theorem Grounded.of_isPrefix (h : Grounded term lead L) (hpre : l <+: L) : Grounded term lead l := by
  intro i e he
  rw [take_eq_of_isPrefix hpre (List.getElem?_eq_some_iff.mp he).1]
  exact h i e (getElem?_of_isPrefix hpre he)

theorem Grounded.snoc {e : ε} (h : Grounded term lead l) (hlead : l ++ [e] <+: lead (term e)) :
    Grounded term lead (l ++ [e]) := by
  intro i d hd
  rcases Nat.lt_or_ge i l.length with hi | hi
  · rw [take_append_of_le_length hi]
    rw [getElem?_append_left hi] at hd
    exact h i d hd
  · rw [take_of_length_le (by rw [length_append, length_singleton]; omega)]
    rw [getElem?_append_right hi, getElem?_singleton] at hd
    split at hd
    · cases hd; exact hlead
    · cases hd

theorem Grounded.nil : Grounded term lead [] := fun i e he => by simp at he

theorem Grounded.isPrefix_lead (h : Grounded term lead l) (hne : l ≠ []) :
    l <+: lead (lastTerm term l) := by
  have hlast : l[l.length - 1]? = some (l.getLast hne) := by
    rw [getElem?_eq_getElem (by have := length_pos_iff.mpr hne; omega), getLast_eq_getElem]
  have hpre := h _ _ hlast
  rw [show l.length - 1 + 1 = l.length by have := length_pos_iff.mpr hne; omega,
    take_length] at hpre
  rwa [lastTerm, getLast?_eq_some_getLast hne]

theorem Grounded.isPrefix_of_drop {t : Nat} (h : Grounded term lead l)
    (hagree : l.take k = (lead t).take k) (hrest : ∀ e ∈ l.drop k, term e = t) : l <+: lead t := by
  by_cases hnil : l.drop k = []
  · rw [← take_of_length_le (drop_eq_nil_iff.mp hnil), hagree]
    exact take_prefix ..
  have hne : l ≠ [] := by
    rintro rfl
    exact hnil drop_nil
  have hlast : lastTerm term l = t := by
    rw [lastTerm, getLast?_eq_some_getLast hne, Option.elim_some, ← getLast_drop hnil]
    exact hrest _ (getLast_mem hnil)
  exact hlast ▸ h.isPrefix_lead hne

/-! ## Order of the terms -/

theorem Sorted.of_isPrefix (h : Sorted term L) (hpre : l <+: L) : Sorted term l :=
  List.Pairwise.sublist hpre.sublist h

theorem Sorted.snoc {e : ε} (h : Sorted term l) (hle : ∀ d ∈ l, term d ≤ term e) :
    Sorted term (l ++ [e]) := by
  rw [Sorted, pairwise_append]
  refine ⟨h, pairwise_singleton .., fun d hd e' he' => ?_⟩
  rw [mem_singleton.mp he']
  exact hle d hd

theorem Sorted.le_lastTerm (h : Sorted term l) {e : ε} (he : e ∈ l) : term e ≤ lastTerm term l := by
  have hne : l ≠ [] := ne_nil_of_mem he
  rw [lastTerm, getLast?_eq_some_getLast hne]
  rw [Sorted, ← dropLast_append_getLast hne, pairwise_append] at h
  rw [← dropLast_append_getLast hne] at he
  rcases mem_append.mp he with he | he
  · exact h.2.2 e he _ (mem_singleton_self _)
  · rw [mem_singleton.mp he]
    rfl

/-! ## Merging -/

@[simp] theorem merge_nil : merge term l n [] = l := rfl

theorem merge_at_end (term : ε → Nat) (es : List ε) : ∀ l : List ε, merge term l l.length es = l ++ es := by
  induction es with
  | nil => intro l; rw [merge_nil, append_nil]
  | cons e es ih =>
    intro l
    have h := ih (l ++ [e])
    rw [length_append, length_singleton] at h
    rw [merge, getElem?_eq_none (Nat.le_refl _), h, append_assoc, singleton_append]

section

variable (hmatch : Matching term l L) (hn : n ≤ l.length) (hes : l.take n ++ es <+: L)
include hmatch hn hes

/-- What a follower that matches the leader `L` and agrees with it before place
`n` holds afterwards: its own log, if all that is sent was there, and else the
leader's log as far as it was sent. -/
theorem merge_cases :
    (merge term l n es = l ∧ l.take (n + es.length) = L.take (n + es.length) ∧
        n + es.length ≤ l.length) ∨
      (merge term l n es = L.take (n + es.length) ∧
        ∃ i < n + es.length, l.take i = L.take i ∧ l[i]? ≠ L[i]?) := by
  induction es generalizing n with
  | nil =>
    rw [append_nil] at hes
    refine Or.inl ⟨rfl, ?_, hn⟩
    have h := take_eq_of_isPrefix hes (Nat.le_refl _)
    rwa [take_length, length_take, Nat.min_eq_left hn] at h
  | cons e es ih =>
    have hlen : (l.take n).length = n := by rw [length_take, Nat.min_eq_left hn]
    have hagree : l.take n = L.take n := by
      have h := take_eq_of_isPrefix ((prefix_append _ _).trans hes) (Nat.le_refl _)
      rwa [take_length, hlen] at h
    have hat : L[n]? = some e := by
      refine getElem?_of_isPrefix hes ?_
      rw [getElem?_append_right (by omega), hlen, Nat.sub_self]
      rfl
    -- from a conflict on, the log is the leader's as far as it was sent
    have hcut : merge term (l.take n ++ [e]) (n + 1) es = L.take (n + (e :: es).length) := by
      have h := merge_at_end term es (l.take n ++ [e])
      rw [length_append, hlen, length_singleton] at h
      rw [h, append_assoc, singleton_append]
      have h2 := take_eq_of_isPrefix hes (Nat.le_refl _)
      rwa [take_length, length_append, hlen] at h2
    cases hd : l[n]? with
    | none =>
      have hend : l.take n = l := take_of_length_le (by simpa using hd)
      refine Or.inr ⟨?_, n, by simp, hagree, by simp [hd, hat]⟩
      rw [merge, hd]
      rw [hend] at hcut
      exact hcut
    | some d =>
      rw [merge, hd]
      by_cases hterm : term d = term e
      · have hstep : l.take (n + 1) = L.take (n + 1) := hmatch n d e hd hat hterm
        have hmore : l.take (n + 1) ++ es <+: L := by
          rw [hstep, take_add_one, hat, ← hagree]
          simpa using hes
        simp only [hterm, if_true]
        rw [length_cons, Nat.add_comm es.length, ← Nat.add_assoc]
        exact ih (List.getElem?_eq_some_iff.mp hd).1 hmore
      · simp only [hterm, if_false]
        refine Or.inr ⟨hcut, n, by simp, hagree, ?_⟩
        rw [hd, hat]
        intro h
        cases h
        exact hterm rfl

theorem merge_take_of_agree (hagree : l.take k = L.take k) :
    (merge term l n es).take k = l.take k := by
  rcases merge_cases hmatch hn hes with ⟨h, -, -⟩ | ⟨h, i, hi, -, hne⟩
  · rw [h]
  · have hki : k ≤ i := by
      by_contra hlt
      exact hne (getElem?_eq_of_take_eq hagree (by omega))
    rw [h, take_take, Nat.min_eq_left (by omega), hagree]

theorem merge_agrees : (merge term l n es).take (n + es.length) = L.take (n + es.length) := by
  rcases merge_cases hmatch hn hes with ⟨h, h2, -⟩ | ⟨h, -⟩
  · rw [h, h2]
  · rw [h, take_take, Nat.min_self]

end

end ReplicatedLog
