import AionDb.LibLog
import AionDb.LibQuorum

/-!
# Consensus on a log through elected leaders

Parties raise terms, stand and vote in them, and hold logs. A candidate with a
majority leads its term: the others take in stretches of its log, and what a
majority has acknowledged may be committed. The state keeps, beside what each
party has, the history the arguments are about: the votes with the log they
were given with (`ballot`), the election of each term (`elect`), the leader's
log of each term as far as it has grown (`lead`), and the acknowledgements.

Messages are not part of the state. A request of a term is a stretch of the
leader's log, and that log only grows, so a request that was right once stays
right however late it arrives.
-/

namespace Consensus

open ReplicatedLog Function List

variable {ν ε : Type*}

structure Election (ν ε : Type*) where
  leader : ν
  log : List ε
  voters : Finset ν

structure State (ν ε : Type*) where
  term : ν → Nat
  log : ν → List ε
  commit : ν → Nat
  ballot : ν → Nat → Option (ν × List ε)
  elect : Nat → Option (Election ν ε)
  lead : Nat → List ε
  acked : ν → Nat → Nat → Prop

def Majority (members Q : Finset ν) : Prop := Q ⊆ members ∧ Quorum.size members.card ≤ Q.card

/-- A majority has acknowledged the first `k` entries of the leader of term `T`,
the last of which is of that term. -/
structure Chosen (τ : ε → Nat) (members : Finset ν) (s : State ν ε) (T k : Nat) : Prop where
  own : ∃ i e, k = i + 1 ∧ (s.lead T)[i]? = some e ∧ τ e = T
  stored : ∃ Q, Majority members Q ∧ ∀ v ∈ Q, ∃ j, k ≤ j ∧ s.acked v T j

def Covered (τ : ε → Nat) (members : Finset ν) (s : State ν ε) (T c : Nat) : Prop :=
  c = 0 ∨ ∃ T' k, T' ≤ T ∧ c ≤ k ∧ Chosen τ members s T' k

/-! ## Steps -/

section
variable [DecidableEq ν] (τ : ε → Nat) (s : State ν ε)

namespace State

def raise (v : ν) (t : Nat) : State ν ε := { s with term := update s.term v t }

def cast (v c : ν) (t : Nat) : State ν ε :=
  { s with ballot := update s.ballot v (update (s.ballot v) t (some (c, s.log v))) }

def crown (n : ν) (Q : Finset ν) : State ν ε :=
  { s with elect := update s.elect (s.term n) (some ⟨n, s.log n, Q⟩)
           lead := update s.lead (s.term n) (s.log n) }

def extend (n : ν) (e : ε) : State ν ε :=
  { s with log := update s.log n (s.log n ++ [e])
           lead := update s.lead (s.term n) (s.log n ++ [e]) }

def receive (v : ν) (p : Nat) (es : List ε) : State ν ε :=
  { s with log := update s.log v (merge τ (s.log v) p es) }

def ack (v : ν) (j : Nat) : State ν ε :=
  { s with acked := fun w T i => s.acked w T i ∨ w = v ∧ T = s.term v ∧ i = j }

def commitTo (v : ν) (k : Nat) : State ν ε := { s with commit := update s.commit v k }

end State

inductive Step (members : Finset ν) : State ν ε → State ν ε → Prop
  | raise {s : State ν ε} {v : ν} {t : Nat} (hlt : s.term v < t) : Step members s (s.raise v t)
  | stand {s : State ν ε} {v : ν} (hpos : 0 < s.term v) (hold : ∀ e ∈ s.log v, τ e < s.term v)
      (hfree : s.ballot v (s.term v) = none) : Step members s (s.cast v v (s.term v))
  | vote {s : State ν ε} {v c : ν} {l : List ε} (hfree : s.ballot v (s.term v) = none)
      (hstood : s.ballot c (s.term v) = some (c, l)) (hlog : UpToDate τ (s.log v) l) :
      Step members s (s.cast v c (s.term v))
  | crown {s : State ν ε} {n : ν} {Q : Finset ν} {l : List ε} (hfirst : s.elect (s.term n) = none)
      (hstood : s.ballot n (s.term n) = some (n, l)) (hQ : Majority members Q)
      (hvotes : ∀ v ∈ Q, ∃ l, s.ballot v (s.term n) = some (n, l)) :
      Step members s (s.crown n Q)
  | extend {s : State ν ε} {n : ν} {E : Election ν ε} {e : ε} (hE : s.elect (s.term n) = some E)
      (hlead : E.leader = n) (he : τ e = s.term n) : Step members s (s.extend n e)
  | receive {s : State ν ε} {v : ν} {p : Nat} {es : List ε} {E : Election ν ε}
      (hE : s.elect (s.term v) = some E) (hp : p ≤ (s.log v).length)
      (hes : (s.log v).take p ++ es <+: s.lead (s.term v)) : Step members s (s.receive τ v p es)
  | ack {s : State ν ε} {v : ν} {j : Nat} {E : Election ν ε} (hE : s.elect (s.term v) = some E)
      (hj : j ≤ (s.log v).length) (hpre : (s.log v).take j <+: s.lead (s.term v)) :
      Step members s (s.ack v j)
  | commit {s : State ν ε} {v : ν} {c : Nat} {E : Election ν ε} (hE : s.elect (s.term v) = some E)
      (hup : s.commit v ≤ c) (hc : c ≤ (s.log v).length)
      (hpre : (s.log v).take c <+: s.lead (s.term v))
      (hcov : Covered τ members s (s.term v) c) : Step members s (s.commitTo v c)

end

/-! ## Elections and logs -/

structure Inv (τ : ε → Nat) (members : Finset ν) (s : State ν ε) : Prop where
  ballot_le : ∀ v T b, s.ballot v T = some b → T ≤ s.term v
  ballot_stood : ∀ v T c l, s.ballot v T = some (c, l) →
    ∃ l', s.ballot c T = some (c, l') ∧ UpToDate τ l l'
  stood_old : ∀ c T l, s.ballot c T = some (c, l) → 0 < T ∧ ∀ e ∈ l, τ e < T
  voters : ∀ T E, s.elect T = some E →
    Majority members E.voters ∧ ∀ v ∈ E.voters, ∃ l, s.ballot v T = some (E.leader, l)
  stood : ∀ T E, s.elect T = some E → s.ballot E.leader T = some (E.leader, E.log)
  unled : ∀ T, s.elect T = none → s.lead T = []
  /-- The leader's log is the one it was elected with, and entries of its term. -/
  founded : ∀ T E, s.elect T = some E → ∃ own, s.lead T = E.log ++ own ∧ ∀ e ∈ own, τ e = T
  own : ∀ T E, s.elect T = some E → s.term E.leader = T → s.log E.leader = s.lead T
  waiting : ∀ c T l, s.ballot c T = some (c, l) → s.term c = T → s.elect T = none → s.log c = l
  grounded : ∀ v, Grounded τ s.lead (s.log v)
  lead_grounded : ∀ T, Grounded τ s.lead (s.lead T)
  ballot_grounded : ∀ v T c l, s.ballot v T = some (c, l) → Grounded τ s.lead l
  sorted : ∀ v, Sorted τ (s.log v)
  lead_sorted : ∀ T, Sorted τ (s.lead T)
  ballot_sorted : ∀ v T c l, s.ballot v T = some (c, l) → Sorted τ l
  le_term : ∀ v, ∀ e ∈ s.log v, τ e ≤ s.term v

def State.init (ν ε : Type*) : State ν ε where
  term _ := 0
  log _ := []
  commit _ := 0
  ballot _ _ := none
  elect _ := none
  lead _ := []
  acked _ _ _ := False

variable {τ : ε → Nat} {members : Finset ν} {s s' : State ν ε}

theorem inv_init : Inv τ members (State.init ν ε) where
  ballot_le := nofun
  ballot_stood := nofun
  stood_old := nofun
  voters := nofun
  stood := nofun
  unled _ _ := rfl
  founded := nofun
  own := nofun
  waiting := nofun
  grounded _ := .nil
  lead_grounded _ := .nil
  ballot_grounded := nofun
  sorted _ := List.Pairwise.nil
  lead_sorted _ := List.Pairwise.nil
  ballot_sorted := nofun
  le_term := nofun

theorem UpToDate.refl (l : List ε) : UpToDate τ l l := Or.inr ⟨rfl, Nat.le_refl _⟩

structure Grows (s s' : State ν ε) : Prop where
  term : ∀ v, s.term v ≤ s'.term v
  ballot : ∀ v T b, s.ballot v T = some b → s'.ballot v T = some b
  elect : ∀ T E, s.elect T = some E → s'.elect T = some E
  lead : ∀ T, s.lead T <+: s'.lead T
  acked : ∀ v T j, s.acked v T j → s'.acked v T j

theorem Grows.refl (s : State ν ε) : Grows s s :=
  ⟨fun _ => Nat.le_refl _, fun _ _ _ h => h, fun _ _ h => h, fun _ => prefix_refl _,
    fun _ _ _ h => h⟩

theorem Grows.trans {s₁ s₂ s₃ : State ν ε} (h : Grows s₁ s₂) (h' : Grows s₂ s₃) : Grows s₁ s₃ :=
  ⟨fun v => (h.term v).trans (h'.term v), fun v T b hb => h'.ballot v T b (h.ballot v T b hb),
    fun T E hE => h'.elect T E (h.elect T E hE), fun T => (h.lead T).trans (h'.lead T),
    fun v T j ha => h'.acked v T j (h.acked v T j ha)⟩

section

variable [DecidableEq ν] {v c : ν} {t : Nat}

theorem Grows.raise (hlt : s.term v < t) : Grows s (s.raise v t) where
  __ := Grows.refl s
  term := (forall_update_iff s.term fun w => (s.term w ≤ ·)).mpr
    ⟨Nat.le_of_lt hlt, fun _ _ => Nat.le_refl _⟩

theorem Grows.cast (hfree : s.ballot v t = none) : Grows s (s.cast v c t) where
  __ := Grows.refl s
  ballot := (forall_update_iff s.ballot fun w x => ∀ T b, s.ballot w T = some b → x T = some b).mpr
    ⟨(forall_update_iff (s.ballot v) fun T x => ∀ b, s.ballot v T = some b → x = some b).mpr
      ⟨fun _ hb => (nomatch hfree.symm.trans hb), fun _ _ _ h => h⟩, fun _ _ _ _ h => h⟩

end

namespace Inv

variable (hi : Inv τ members s)
include hi

variable {T t : Nat} {Q : Finset ν} {E : Election ν ε} {e : ε} {v : ν}

theorem isPrefix_lead (hE : s.elect T = some E) : E.log <+: s.lead T := by
  obtain ⟨own, h, -⟩ := hi.founded T E hE
  exact h ▸ prefix_append ..

theorem exists_elect (he : e ∈ s.log v) : ∃ E, s.elect (τ e) = some E := by
  obtain ⟨i, hi'⟩ := getElem?_of_mem he
  cases hE : s.elect (τ e) with
  | some E => exact ⟨E, rfl⟩
  | none =>
    have hpre := hi.grounded v i e hi'
    rw [hi.unled _ hE, prefix_nil] at hpre
    have hlen := length_take_of_getElem? hi'
    rw [hpre] at hlen
    cases hlen

theorem elect_pos (hE : s.elect T = some E) : 0 < T :=
  (hi.stood_old _ _ _ (hi.stood T E hE)).1

theorem term_pos (he : e ∈ s.log v) : 0 < τ e := by
  obtain ⟨E, hE⟩ := hi.exists_elect he
  exact hi.elect_pos hE

theorem matching (v w : ν) : Matching τ (s.log v) (s.log w) :=
  (hi.grounded v).matching (hi.grounded w)

theorem lead_matching (v : ν) (T : Nat) : Matching τ (s.log v) (s.lead T) :=
  (hi.grounded v).matching (hi.lead_grounded T)

theorem leader_unique [DecidableEq ν] (hE : s.elect T = some E) {n : ν} (hQ : Majority members Q)
    (hvotes : ∀ v ∈ Q, ∃ l, s.ballot v T = some (n, l)) : E.leader = n := by
  obtain ⟨hmaj, hE⟩ := hi.voters T E hE
  refine Quorum.unique_winner (fun v c => ∃ l, s.ballot v T = some (c, l)) (Nat.le_refl _)
    hmaj.1 hQ.1 hmaj.2 hQ.2 ?_ hE hvotes
  rintro v c d ⟨l, hl⟩ ⟨l', hl'⟩
  rw [hl] at hl'
  cases hl'
  rfl

theorem lead_le (hE : s.elect T = some E) (he : e ∈ s.lead T) : τ e ≤ T := by
  obtain ⟨own, hlead, hown⟩ := hi.founded T E hE
  rw [hlead] at he
  rcases mem_append.mp he with he | he
  · exact Nat.le_of_lt ((hi.stood_old _ _ _ (hi.stood T E hE)).2 e he)
  · exact Nat.le_of_eq (hown e he)

theorem log_leader {n : ν} (hE : s.elect (s.term n) = some E) (hn : E.leader = n) :
    s.log n = s.lead (s.term n) := by
  subst hn
  exact hi.own _ E hE rfl

theorem grows_crown {n : ν} (hfirst : s.elect (s.term n) = none) : Grows s (s.crown n Q) where
  __ := Grows.refl s
  elect := (forall_update_iff s.elect fun T x => ∀ E, s.elect T = some E → x = some E).mpr
    ⟨fun _ hE => (nomatch hfirst.symm.trans hE), fun _ _ _ h => h⟩
  lead := (forall_update_iff s.lead fun T => (s.lead T <+: ·)).mpr
    ⟨hi.unled _ hfirst ▸ nil_prefix, fun _ _ => prefix_refl _⟩

/-! ### Every step keeps them -/

theorem crown {n : ν} {l : List ε} (hfirst : s.elect (s.term n) = none)
    (hstood : s.ballot n (s.term n) = some (n, l)) (hQ : Majority members Q)
    (hvotes : ∀ v ∈ Q, ∃ l, s.ballot v (s.term n) = some (n, l)) :
    Inv τ members (s.crown n Q) := by
  have hlog : s.log n = l := hi.waiting n _ l hstood rfl hfirst
  have hgrow := (hi.grows_crown (Q := Q) hfirst).lead
  have helect : ∀ {T E}, (s.crown n Q).elect T = some E →
      T = s.term n ∧ E = ⟨n, s.log n, Q⟩ ∨ T ≠ s.term n ∧ s.elect T = some E := by
    intro T E hE
    simp only [State.crown, update_apply] at hE
    split at hE
    · next hT => exact Or.inl ⟨hT, (Option.some.inj hE).symm⟩
    · next hT => exact Or.inr ⟨hT, hE⟩
  have hlead : ∀ {T}, T ≠ s.term n → (s.crown n Q).lead T = s.lead T := fun hT => by
    simp only [State.crown, update_of_ne hT]
  have hlead_self : (s.crown n Q).lead (s.term n) = s.log n := by
    simp only [State.crown, update_self]
  exact {
    hi with
    voters := by
      intro T E hE
      rcases helect hE with ⟨rfl, rfl⟩ | ⟨-, hE⟩
      · exact ⟨hQ, hvotes⟩
      · exact hi.voters T E hE
    stood := by
      intro T E hE
      rcases helect hE with ⟨rfl, rfl⟩ | ⟨-, hE⟩
      · show s.ballot n _ = some (n, s.log n)
        rw [hlog]
        exact hstood
      · exact hi.stood T E hE
    unled := by
      intro T hE
      simp only [State.crown, update_apply] at hE ⊢
      split at hE
      · cases hE
      · next hT => rw [if_neg hT]; exact hi.unled T hE
    founded := by
      intro T E hE
      rcases helect hE with ⟨rfl, rfl⟩ | ⟨hT, hE⟩
      · exact ⟨[], by rw [hlead_self, append_nil], nofun⟩
      · rw [hlead hT]
        exact hi.founded T E hE
    own := by
      intro T E hE ht
      rcases helect hE with ⟨rfl, rfl⟩ | ⟨hT, hE⟩
      · exact hlead_self.symm
      · rw [hlead hT]
        exact hi.own T E hE ht
    waiting := by
      intro c T l' hb ht hE
      simp only [State.crown, update_apply] at hE
      split at hE
      · cases hE
      · exact hi.waiting c T l' hb ht hE
    grounded := fun v => (hi.grounded v).mono hgrow
    lead_grounded := (forall_update_iff s.lead fun _ => Grounded τ _).mpr
      ⟨(hi.grounded n).mono hgrow, fun T _ => (hi.lead_grounded T).mono hgrow⟩
    ballot_grounded := fun v T c l hb => (hi.ballot_grounded v T c l hb).mono hgrow
    lead_sorted := (forall_update_iff s.lead fun _ => Sorted τ).mpr
      ⟨hi.sorted n, fun T _ => hi.lead_sorted T⟩ }

variable [DecidableEq ν]

theorem raise (hlt : s.term v < t) : Inv τ members (s.raise v t) where
  __ := hi
  ballot_le w T b hb := (hi.ballot_le w T b hb).trans ((Grows.raise hlt).term w)
  own T E hE ht := by
    simp only [State.raise, update_apply] at ht
    split at ht
    · next heq =>
      have h := hi.ballot_le _ _ _ (hi.stood T E hE)
      rw [heq] at h
      omega
    · exact hi.own T E hE ht
  waiting c T l hb ht hE := by
    simp only [State.raise, update_apply] at ht
    split at ht
    · next heq =>
      have h := hi.ballot_le _ _ _ hb
      rw [heq] at h
      omega
    · exact hi.waiting c T l hb ht hE
  le_term w e he := (hi.le_term w e he).trans ((Grows.raise hlt).term w)

omit hi [DecidableEq ν] in
inductive MayCast (τ : ε → Nat) (s : State ν ε) (v : ν) (t : Nat) : ν → Prop
  | own (hpos : 0 < t) (hold : ∀ e ∈ s.log v, τ e < t) : MayCast τ s v t v
  | other {c : ν} {l : List ε} (hstood : s.ballot c t = some (c, l))
      (hlog : UpToDate τ (s.log v) l) : MayCast τ s v t c

theorem cast {c : ν} (ht : s.term v = t) (hfree : s.ballot v t = none) (hmay : MayCast τ s v t c) :
    Inv τ members (s.cast v c t) := by
  have hcases : ∀ {w T b}, (s.cast v c t).ballot w T = some b →
      w = v ∧ T = t ∧ b = (c, s.log v) ∨ s.ballot w T = some b := by
    intro w T b hb
    simp only [State.cast, update_apply] at hb
    split at hb
    · next hw =>
      rw [update_apply] at hb
      split at hb
      · next hT => exact Or.inl ⟨hw, hT, (Option.some.inj hb).symm⟩
      · exact Or.inr (hw ▸ hb)
    · exact Or.inr hb
  have hmono : ∀ {w T b}, s.ballot w T = some b → (s.cast v c t).ballot w T = some b :=
    (Grows.cast hfree).ballot _ _ _
  have hnew : (s.cast v c t).ballot v t = some (c, s.log v) := by
    simp only [State.cast, update_self]
  exact {
    hi with
    ballot_le := by
      intro w T b hb
      rcases hcases hb with ⟨rfl, rfl, -⟩ | hb
      · exact Nat.le_of_eq ht.symm
      · exact hi.ballot_le w T b hb
    ballot_stood := by
      intro w T d l hb
      rcases hcases hb with ⟨rfl, rfl, hdl⟩ | hb
      · cases hdl
        cases hmay with
        | own => exact ⟨_, hnew, UpToDate.refl _⟩
        | other hstood hlog => exact ⟨_, hmono hstood, hlog⟩
      · obtain ⟨l', h, hlog⟩ := hi.ballot_stood w T d l hb
        exact ⟨l', hmono h, hlog⟩
    stood_old := by
      intro d T l hb
      rcases hcases hb with ⟨rfl, rfl, hdl⟩ | hb
      · cases hdl
        cases hmay with
        | own hpos hold => exact ⟨hpos, hold⟩
        | other hstood _ => rw [hfree] at hstood; cases hstood
      · exact hi.stood_old d T l hb
    voters := fun T E hE => ⟨(hi.voters T E hE).1, fun w hw => by
      obtain ⟨l, hl⟩ := (hi.voters T E hE).2 w hw
      exact ⟨l, hmono hl⟩⟩
    stood := fun T E hE => hmono (hi.stood T E hE)
    waiting := by
      intro d T l hb hterm hE
      rcases hcases hb with ⟨rfl, rfl, hdl⟩ | hb
      · cases hdl
        rfl
      · exact hi.waiting d T l hb hterm hE
    ballot_grounded := by
      intro w T d l hb
      rcases hcases hb with ⟨rfl, rfl, hdl⟩ | hb
      · cases hdl
        exact hi.grounded w
      · exact hi.ballot_grounded w T d l hb
    ballot_sorted := by
      intro w T d l hb
      rcases hcases hb with ⟨rfl, rfl, hdl⟩ | hb
      · cases hdl
        exact hi.sorted w
      · exact hi.ballot_sorted w T d l hb }

theorem grows_extend {n : ν} (hE : s.elect (s.term n) = some E) (hn : E.leader = n) :
    Grows s (s.extend n e) where
  __ := Grows.refl s
  lead := (forall_update_iff s.lead fun T => (s.lead T <+: ·)).mpr
    ⟨hi.log_leader hE hn ▸ prefix_append .., fun _ _ => prefix_refl _⟩

theorem extend {n : ν} (hE : s.elect (s.term n) = some E) (hn : E.leader = n)
    (he : τ e = s.term n) : Inv τ members (s.extend n e) := by
  have hown := hi.log_leader hE hn
  have hlead : ∀ {T}, T ≠ s.term n → (s.extend n e).lead T = s.lead T := fun hT => by
    simp only [State.extend, update_of_ne hT]
  have hlead_self : (s.extend n e).lead (s.term n) = s.log n ++ [e] := by
    simp only [State.extend, update_self]
  have hlog : ∀ {v}, v ≠ n → (s.extend n e).log v = s.log v := fun hv => by
    simp only [State.extend, update_of_ne hv]
  have hlog_self : (s.extend n e).log n = s.log n ++ [e] := by
    simp only [State.extend, update_self]
  have hgrow := (hi.grows_extend (e := e) hE hn).lead
  have hground : Grounded τ (s.extend n e).lead (s.log n ++ [e]) :=
    ((hi.grounded n).mono hgrow).snoc (by rw [he, hlead_self])
  have hsorted : Sorted τ (s.log n ++ [e]) :=
    (hi.sorted n).snoc fun d hd => he ▸ hi.le_term n d hd
  exact {
    hi with
    unled := by
      intro T hT
      by_cases heq : T = s.term n
      · subst heq
        cases hE.symm.trans hT
      · rw [hlead heq]
        exact hi.unled T hT
    founded := by
      intro T E' hE'
      by_cases heq : T = s.term n
      · subst heq
        obtain ⟨own, h, hown'⟩ := hi.founded _ E' hE'
        refine ⟨own ++ [e], by rw [hlead_self, hown, h, append_assoc], fun d hd => ?_⟩
        rcases mem_append.mp hd with hd | hd
        · exact hown' d hd
        · rw [mem_singleton.mp hd, he]
      · rw [hlead heq]
        exact hi.founded T E' hE'
    own := by
      intro T E' hE' ht
      by_cases heq : E'.leader = n
      · have hT : T = s.term n := by rw [← ht, heq]; rfl
        rw [heq, hlog_self, hT, hlead_self]
      have hT : T ≠ s.term n := by
        rintro rfl
        cases hE.symm.trans hE'
        exact heq hn
      rw [hlog heq, hlead hT]
      exact hi.own T E' hE' ht
    waiting := by
      intro c T l hb ht hnone
      by_cases hc : c = n
      · subst hc
        subst ht
        cases hE.symm.trans hnone
      · rw [hlog hc]
        exact hi.waiting c T l hb ht hnone
    grounded := (forall_update_iff s.log fun _ => Grounded τ _).mpr
      ⟨hground, fun v _ => (hi.grounded v).mono hgrow⟩
    lead_grounded := (forall_update_iff s.lead fun _ => Grounded τ _).mpr
      ⟨hground, fun T _ => (hi.lead_grounded T).mono hgrow⟩
    ballot_grounded := fun v T c l hb => (hi.ballot_grounded v T c l hb).mono hgrow
    sorted := (forall_update_iff s.log fun _ => Sorted τ).mpr ⟨hsorted, fun v _ => hi.sorted v⟩
    lead_sorted := (forall_update_iff s.lead fun _ => Sorted τ).mpr
      ⟨hsorted, fun T _ => hi.lead_sorted T⟩
    le_term := by
      refine (forall_update_iff s.log fun v l => ∀ d ∈ l, τ d ≤ s.term v).mpr
        ⟨fun d hd => ?_, fun v _ => hi.le_term v⟩
      rcases mem_append.mp hd with hd | hd
      · exact hi.le_term n d hd
      · rw [mem_singleton.mp hd]
        exact Nat.le_of_eq he }

theorem receive {p : Nat} {es : List ε} (hE : s.elect (s.term v) = some E)
    (hp : p ≤ (s.log v).length) (hes : (s.log v).take p ++ es <+: s.lead (s.term v)) :
    Inv τ members (s.receive τ v p es) := by
  have hcases := merge_cases (hi.lead_matching v (s.term v)) hp hes
  have hlog : ∀ {w}, w ≠ v → (s.receive τ v p es).log w = s.log w := fun hw => by
    simp only [State.receive, update_of_ne hw]
  have hlog_self : (s.receive τ v p es).log v = merge τ (s.log v) p es := by
    simp only [State.receive, update_self]
  -- the new log is the old one, or a beginning of the leader's
  have hsrc : merge τ (s.log v) p es = s.log v ∨ merge τ (s.log v) p es <+: s.lead (s.term v) := by
    rcases hcases with ⟨h, -⟩ | ⟨h, -⟩
    · exact Or.inl h
    · exact Or.inr (h ▸ take_prefix ..)
  exact {
    hi with
    own := by
      intro T E' hE' ht
      by_cases hv : E'.leader = v
      · have hT : s.term v = T := hv ▸ ht
        have hown : s.log v = s.lead T := hv ▸ hi.own T E' hE' (hv ▸ hT)
        rcases hcases with ⟨h, -⟩ | ⟨-, i, -, -, hne⟩
        · rw [hv, hlog_self, h, hown]
          rfl
        · rw [hT, hown] at hne
          exact absurd rfl hne
      · rw [hlog hv]
        exact hi.own T E' hE' ht
    waiting := by
      intro c T l hb ht hnone
      by_cases hc : c = v
      · subst hc
        subst ht
        cases hE.symm.trans hnone
      · rw [hlog hc]
        exact hi.waiting c T l hb ht hnone
    grounded := by
      refine (forall_update_iff s.log fun _ => Grounded τ _).mpr ⟨?_, fun w _ => hi.grounded w⟩
      rcases hsrc with h | h
      · rw [h]
        exact hi.grounded v
      · exact (hi.lead_grounded _).of_isPrefix h
    sorted := by
      refine (forall_update_iff s.log fun _ => Sorted τ).mpr ⟨?_, fun w _ => hi.sorted w⟩
      rcases hsrc with h | h
      · rw [h]
        exact hi.sorted v
      · exact (hi.lead_sorted _).of_isPrefix h
    le_term := by
      refine (forall_update_iff s.log fun w l => ∀ d ∈ l, τ d ≤ s.term w).mpr
        ⟨fun d hd => ?_, fun w _ => hi.le_term w⟩
      rcases hsrc with h | h
      · exact hi.le_term v d (h ▸ hd)
      · exact hi.lead_le hE (h.subset hd) }

theorem step (hstep : Step τ members s s') : Inv τ members s' := by
  cases hstep with
  | raise hlt => exact hi.raise hlt
  | stand hpos hold hfree => exact hi.cast rfl hfree (.own hpos hold)
  | vote hfree hstood hlog => exact hi.cast rfl hfree (.other hstood hlog)
  | crown hfirst hstood hQ hvotes => exact hi.crown hfirst hstood hQ hvotes
  | extend hE hlead he => exact hi.extend hE hlead he
  | receive hE hp hes => exact hi.receive hE hp hes
  | ack hE hj hpre | commit hE hup hc hpre hcov => exact { hi with }

end Inv

/-! ## Runs of one party -/

structure Frame (n : ν) (s s' : State ν ε) : Prop where
  term : ∀ m, m ≠ n → s'.term m = s.term m
  log : ∀ m, m ≠ n → s'.log m = s.log m
  commit : ∀ m, m ≠ n → s'.commit m = s.commit m
  ballot : ∀ m, m ≠ n → s'.ballot m = s.ballot m

theorem Frame.refl (n : ν) (s : State ν ε) : Frame n s s :=
  ⟨fun _ _ => rfl, fun _ _ => rfl, fun _ _ => rfl, fun _ _ => rfl⟩

theorem Frame.trans {n : ν} {s₁ s₂ s₃ : State ν ε} (h : Frame n s₁ s₂) (h' : Frame n s₂ s₃) :
    Frame n s₁ s₃ :=
  ⟨fun m hm => (h'.term m hm).trans (h.term m hm), fun m hm => (h'.log m hm).trans (h.log m hm),
    fun m hm => (h'.commit m hm).trans (h.commit m hm),
    fun m hm => (h'.ballot m hm).trans (h.ballot m hm)⟩

variable [DecidableEq ν]

theorem Inv.grows (hi : Inv τ members s) (hstep : Step τ members s s') : Grows s s' := by
  cases hstep with
  | raise hlt => exact .raise hlt
  | stand _ _ hfree | vote hfree _ _ => exact .cast hfree
  | crown hfirst _ _ _ => exact hi.grows_crown hfirst
  | extend hE hn _ => exact hi.grows_extend hE hn
  | receive | commit => exact { Grows.refl s with }
  | ack => exact { Grows.refl s with acked := fun _ _ _ h => Or.inl h }

inductive Path (τ : ε → Nat) (members : Finset ν) (n : ν) (s : State ν ε) : State ν ε → Prop
  | refl : Path τ members n s s
  | tail {s₁ s₂ : State ν ε} (hpath : Path τ members n s s₁) (hstep : Step τ members s₁ s₂)
      (hframe : Frame n s₁ s₂) : Path τ members n s s₂

namespace Path

variable {n : ν}

theorem trans {s₁ s₂ s₃ : State ν ε} (h : Path τ members n s₁ s₂) (h' : Path τ members n s₂ s₃) :
    Path τ members n s₁ s₃ := by
  induction h' with
  | refl => exact h
  | tail _ hstep hframe ih => exact ih.tail hstep hframe

theorem frame (h : Path τ members n s s') : Frame n s s' := by
  induction h with
  | refl => exact .refl n s
  | tail _ _ hframe ih => exact ih.trans hframe

theorem inv (h : Path τ members n s s') (hi : Inv τ members s) : Inv τ members s' := by
  induction h with
  | refl => exact hi
  | tail _ hstep _ ih => exact ih.step hstep

theorem grows (h : Path τ members n s s') (hi : Inv τ members s) : Grows s s' := by
  induction h with
  | refl => exact .refl s
  | tail hpath hstep _ ih => exact ih.trans ((hpath.inv hi).grows hstep)

end Path

/-! Each step changes only the party it is taken by. -/

section
variable {n : ν}

theorem frame_raise (t : Nat) : Frame n s (s.raise n t) :=
  { Frame.refl n s with term := fun m hm => by simp only [State.raise, update_of_ne hm] }

theorem frame_cast (c : ν) (t : Nat) : Frame n s (s.cast n c t) :=
  { Frame.refl n s with ballot := fun m hm => by simp only [State.cast, update_of_ne hm] }

omit [DecidableEq ν] in
theorem frame_crown (Q : Finset ν) : Frame n s (s.crown n Q) := { Frame.refl n s with }

theorem frame_extend (e : ε) : Frame n s (s.extend n e) :=
  { Frame.refl n s with log := fun m hm => by simp only [State.extend, update_of_ne hm] }

theorem frame_receive (p : Nat) (es : List ε) : Frame n s (s.receive τ n p es) :=
  { Frame.refl n s with log := fun m hm => by simp only [State.receive, update_of_ne hm] }

omit [DecidableEq ν] in
theorem frame_ack (j : Nat) : Frame n s (s.ack n j) := { Frame.refl n s with }

theorem frame_commitTo (k : Nat) : Frame n s (s.commitTo n k) :=
  { Frame.refl n s with
    commit := fun m hm => by simp only [State.commitTo, update_of_ne hm] }

end

end Consensus
