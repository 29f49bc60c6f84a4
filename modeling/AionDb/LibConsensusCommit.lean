import AionDb.LibConsensus

/-!
# What is chosen stays

`Acks` says what an acknowledgement is worth. A party that has acknowledged
entries of the leader of `T` holds them as long as every leader it may have
followed since was elected with them (`kept`), and so does the log it votes with
(`voted`). An election of a later term shares a voter with the majority behind
a chosen entry; by induction on the term that voter voted with the entry, and
the winner's log was at least as good as the voter's. So every later leader
has the entry, the condition of `kept` is met, and it is not lost.
-/

namespace Consensus

open ReplicatedLog Function List

variable {ν ε : Type*} {τ : ε → Nat} {members : Finset ν} {s s' : State ν ε}

/-- Every leader after `T` and before `U` was elected with the first `k` entries of `T`. -/
def Later (s : State ν ε) (T k U : Nat) : Prop :=
  ∀ T' E, T < T' → T' < U → s.elect T' = some E → (s.lead T).take k <+: E.log

structure Acks (τ : ε → Nat) (members : Finset ν) (s : State ν ε) : Prop where
  acked_le : ∀ v T j, s.acked v T j → T ≤ s.term v
  acked_lead : ∀ v T j, s.acked v T j → (∃ E, s.elect T = some E) ∧ j ≤ (s.lead T).length
  kept : ∀ v T j k, s.acked v T j → k ≤ j → Later s T k (s.term v + 1) →
    (s.lead T).take k <+: s.log v
  /-- The voters are those whose votes made the leader, not the late ones. -/
  voted : ∀ v T j k U c l, s.acked v T j → k ≤ j → s.ballot v U = some (c, l) → T < U →
    (∀ E, s.elect U = some E → v ∈ E.voters) → Later s T k U → (s.lead T).take k <+: l
  committed : ∀ v, s.commit v ≤ (s.log v).length ∧ (s.commit v = 0 ∨
    ∃ T k, T ≤ s.term v ∧ s.commit v ≤ k ∧ Chosen τ members s T k ∧
      (s.log v).take (s.commit v) <+: s.lead T)

theorem acks_init : Acks τ members (State.init ν ε) where
  acked_le := nofun
  acked_lead := nofun
  kept := nofun
  voted := nofun
  committed _ := ⟨Nat.le_refl _, Or.inl rfl⟩

variable {T U k : Nat}

theorem Chosen.mono (h : Chosen τ members s T k) (hg : Grows s s') : Chosen τ members s' T k where
  own := by
    obtain ⟨i, e, hk, he, ht⟩ := h.own
    exact ⟨i, e, hk, getElem?_of_isPrefix (hg.lead T) he, ht⟩
  stored := by
    obtain ⟨Q, hQ, hj⟩ := h.stored
    refine ⟨Q, hQ, fun v hv => ?_⟩
    obtain ⟨j, hkj, ha⟩ := hj v hv
    exact ⟨j, hkj, hg.acked v T j ha⟩

theorem Covered.mono {T' c : Nat} (h : Covered τ members s T c) (hT : T ≤ T') (hg : Grows s s') :
    Covered τ members s' T' c := by
  rcases h with h | ⟨U, k, hU, hck, hch⟩
  · exact Or.inl h
  · exact Or.inr ⟨U, k, hU.trans hT, hck, hch.mono hg⟩

theorem Majority.nonempty {Q : Finset ν} (h : Majority members Q) : ∃ v, v ∈ Q := by
  refine Finset.card_pos.mp (Nat.lt_of_lt_of_le ?_ h.2)
  unfold Quorum.size
  omega

/-! ## Later leaders -/

theorem isPrefix_of_upToDate (hi : Inv τ members s) {l L : List ε} (hown : ∃ i e,
      k = i + 1 ∧ (s.lead T)[i]? = some e ∧ τ e = T)
    (hl : (s.lead T).take k <+: l) (hsorted : Sorted τ l) (hground : Grounded τ s.lead l)
    (hground' : Grounded τ s.lead L) (hold : ∀ e ∈ L, τ e < U) (hup : UpToDate τ l L)
    (hlater : Later s T k U) : (s.lead T).take k <+: L := by
  obtain ⟨i, e, rfl, he, ht⟩ := hown
  have hel : e ∈ l := by
    refine hl.subset (mem_of_getElem? (i := i) ?_)
    rw [getElem?_take_of_lt (Nat.lt_succ_self i), he]
  have hTl : T ≤ lastTerm τ l := ht ▸ hsorted.le_lastTerm hel
  have hne : l ≠ [] := ne_nil_of_mem hel
  have hLne : L ≠ [] := by
    rintro rfl
    have hlen := length_pos_iff.mpr hne
    rcases hup with h | ⟨-, h⟩
    · exact absurd h (Nat.not_lt_zero _)
    · rw [length_nil] at h
      omega
  have hLlead := hground'.isPrefix_lead hLne
  rcases hup with hlt | ⟨heq, hlen⟩
  · -- the last entry of `L` is of a leader in between, and lies above what it was elected with
    have hlast : τ (L.getLast hLne) = lastTerm τ L := by
      rw [lastTerm, getLast?_eq_some_getLast hLne]
      rfl
    have hlastU : lastTerm τ L < U := hlast ▸ hold _ (getLast_mem hLne)
    cases hE : s.elect (lastTerm τ L) with
    | none =>
      rw [hi.unled _ hE, prefix_nil] at hLlead
      exact absurd hLlead hLne
    | some E =>
      have hX := hlater _ E (by omega) hlastU hE
      rcases Nat.le_total L.length E.log.length with hle | hle
      · have hin : L.getLast hLne ∈ E.log :=
          (prefix_of_prefix_length_le hLlead (hi.isPrefix_lead hE) hle).subset (getLast_mem hLne)
        have := (hi.stood_old _ _ _ (hi.stood _ E hE)).2 _ hin
        omega
      · exact hX.trans (prefix_of_prefix_length_le (hi.isPrefix_lead hE) hLlead hle)
  · have hllead := hground.isPrefix_lead hne
    rw [heq] at hllead
    exact hl.trans (prefix_of_prefix_length_le hllead hLlead hlen)

theorem Acks.leader_complete (ha : Acks τ members s) (hi : Inv τ members s) [DecidableEq ν] (hch : Chosen τ members s T k) :
    ∀ U E, s.elect U = some E → T < U → (s.lead T).take k <+: E.log := by
  intro U
  induction U using Nat.strong_induction_on with
  | _ U ih =>
    intro E hE hTU
    obtain ⟨Q, hQ, hacks⟩ := hch.stored
    obtain ⟨hmaj, hvotes⟩ := hi.voters U E hE
    obtain ⟨v, hvQ, hvE⟩ := Quorum.exists_common (Nat.le_refl _) hQ.1 hmaj.1 hQ.2 hmaj.2
    obtain ⟨j, hkj, hack⟩ := hacks v hvQ
    obtain ⟨l, hballot⟩ := hvotes v hvE
    have hlater : Later s T k U := fun T' E' hT hU hE' => ih T' hU E' hE' hT
    have hv := ha.voted v T j k U _ l hack hkj hballot hTU
      (fun E' hE' => by cases hE.symm.trans hE'; exact hvE) hlater
    obtain ⟨l', hstood, hup⟩ := hi.ballot_stood v U _ l hballot
    have hleader := hi.stood U E hE
    cases hleader.symm.trans hstood
    exact isPrefix_of_upToDate hi hch.own hv (hi.ballot_sorted _ _ _ _ hballot)
      (hi.ballot_grounded _ _ _ _ hballot) (hi.ballot_grounded _ _ _ _ hleader)
      (hi.stood_old _ _ _ hleader).2 hup hlater

theorem Acks.isPrefix_lead (ha : Acks τ members s) (hi : Inv τ members s) [DecidableEq ν] {E : Election ν ε} (hch : Chosen τ members s T k) (hE : s.elect U = some E)
    (hTU : T ≤ U) : (s.lead T).take k <+: s.lead U := by
  rcases Nat.eq_or_lt_of_le hTU with rfl | hlt
  · exact take_prefix ..
  · exact (ha.leader_complete hi hch U E hE hlt).trans (hi.isPrefix_lead hE)

theorem Chosen.exists_elect (hch : Chosen τ members s T k) (ha : Acks τ members s) :
    ∃ E, s.elect T = some E := by
  obtain ⟨Q, hQ, hacks⟩ := hch.stored
  obtain ⟨v, hv⟩ := hQ.nonempty
  obtain ⟨j, -, hack⟩ := hacks v hv
  exact (ha.acked_lead v T j hack).1

theorem Acks.agree (ha : Acks τ members s) (hi : Inv τ members s) [DecidableEq ν] (v w : ν) {i : Nat}
    (hv : i < s.commit v) (hw : i < s.commit w) : (s.log v)[i]? = (s.log w)[i]? := by
  -- the committed beginning of a log is one of the leader of any later term
  have hkey : ∀ v w : ν, ∀ T T' k k', T ≤ T' → Chosen τ members s T k → Chosen τ members s T' k' →
      s.commit v ≤ k → (s.log v).take (s.commit v) <+: s.lead T →
      (s.log w).take (s.commit w) <+: s.lead T' → i < s.commit v → i < s.commit w →
      (s.log v)[i]? = (s.log w)[i]? := by
    intro v w T T' k k' hTT' hch hch' hk hpre hpre' hv hw
    obtain ⟨E, hE⟩ := hch'.exists_elect ha
    have hcv := (ha.committed v).1
    have hcw := (ha.committed w).1
    have hlead := ha.isPrefix_lead hi hch hE hTT'
    have hv' : (s.log v).take (s.commit v) <+: (s.lead T).take k := by
      rw [prefix_take_iff]
      exact ⟨hpre, by rw [length_take]; omega⟩
    have h1 := getElem?_of_isPrefix (hv'.trans hlead) (i := i) (e := (s.log v)[i])
      (by rw [getElem?_take_of_lt hv, getElem?_eq_getElem])
    have h2 := getElem?_of_isPrefix hpre' (i := i) (e := (s.log w)[i])
      (by rw [getElem?_take_of_lt hw, getElem?_eq_getElem])
    rw [getElem?_eq_getElem (by omega), getElem?_eq_getElem (by omega), ← h1, ← h2]
  rcases (ha.committed v).2 with h0 | ⟨T, k, -, hk, hch, hpre⟩
  · omega
  rcases (ha.committed w).2 with h0 | ⟨T', k', -, hk', hch', hpre'⟩
  · omega
  rcases Nat.le_total T T' with h | h
  · exact hkey v w T T' k k' h hch hch' hk hpre hpre' hv hw
  · exact (hkey w v T' T k' k h hch' hch hk' hpre' hpre hw hv).symm

/-! ## Every step keeps them -/

namespace Acks

variable (ha : Acks τ members s)
include ha

variable {es : List ε} {E : Election ν ε} {T j k p t : Nat} {v : ν}

theorem take_lead_eq (hack : s.acked v T j) (hk : k ≤ j) (hg : Grows s s') :
    (s'.lead T).take k = (s.lead T).take k :=
  (take_eq_of_isPrefix (hg.lead T) (hk.trans (ha.acked_lead v T j hack).2)).symm

theorem later_of_grown {U : Nat} (hack : s.acked v T j) (hk : k ≤ j) (hg : Grows s s')
    (h : Later s' T k U) : Later s T k U := by
  intro T' E hT hU hE
  rw [← ha.take_lead_eq hack hk hg]
  exact h T' E hT hU (hg.elect T' E hE)

theorem committed_of_grows (hg : Grows s s') (v : ν) :
    s.commit v ≤ (s.log v).length ∧ (s.commit v = 0 ∨
      ∃ T k, T ≤ s'.term v ∧ s.commit v ≤ k ∧ Chosen τ members s' T k ∧
        (s.log v).take (s.commit v) <+: s'.lead T) := by
  refine ⟨(ha.committed v).1, (ha.committed v).2.imp id ?_⟩
  rintro ⟨T, k, hT, hk, hch, hpre⟩
  exact ⟨T, k, hT.trans (hg.term v), hk, hch.mono hg, hpre.trans (hg.lead T)⟩

/-- Leaders come and logs grow; nobody acknowledges, votes or commits. -/
theorem regrow {log : ν → List ε} {elect : Nat → Option (Election ν ε)} {lead : Nat → List ε}
    (hg : Grows s { s with log, elect, lead }) (hlog : ∀ v, s.log v <+: log v) :
    Acks τ members { s with log, elect, lead } where
  acked_le := ha.acked_le
  acked_lead v T j hack := by
    obtain ⟨⟨E, hE⟩, hj⟩ := ha.acked_lead v T j hack
    exact ⟨⟨E, hg.elect T E hE⟩, hj.trans (hg.lead T).length_le⟩
  kept v T j k hack hk hlater := by
    rw [ha.take_lead_eq hack hk hg]
    exact (ha.kept v T j k hack hk (ha.later_of_grown hack hk hg hlater)).trans (hlog v)
  voted v T j k U c l hack hk hb hTU hvoter hlater := by
    rw [ha.take_lead_eq hack hk hg]
    exact ha.voted v T j k U c l hack hk hb hTU (fun E hE => hvoter E (hg.elect U E hE))
      (ha.later_of_grown hack hk hg hlater)
  committed v := by
    obtain ⟨hle, hch⟩ := ha.committed_of_grows hg v
    refine ⟨hle.trans (hlog v).length_le, hch.imp id ?_⟩
    rintro ⟨T, k, hT, hk, hch, hpre⟩
    exact ⟨T, k, hT, hk, hch, take_eq_of_isPrefix (hlog v) hle ▸ hpre⟩

theorem crown {n : ν} {Q : Finset ν} (hi : Inv τ members s) (hfirst : s.elect (s.term n) = none) :
    Acks τ members (s.crown n Q) :=
  ha.regrow (hi.grows_crown hfirst) fun _ => prefix_refl _

variable [DecidableEq ν]

theorem raise (hlt : s.term v < t) : Acks τ members (s.raise v t) := by
  have hg := Grows.raise hlt
  exact {
    ha with
    acked_le := fun w T j hack => (ha.acked_le w T j hack).trans (hg.term w)
    kept := fun w T j k hack hk hlater => ha.kept w T j k hack hk fun T' E hT hU hE =>
      hlater T' E hT (hU.trans_le (Nat.succ_le_succ (hg.term w))) hE
    committed := ha.committed_of_grows hg }

theorem cast {c : ν} (hi : Inv τ members s) (ht : s.term v = t) (hfree : s.ballot v t = none) :
    Acks τ members (s.cast v c t) := by
  refine { ha with voted := ?_, committed := ha.committed_of_grows (.cast hfree) }
  intro w T j k U d l hack hk hb hTU hvoter hlater
  simp only [State.cast, update_apply] at hb
  split at hb
  · next hw =>
    subst hw
    rw [update_apply] at hb
    split at hb
    · next hU =>
      -- the log of the new vote is the present one; nobody leads its term with this vote
      subst hU
      cases hb
      refine ha.kept w T j k hack hk fun T' E hT hlt hE => hlater T' E hT ?_ hE
      refine Nat.lt_of_le_of_ne (by omega) ?_
      rintro rfl
      obtain ⟨l, hl⟩ := (hi.voters T' E hE).2 w (hvoter E hE)
      rw [hfree] at hl
      cases hl
    · exact ha.voted w T j k U d l hack hk hb hTU hvoter hlater
  · exact ha.voted w T j k U d l hack hk hb hTU hvoter hlater

omit ha in
theorem isPrefix_extend (s : State ν ε) (n : ν) (e : ε) : ∀ v, s.log v <+: (s.extend n e).log v :=
  (forall_update_iff s.log fun v => (s.log v <+: ·)).mpr
    ⟨prefix_append .., fun _ _ => prefix_refl _⟩

theorem extend {n : ν} {e : ε} (hi : Inv τ members s) (hE : s.elect (s.term n) = some E)
    (hn : E.leader = n) : Acks τ members (s.extend n e) :=
  ha.regrow (hi.grows_extend hE hn) (isPrefix_extend s n e)

omit ha in
theorem isPrefix_receive (hi : Inv τ members s) (hp : p ≤ (s.log v).length)
    (hes : (s.log v).take p ++ es <+: s.lead (s.term v)) {w : ν} {X : List ε} (hX : X <+: s.log w)
    (hlead : w = v → X <+: s.lead (s.term v)) :
    X <+: (s.receive τ v p es).log w := by
  simp only [State.receive, update_apply]
  split
  · next hw =>
    subst hw
    have hXl := prefix_iff_eq_take.mp hX
    have hagree : (s.log w).take X.length = (s.lead (s.term w)).take X.length := by
      rw [← hXl, ← prefix_iff_eq_take.mp (hlead rfl)]
    rw [hXl, ← merge_take_of_agree (hi.lead_matching w _) hp hes hagree]
    exact take_prefix ..
  · exact hX

section

variable (hi : Inv τ members s) (hE : s.elect (s.term v) = some E) (hp : p ≤ (s.log v).length)
  (hes : (s.log v).take p ++ es <+: s.lead (s.term v))
include hi hE hp hes

theorem commit_isPrefix_receive (w : ν) :
    (s.log w).take (s.commit w) <+: (s.receive τ v p es).log w := by
  obtain ⟨hle, hch⟩ := ha.committed w
  refine isPrefix_receive hi hp hes (List.take_prefix ..) ?_
  rintro rfl
  rcases hch with h0 | ⟨T, k, hT, hk, hch, hpre⟩
  · rw [h0]
    exact nil_prefix
  · refine List.IsPrefix.trans ?_ (ha.isPrefix_lead hi hch hE hT)
    rw [prefix_take_iff]
    exact ⟨hpre, by rw [length_take]; omega⟩

theorem receive : Acks τ members (s.receive τ v p es) := by
  refine { ha with kept := ?_, committed := ?_ }
  · intro w T j k hack hk hlater
    refine isPrefix_receive hi hp hes (ha.kept w T j k hack hk hlater) ?_
    rintro rfl
    rcases Nat.eq_or_lt_of_le (ha.acked_le w T j hack) with rfl | hlt
    · exact take_prefix ..
    · exact (hlater _ E hlt (Nat.lt_succ_self _) hE).trans (hi.isPrefix_lead hE)
  · intro w
    have hg : Grows s (s.receive τ v p es) := { Grows.refl s with }
    obtain ⟨hle, hch⟩ := ha.committed_of_grows hg w
    have hkeep := ha.commit_isPrefix_receive hi hE hp hes w
    have hlen := hkeep.length_le
    rw [length_take, Nat.min_eq_left hle] at hlen
    refine ⟨hlen, hch.imp id ?_⟩
    rintro ⟨T, k, hT, hk, hch, hpre⟩
    refine ⟨T, k, hT, hk, hch, ?_⟩
    have htake := take_eq_of_isPrefix hkeep (k := s.commit w)
      (by rw [length_take, Nat.min_eq_left hle])
    rw [take_take, Nat.min_self] at htake
    show ((s.receive τ v p es).log w).take (s.commit w) <+: s.lead T
    rw [← htake]
    exact hpre

end

omit [DecidableEq ν] in
theorem ack (hE : s.elect (s.term v) = some E) (hj : j ≤ (s.log v).length)
    (hpre : (s.log v).take j <+: s.lead (s.term v)) (hi : Inv τ members s) :
    Acks τ members (s.ack v j) := by
  have hlen : j ≤ (s.lead (s.term v)).length := by
    have h := hpre.length_le
    rwa [length_take, Nat.min_eq_left hj] at h
  refine { acked_le := ?_, acked_lead := ?_, kept := ?_, voted := ?_, committed := ?_ }
  · rintro w T i (hack | ⟨rfl, rfl, rfl⟩)
    · exact ha.acked_le w T i hack
    · exact Nat.le_refl _
  · rintro w T i (hack | ⟨rfl, rfl, rfl⟩)
    · exact ha.acked_lead w T i hack
    · exact ⟨⟨E, hE⟩, hlen⟩
  · rintro w T i k (hack | ⟨rfl, rfl, rfl⟩) hk hlater
    · exact ha.kept w T i k hack hk hlater
    · have h := take_eq_of_isPrefix hpre (k := k) (by rw [length_take, Nat.min_eq_left hj]; exact hk)
      rw [take_take, Nat.min_eq_left hk] at h
      show (s.lead _).take k <+: _
      rw [← h]
      exact take_prefix ..
  · rintro w T i k U c l (hack | ⟨rfl, rfl, rfl⟩) hk hb hTU hvoter hlater
    · exact ha.voted w T i k U c l hack hk hb hTU hvoter hlater
    · exact absurd (hi.ballot_le w U _ hb) (Nat.not_le.mpr hTU)
  · exact ha.committed_of_grows { Grows.refl s with acked := fun _ _ _ h => Or.inl h }

theorem commitTo {c : Nat} (hi : Inv τ members s) (hE : s.elect (s.term v) = some E)
    (hc : c ≤ (s.log v).length) (hpre : (s.log v).take c <+: s.lead (s.term v))
    (hcov : Covered τ members s (s.term v) c) :
    Acks τ members (s.commitTo v c) := by
  have hg : Grows s (s.commitTo v c) := { Grows.refl s with }
  refine { ha with committed := fun w => ?_ }
  have hcommit : (s.commitTo v c).commit w = if w = v then c else s.commit w := by
    simp only [State.commitTo, update_apply]
  rw [hcommit]
  split
  · next hw =>
    subst hw
    refine ⟨hc, hcov.imp id ?_⟩
    rintro ⟨T, k, hT, hk, hch⟩
    refine ⟨T, k, hT, hk, hch.mono hg, ?_⟩
    -- both are beginnings of the present leader's log
    have hlead := ha.isPrefix_lead hi hch hE hT
    have hkT : k ≤ (s.lead T).length := by
      obtain ⟨i, e, rfl, he, -⟩ := hch.own
      exact (List.getElem?_eq_some_iff.mp he).1
    exact (prefix_of_prefix_length_le hpre hlead (by
      rw [length_take, length_take]; omega)).trans (List.take_prefix ..)
  · exact ha.committed_of_grows hg w

theorem step (hi : Inv τ members s) (hstep : Step τ members s s') : Acks τ members s' := by
  cases hstep with
  | raise hlt => exact ha.raise hlt
  | stand hpos hold hfree | vote hfree hstood hlog => exact ha.cast hi rfl hfree
  | crown hfirst hstood hQ hvotes => exact ha.crown hi hfirst
  | extend hE hlead he => exact ha.extend hi hE hlead
  | receive hE hp hes => exact ha.receive hi hE hp hes
  | ack hE hj hpre => exact ha.ack hE hj hpre hi
  | commit hE hup hc hpre hcov => exact ha.commitTo hi hE hc hpre hcov

theorem step_keeps (hi : Inv τ members s) (hstep : Step τ members s s') (v : ν) :
    s.commit v ≤ s'.commit v ∧ (s.log v).take (s.commit v) <+: s'.log v := by
  have hsame : (s.log v).take (s.commit v) <+: s.log v := take_prefix ..
  cases hstep with
  | raise | stand | vote | crown | ack => exact ⟨Nat.le_refl _, hsame⟩
  | @extend n E e hE hlead he => exact ⟨Nat.le_refl _, hsame.trans (isPrefix_extend s n e v)⟩
  | receive hE hp hes => exact ⟨Nat.le_refl _, ha.commit_isPrefix_receive hi hE hp hes v⟩
  | @commit w c E hE hup hc hpre hcov =>
    exact ⟨(forall_update_iff s.commit fun v => (s.commit v ≤ ·)).mpr
      ⟨hup, fun _ _ => Nat.le_refl _⟩ v, hsame⟩

end Acks

namespace Path

variable [DecidableEq ν] {n : ν}

theorem acks (h : Path τ members n s s') (hi : Inv τ members s) (ha : Acks τ members s) :
    Acks τ members s' := by
  induction h with
  | refl => exact ha
  | tail hpath hstep _ ih => exact ih.step (hpath.inv hi) hstep

theorem keeps (h : Path τ members n s s') (hi : Inv τ members s) (ha : Acks τ members s) (v : ν) :
    s.commit v ≤ s'.commit v ∧ (s.log v).take (s.commit v) <+: s'.log v := by
  induction h with
  | refl => exact ⟨Nat.le_refl _, take_prefix ..⟩
  | @tail s1 s2 hpath hstep _ ih =>
    obtain ⟨hle, hpre⟩ := ih
    obtain ⟨hle', hpre'⟩ := (hpath.acks hi ha).step_keeps (hpath.inv hi) hstep v
    refine ⟨hle.trans hle', List.IsPrefix.trans ?_ hpre'⟩
    rw [prefix_take_iff]
    exact ⟨hpre, by rw [length_take]; omega⟩

end Path

end Consensus
