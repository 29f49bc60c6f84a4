import AionDb.Core
import AionDb.LibRun
import Mathlib.Data.Finset.Basic

/-!
# The observed-remove set

A replica keeps, per element, the tags of the adds it knows and the tags that
were removed. An add takes the next tag of its own replica's counter; a remove
takes the tags known at the time; a merge is a union.

The system of all replicas carries the history: every add and every remove has
a number, and of a replica it is known which of them it has received.
-/

namespace AionDb

open Std ExtTreeMap List Function

variable {T : Type} [Ord T] [TransOrd T] [LawfulEqOrd T]

abbrev TagMap (T : Type) [Ord T] := ExtTreeMap T (Finset Nat)

namespace TagMap

def tagsOf (m : TagMap T) (x : T) : Finset Nat := m.getD x ∅

def extend (m : TagMap T) (x : T) (tags : Finset Nat) : TagMap T := m.insert x (tagsOf m x ∪ tags)

theorem mem_tagsOf_extend {m : TagMap T} {x y : T} {tags : Finset Nat} {t : Nat} :
    t ∈ tagsOf (extend m x tags) y ↔ t ∈ tagsOf m y ∨ x = y ∧ t ∈ tags := by
  unfold extend tagsOf
  rw [getD_insert]
  by_cases hxy : x = y
  · subst hxy
    simp
  · simp [hxy]

def union (m other : TagMap T) : TagMap T :=
  other.toList.foldl (fun m entry => extend m entry.1 entry.2) m

theorem mem_tagsOf_foldl {entries : List (T × Finset Nat)} {m : TagMap T} {x : T} {t : Nat} :
    t ∈ tagsOf (entries.foldl (fun m entry => extend m entry.1 entry.2) m) x ↔
      t ∈ tagsOf m x ∨ ∃ tags, (x, tags) ∈ entries ∧ t ∈ tags := by
  induction entries generalizing m with
  | nil => simp
  | cons entry entries ih =>
    rw [foldl_cons, ih, mem_tagsOf_extend, or_assoc]
    refine or_congr_right ⟨?_, ?_⟩
    · rintro (⟨rfl, ht⟩ | ⟨tags, hmem, ht⟩)
      · exact ⟨entry.2, mem_cons_self .., ht⟩
      · exact ⟨tags, mem_cons_of_mem _ hmem, ht⟩
    · rintro ⟨tags, hmem, ht⟩
      rcases mem_cons.mp hmem with rfl | hmem
      · exact .inl ⟨rfl, ht⟩
      · exact .inr ⟨tags, hmem, ht⟩

theorem mem_tagsOf_union {m other : TagMap T} {x : T} {t : Nat} :
    t ∈ tagsOf (union m other) x ↔ t ∈ tagsOf m x ∨ t ∈ tagsOf other x := by
  unfold union
  rw [mem_tagsOf_foldl]
  refine or_congr_right ⟨?_, fun ht => ?_⟩
  · rintro ⟨tags, hmem, ht⟩
    rw [mem_toList_iff_getElem?_eq_some] at hmem
    rwa [tagsOf, getD_eq_getD_getElem?, hmem]
  · unfold tagsOf at ht
    rw [getD_eq_getD_getElem?] at ht
    cases hx : other[x]? with
    | none => rw [hx] at ht; simp at ht
    | some tags =>
      rw [hx] at ht
      exact ⟨tags, mem_toList_iff_getElem?_eq_some.mpr hx, ht⟩

end TagMap

structure OrSet (T : Type) [Ord T] where
  additions : TagMap T := ∅
  tombstones : TagMap T := ∅
  nextTag : Nat := 0

namespace OrSet

variable (s : OrSet T)

def freshTag : Nat := min (s.nextTag + 1) u64Max

def add (x : T) : OrSet T :=
  { s with additions := s.additions.extend x {s.freshTag}, nextTag := s.freshTag }

def remove (x : T) : OrSet T :=
  { s with tombstones := s.tombstones.extend x (s.additions.tagsOf x) }

def contains (x : T) : Bool := (s.additions.tagsOf x \ s.tombstones.tagsOf x).Nonempty

def elements : List T := s.additions.keys.filter s.contains

def merge (other : OrSet T) : OrSet T :=
  { additions := s.additions.union other.additions
    tombstones := s.tombstones.union other.tombstones
    nextTag := max s.nextTag other.nextTag }

omit [LawfulEqOrd T] in
theorem contains_iff {x : T} : s.contains x = true ↔
    ∃ t ∈ s.additions.tagsOf x, t ∉ s.tombstones.tagsOf x := by
  simp only [contains, decide_eq_true_eq, Finset.Nonempty, Finset.mem_sdiff]

end OrSet

/-! ## Replicas and their history -/

/-- An operation that was made; a remove with the numbers of the adds it observed. -/
inductive OrSetOp (T : Type) where
  | add (element : T) (tag : Nat)
  | remove (element : T) (observed : Finset Nat)

def OrSetOp.isAddWith [DecidableEq T] (x : T) (tag : Nat) : OrSetOp T → Bool
  | .add y t => y = x ∧ t = tag
  | .remove _ _ => false

structure OrSetSystem (T : Type) [Ord T] where
  replicas : Nat → OrSet T
  ops : List (OrSetOp T)
  received : Nat → Finset Nat

inductive OrSetAction (T : Type) where
  | add (replica : Nat) (element : T)
  | remove (replica : Nat) (element : T)
  | merge (replica other : Nat)

namespace OrSetSystem

def init : OrSetSystem T := ⟨fun _ => {}, [], fun _ => ∅⟩

def IsAdd (s : OrSetSystem T) (x : T) (i : Nat) : Prop := ∃ t, s.ops[i]? = some (.add x t)

instance [DecidableEq T] (s : OrSetSystem T) (x : T) (i : Nat) : Decidable (s.IsAdd x i) :=
  match h : s.ops[i]? with
  | some (.add y t) =>
    if hxy : y = x then isTrue ⟨t, by rw [h, hxy]⟩
    else isFalse fun ⟨t', ht'⟩ => by rw [h] at ht'; cases ht'; exact hxy rfl
  | some (.remove _ _) => isFalse fun ⟨_, ht⟩ => by rw [h] at ht; cases ht
  | none => isFalse fun ⟨_, ht⟩ => by rw [h] at ht; cases ht

def record (s : OrSetSystem T) (r : Nat) (set : OrSet T) (op : OrSetOp T) : OrSetSystem T :=
  { replicas := update s.replicas r set
    ops := s.ops ++ [op]
    received := update s.received r (insert s.ops.length (s.received r)) }

variable [DecidableEq T]

def step (s : OrSetSystem T) : OrSetAction T → Option (OrSetSystem T)
  | .add r x => some (s.record r ((s.replicas r).add x) (.add x (s.replicas r).freshTag))
  | .remove r x =>
    some (s.record r ((s.replicas r).remove x) (.remove x ((s.received r).filter (s.IsAdd x))))
  | .merge r other =>
    -- A merge with itself waits for its own lock.
    if r = other then none
    else some { s with
      replicas := update s.replicas r ((s.replicas r).merge (s.replicas other))
      received := update s.received r (s.received r ∪ s.received other) }

omit [TransOrd T] [LawfulEqOrd T] [DecidableEq T] in
/-- A received remove had observed the add with this number. -/
def RemoveObserved (s : OrSetSystem T) (r : Nat) (x : T) (i : Nat) : Prop :=
  ∃ j ∈ s.received r, ∃ observed, s.ops[j]? = some (.remove x observed) ∧ i ∈ observed

def observes (x : T) (i : Nat) : OrSetOp T → Bool
  | .remove y observed => y = x ∧ i ∈ observed
  | .add _ _ => false

instance (s : OrSetSystem T) (r : Nat) (x : T) (i : Nat) : Decidable (s.RemoveObserved r x i) :=
  decidable_of_iff (∃ j ∈ s.received r, s.ops[j]?.any (observes x i) = true) <| by
    refine exists_congr fun j => and_congr_right fun _ => ?_
    cases s.ops[j]? with
    | none => simp
    | some op => cases op <;> simp [observes]

/-- The maps of a replica hold the tags of the operations it has received. -/
structure Inv (s : OrSetSystem T) : Prop where
  additions : ∀ r x t, t ∈ (s.replicas r).additions.tagsOf x ↔
    ∃ i ∈ s.received r, s.ops[i]? = some (.add x t)
  tombstones : ∀ r x t, t ∈ (s.replicas r).tombstones.tagsOf x ↔
    ∃ i, s.RemoveObserved r x i ∧ s.ops[i]? = some (.add x t)
  received : ∀ r, ∀ i ∈ s.received r, i < s.ops.length
  observed : ∀ {j : Nat} {x : T} {obs : Finset Nat}, s.ops[j]? = some (.remove x obs) → ∀ i ∈ obs, i < s.ops.length

def UniqueTags (s : OrSetSystem T) : Prop :=
  ∀ (i j : Nat) (x : T) (t : Nat), s.ops[i]? = some (.add x t) → s.ops[j]? = some (.add x t) → i = j

def FreshTag (s : OrSetSystem T) : OrSetAction T → Prop
  | .add r x => ∀ op ∈ s.ops, op.isAddWith x (s.replicas r).freshTag = false
  | _ => True

instance (s : OrSetSystem T) (a : OrSetAction T) : Decidable (s.FreshTag a) := by
  cases a <;> unfold FreshTag <;> infer_instance

/-! ## What the maps hold -/

section

omit [TransOrd T] [LawfulEqOrd T] [DecidableEq T]

variable {s : OrSetSystem T} {r q : Nat} {x : T} {i t : Nat} {set : OrSet T} {op op' : OrSetOp T}

theorem lt_of_getElem? (h : s.ops[i]? = some op) : i < s.ops.length :=
  (List.getElem?_eq_some_iff.mp h).1

theorem getElem?_record (hi : i < s.ops.length) : (s.record r set op).ops[i]? = s.ops[i]? :=
  getElem?_append_left hi

theorem getElem?_record_eq_some :
    (s.record r set op).ops[i]? = some op' ↔
      s.ops[i]? = some op' ∨ i = s.ops.length ∧ op = op' := by
  rcases Nat.lt_trichotomy i s.ops.length with hi | rfl | hi
  · rw [getElem?_record hi]
    exact ⟨.inl, fun h => h.resolve_right fun h => absurd h.1 (Nat.ne_of_lt hi)⟩
  · simp [record]
  · have hnone : s.ops[i]? = none := getElem?_eq_none (by omega)
    have hnone' : (s.record r set op).ops[i]? = none :=
      getElem?_eq_none (by simp [record]; omega)
    rw [hnone, hnone']
    simpa using fun h => absurd h (Nat.ne_of_gt hi)

theorem mem_received_record :
    i ∈ (s.record r set op).received q ↔ i ∈ s.received q ∨ q = r ∧ i = s.ops.length := by
  by_cases hq : q = r
  · subst hq
    simp [record, or_comm]
  · simp [record, hq]

theorem exists_received_record (hrec : ∀ r, ∀ i ∈ s.received r, i < s.ops.length) :
    (∃ i ∈ (s.record r set op).received q, (s.record r set op).ops[i]? = some op') ↔
      (∃ i ∈ s.received q, s.ops[i]? = some op') ∨ q = r ∧ op = op' := by
  constructor
  · rintro ⟨i, hi, hop⟩
    rcases getElem?_record_eq_some.mp hop with hold | ⟨rfl, rfl⟩
    · have hlt := lt_of_getElem? hold
      exact .inl ⟨i, (mem_received_record.mp hi).resolve_right fun h => by omega, hold⟩
    · exact .inr ⟨((mem_received_record.mp hi).resolve_left
        fun h => absurd (hrec q _ h) (Nat.lt_irrefl _)).1, rfl⟩
  · rintro (⟨i, hi, hop⟩ | ⟨rfl, rfl⟩)
    · exact ⟨i, mem_received_record.mpr (.inl hi), getElem?_record_eq_some.mpr (.inl hop)⟩
    · exact ⟨s.ops.length, mem_received_record.mpr (.inr ⟨rfl, rfl⟩),
        getElem?_record_eq_some.mpr (.inr ⟨rfl, rfl⟩)⟩

theorem removeObserved_record (hrec : ∀ r, ∀ i ∈ s.received r, i < s.ops.length) :
    (s.record r set op).RemoveObserved q x i ↔
      s.RemoveObserved q x i ∨ q = r ∧ ∃ obs, op = .remove x obs ∧ i ∈ obs := by
  have hcomm : ∀ (s : OrSetSystem T), s.RemoveObserved q x i ↔
      ∃ obs, (∃ j ∈ s.received q, s.ops[j]? = some (.remove x obs)) ∧ i ∈ obs := by
    intro s
    constructor
    · rintro ⟨j, hj, obs, hop, hi⟩
      exact ⟨obs, ⟨j, hj, hop⟩, hi⟩
    · rintro ⟨obs, ⟨j, hj, hop⟩, hi⟩
      exact ⟨j, hj, obs, hop, hi⟩
  rw [hcomm, hcomm]
  simp only [exists_received_record hrec]
  constructor
  · rintro ⟨obs, hold | ⟨rfl, rfl⟩, hi⟩
    · exact .inl ⟨obs, hold, hi⟩
    · exact .inr ⟨rfl, obs, rfl, hi⟩
  · rintro (⟨obs, hold, hi⟩ | ⟨rfl, obs, rfl, hi⟩)
    · exact ⟨obs, .inl hold, hi⟩
    · exact ⟨obs, .inr ⟨rfl, rfl⟩, hi⟩

end

variable {s s' : OrSetSystem T} {a : OrSetAction T}

section

omit [LawfulEqOrd T] [DecidableEq T]

theorem inv_init : (init : OrSetSystem T).Inv := by
  refine ⟨fun r x t => ?_, fun r x t => ?_, nofun, nofun⟩
  · simp [init, TagMap.tagsOf]
  · simp [init, TagMap.tagsOf, RemoveObserved]

theorem Inv.tombstones_record (h : s.Inv) {r q : Nat} {set : OrSet T} {op : OrSetOp T} {x : T}
    {t : Nat} (hop : ∀ {y obs}, op = .remove y obs → ∀ i ∈ obs, i < s.ops.length) :
    (∃ i, (s.record r set op).RemoveObserved q x i ∧
        (s.record r set op).ops[i]? = some (.add x t)) ↔
      t ∈ (s.replicas q).tombstones.tagsOf x ∨
        q = r ∧ ∃ obs, op = .remove x obs ∧ ∃ i ∈ obs, s.ops[i]? = some (.add x t) := by
  rw [h.tombstones]
  simp only [removeObserved_record h.received]
  constructor
  · rintro ⟨i, hobs | ⟨rfl, obs, hrem, hi⟩, hadd⟩
    · obtain ⟨j, hj, obs, hrem, hi⟩ := hobs
      rw [getElem?_record (h.observed hrem i hi)] at hadd
      exact .inl ⟨i, ⟨j, hj, obs, hrem, hi⟩, hadd⟩
    · rw [getElem?_record (hop hrem i hi)] at hadd
      exact .inr ⟨rfl, obs, hrem, i, hi, hadd⟩
  · rintro (⟨i, hobs, hadd⟩ | ⟨rfl, obs, hrem, i, hi, hadd⟩)
    · exact ⟨i, .inl hobs, getElem?_record_eq_some.mpr (.inl hadd)⟩
    · exact ⟨i, .inr ⟨rfl, obs, hrem, hi⟩, getElem?_record_eq_some.mpr (.inl hadd)⟩

theorem Inv.record (h : s.Inv) {r : Nat} {set : OrSet T} {op : OrSetOp T}
    (hop : ∀ {y obs}, op = .remove y obs → ∀ i ∈ obs, i < s.ops.length)
    (hadd : ∀ x t, t ∈ set.additions.tagsOf x ↔
      t ∈ (s.replicas r).additions.tagsOf x ∨ op = .add x t)
    (hrem : ∀ x t, t ∈ set.tombstones.tagsOf x ↔ t ∈ (s.replicas r).tombstones.tagsOf x ∨
      ∃ obs, op = .remove x obs ∧ ∃ i ∈ obs, s.ops[i]? = some (.add x t)) :
    (s.record r set op).Inv := by
  have hreplica : ∀ q, (s.record r set op).replicas q = if q = r then set else s.replicas q :=
    fun q => Function.update_apply ..
  refine ⟨fun q x t => ?_, fun q x t => ?_, fun q i hi => ?_, fun {j x obs} hj i hi => ?_⟩
  · rw [exists_received_record h.received, ← h.additions, hreplica]
    split
    · rename_i hq
      subst hq
      rw [hadd]
      simp
    · rename_i hq
      simp [hq]
  · rw [h.tombstones_record hop, hreplica]
    split
    · rename_i hq
      subst hq
      rw [hrem]
      simp
    · rename_i hq
      simp [hq]
  · have hlen : (s.record r set op).ops.length = s.ops.length + 1 := by simp [OrSetSystem.record]
    rcases mem_received_record.mp hi with hi | ⟨-, rfl⟩
    · have := h.received q i hi
      omega
    · omega
  · have hlen : (s.record r set op).ops.length = s.ops.length + 1 := by simp [OrSetSystem.record]
    have hlt : i < s.ops.length := by
      rcases getElem?_record_eq_some.mp hj with hj | ⟨-, rfl⟩
      · exact h.observed hj i hi
      · exact hop rfl i hi
    omega

end

theorem inv_step (h : s.Inv) (hstep : s.step a = some s') : s'.Inv := by
  cases a with
  | add r x =>
    cases hstep
    refine h.record nofun (fun y t => ?_) fun y t => ?_
    · rw [OrSet.add, TagMap.mem_tagsOf_extend, Finset.mem_singleton]
      simp only [OrSetOp.add.injEq, @eq_comm _ t]
    · simp [OrSet.add]
  | remove r x =>
    cases hstep
    refine h.record ?_ (fun y t => ?_) fun y t => ?_
    · rintro y obs hop i hi
      cases hop
      exact h.received r i (Finset.mem_filter.mp hi).1
    · simp [OrSet.remove]
    · rw [OrSet.remove, TagMap.mem_tagsOf_extend, h.additions]
      refine or_congr_right ⟨?_, ?_⟩
      · rintro ⟨rfl, i, hi, hadd⟩
        exact ⟨_, rfl, i, Finset.mem_filter.mpr ⟨hi, t, hadd⟩, hadd⟩
      · rintro ⟨obs, hop, i, hi, hadd⟩
        cases hop
        exact ⟨rfl, i, (Finset.mem_filter.mp hi).1, hadd⟩
  | merge r other =>
    obtain ⟨-, rfl⟩ : r ≠ other ∧ _ := by simpa [step] using hstep
    have hreceived : ∀ q i, i ∈ update s.received r (s.received r ∪ s.received other) q ↔
        i ∈ s.received q ∨ q = r ∧ i ∈ s.received other := by
      intro q i
      by_cases hq : q = r
      · subst hq; simp
      · simp [hq]
    refine ⟨fun q x t => ?_, fun q x t => ?_, fun q i hi => ?_, h.observed⟩
    · simp only [hreceived, or_and_right, exists_or, and_assoc, ← h.additions]
      by_cases hq : q = r
      · subst hq
        simp [OrSet.merge, TagMap.mem_tagsOf_union, h.additions other]
      · simp [hq]
    · have hobs : ∀ i, RemoveObserved (T := T) { s with
          replicas := update s.replicas r ((s.replicas r).merge (s.replicas other))
          received := update s.received r (s.received r ∪ s.received other) } q x i ↔
            s.RemoveObserved q x i ∨ q = r ∧ s.RemoveObserved other x i := by
        intro i
        simp only [RemoveObserved, hreceived, or_and_right, exists_or, and_assoc, exists_and_left]
      simp only [hobs, or_and_right, exists_or, and_assoc, exists_and_left, ← h.tombstones]
      by_cases hq : q = r
      · subst hq
        simp [OrSet.merge, TagMap.mem_tagsOf_union]
      · simp [hq]
    · rcases (hreceived q i).mp hi with hi | ⟨-, hi⟩
      · exact h.received q i hi
      · exact h.received other i hi

omit [TransOrd T] [LawfulEqOrd T] [DecidableEq T] in
theorem uniqueTags_init : (init : OrSetSystem T).UniqueTags := by
  intro i j x t hi
  simp [init] at hi

omit [LawfulEqOrd T] in
theorem uniqueTags_step (h : s.UniqueTags) (hfresh : s.FreshTag a) (hstep : s.step a = some s') :
    s'.UniqueTags := by
  cases a with
  | add r x =>
    cases hstep
    -- The new add has a tag that no add of the element before it has.
    have hnew : ∀ {i : Nat} {t : Nat}, s.ops[i]? = some (.add x t) → t ≠ (s.replicas r).freshTag := by
      intro i t hi
      have hop := hfresh _ (mem_of_getElem? hi)
      simpa [OrSetOp.isAddWith] using hop
    intro i j y t hi hj
    rcases getElem?_record_eq_some.mp hi with hold | ⟨hlast, hadd⟩ <;>
      rcases getElem?_record_eq_some.mp hj with hold' | ⟨hlast', hadd'⟩
    · exact h i j y t hold hold'
    · cases hadd'; exact absurd rfl (hnew hold)
    · cases hadd; exact absurd rfl (hnew hold')
    · exact hlast.trans hlast'.symm
  | remove r x =>
    cases hstep
    intro i j y t hi hj
    rcases getElem?_record_eq_some.mp hi with hi | ⟨-, hi⟩
    · rcases getElem?_record_eq_some.mp hj with hj | ⟨-, hj⟩
      · exact h i j y t hi hj
      · cases hj
    · cases hi
  | merge r other =>
    obtain ⟨-, rfl⟩ : r ≠ other ∧ _ := by simpa [step] using hstep
    exact h

omit [LawfulEqOrd T] [DecidableEq T] in
theorem Inv.contains_congr (h : s.Inv) {r q : Nat} (hrq : s.received r = s.received q) (x : T) :
    (s.replicas r).contains x = (s.replicas q).contains x := by
  have hobs : ∀ i, s.RemoveObserved r x i ↔ s.RemoveObserved q x i := fun i => by
    unfold RemoveObserved; rw [hrq]
  rw [Bool.eq_iff_iff, OrSet.contains_iff, OrSet.contains_iff]
  simp only [h.additions, h.tombstones, hrq, hobs]

omit [LawfulEqOrd T] [DecidableEq T] in
theorem Inv.contains_iff (h : s.Inv) (hunique : s.UniqueTags) {r : Nat} {x : T} :
    (s.replicas r).contains x = true ↔
      ∃ i ∈ s.received r, s.IsAdd x i ∧ ¬s.RemoveObserved r x i := by
  rw [OrSet.contains_iff]
  constructor
  · rintro ⟨t, ht, hnot⟩
    obtain ⟨i, hi, hadd⟩ := (h.additions r x t).mp ht
    exact ⟨i, hi, ⟨t, hadd⟩, fun hobs => hnot ((h.tombstones r x t).mpr ⟨i, hobs, hadd⟩)⟩
  · rintro ⟨i, hi, ⟨t, hadd⟩, hnot⟩
    refine ⟨t, (h.additions r x t).mpr ⟨i, hi, hadd⟩, fun ht => hnot ?_⟩
    obtain ⟨j, hobs, hadd'⟩ := (h.tombstones r x t).mp ht
    rwa [hunique i j x t hadd hadd']

/-- Replicas that have received the same operations contain the same elements;
and if no two adds of an element share a tag, an element is contained exactly
when an add of it was received that no received remove had observed. -/
theorem replicas_converge_and_adds_win {as : List (OrSetAction T)}
    (hrun : Run.run step (init : OrSetSystem T) as = some s)
    (hfresh : Run.Along step FreshTag (init : OrSetSystem T) as) :
    (∀ r q, s.received r = s.received q →
      ∀ x, (s.replicas r).contains x = (s.replicas q).contains x) ∧
    ∀ r x, (s.replicas r).contains x = true ↔
      ∃ i ∈ s.received r, s.IsAdd x i ∧ ¬s.RemoveObserved r x i := by
  have hinv : s.Inv := Run.run_preserves inv_step inv_init hrun
  have hunique : s.UniqueTags :=
    Run.run_preserves_along (P := FreshTag) uniqueTags_step uniqueTags_init hfresh hrun
  exact ⟨fun r q hrq x => hinv.contains_congr hrq x, fun r x => hinv.contains_iff hunique⟩

def concurrentAdd : List (OrSetAction Nat) :=
  [.add 0 7, .merge 1 0, .add 1 7, .remove 0 7, .merge 0 1]

theorem replicas_converge_and_adds_win_concurrentAdd :
    ((Run.after step (init : OrSetSystem Nat) concurrentAdd).replicas 0).contains 7 = true ↔
      ∃ i ∈ (Run.after step (init : OrSetSystem Nat) concurrentAdd).received 0,
        (Run.after step init concurrentAdd).IsAdd 7 i ∧
          ¬(Run.after step init concurrentAdd).RemoveObserved 0 7 i :=
  (replicas_converge_and_adds_win (Run.run_eq_some_after (by decide +kernel)) (by decide +kernel)).2 0 7

def separateAdds : List (OrSetAction Nat) := [.add 0 7, .add 1 7, .remove 0 7, .merge 0 1]

/-- Both adds got tag 1, so the remove of the one takes the other with it. -/
theorem remove_takes_unobserved_add :
    (Run.run step (init : OrSetSystem Nat) separateAdds).isSome = true ∧
      ((Run.after step (init : OrSetSystem Nat) separateAdds).replicas 0).contains 7 = false ∧
      1 ∈ (Run.after step (init : OrSetSystem Nat) separateAdds).received 0 ∧
      (Run.after step (init : OrSetSystem Nat) separateAdds).IsAdd 7 1 ∧
      ¬(Run.after step (init : OrSetSystem Nat) separateAdds).RemoveObserved 0 7 1 := by
  decide +kernel

end OrSetSystem

end AionDb
