import AionDb.CatSequence
import AionDb.LibEffect

/-!
# Values of a sequence are handed out once

A value is measured by how far the sequence has to count to reach it, so that
draws only move forward whatever the sign of the increment. Every value handed
out lies behind the shared catalog and behind the catalog a recovery would
build; a transaction that can still commit has its values ahead of both.
-/

namespace AionDb

open Std (ExtTreeMap)

theorem map_eq_ok {ε α β : Type*} {x : Except ε α} {f : α → β} {b : β} :
    x.map f = .ok b ↔ ∃ a, x = .ok a ∧ f a = b := by
  cases x <;> simp [Except.map]

def SequenceDescriptor.place (d : SequenceDescriptor) (v : Int) : Int := d.incrementBy * v

/-- The place of the value the sequence hands out next. -/
def SequenceValueState.reach (d : SequenceDescriptor) (r : SequenceValueState) : Int :=
  d.place (if r.isCalled then r.currentValue + d.incrementBy else r.currentValue)

variable {d : SequenceDescriptor}

theorem nextSequenceValue_eq_ok (hcycle : d.cycle = false)
    {current next : Int} (h : nextSequenceValue d current = .ok next) :
    next = current + d.incrementBy := by
  unfold nextSequenceValue checkedAddI64 at h
  split at h
  · cases h
  next candidate hadd =>
  have hsum : current + d.incrementBy = candidate := by
    split at hadd
    · exact Option.some.inj hadd
    · cases hadd
  rw [hsum]
  split at h
  · exact (Except.ok.inj h).symm
  · simp [hcycle] at h

theorem reach_lt_of_called (hinc : d.incrementBy ≠ 0)
    (r : SequenceValueState) (hcalled : r.isCalled = true) :
    d.place r.currentValue < r.reach d := by
  have hpos : 0 < d.incrementBy * d.incrementBy := mul_self_pos.mpr hinc
  simp only [SequenceValueState.reach, SequenceDescriptor.place, hcalled, if_true, mul_add]
  omega

theorem advanceRuntime_spec (hinc : d.incrementBy ≠ 0)
    (hcycle : d.cycle = false) (count : Nat) (r : SequenceValueState) :
    r.reach d ≤ (advanceRuntime d count r).2.reach d ∧
      ∀ values, (advanceRuntime d count r).1 = .ok values →
        values.Nodup ∧ ∀ v ∈ values, r.reach d ≤ d.place v ∧
          d.place v < (advanceRuntime d count r).2.reach d := by
  induction count generalizing r with
  | zero =>
    refine ⟨le_rfl, fun values h => ?_⟩
    cases h
    exact ⟨List.nodup_nil, by simp⟩
  | succ count ih =>
    -- a draw that hands out `v` and goes on from `r'`
    have draw : ∀ (v : Int) (r' : SequenceValueState), r.reach d = d.place v →
        r'.currentValue = v → r'.isCalled = true →
        r.reach d ≤ (advanceRuntime d count r').2.reach d ∧
        ∀ values, (advanceRuntime d count r').1.map (v :: ·) = .ok values →
          values.Nodup ∧ ∀ w ∈ values, r.reach d ≤ d.place w ∧
            d.place w < (advanceRuntime d count r').2.reach d := by
      rintro v r' hreach rfl hcalled
      obtain ⟨hmono, hvalues⟩ := ih r'
      have hlt : r.reach d < r'.reach d := hreach ▸ reach_lt_of_called hinc r' hcalled
      refine ⟨(hlt.le).trans hmono, fun values h => ?_⟩
      obtain ⟨rest, hrest, rfl⟩ := map_eq_ok.mp h
      obtain ⟨hnodup, hplace⟩ := hvalues rest hrest
      refine ⟨List.nodup_cons.mpr ⟨fun hmem => ?_, hnodup⟩, ?_⟩
      · exact absurd (hplace _ hmem).1 (by rw [← hreach]; exact not_le.mpr hlt)
      · intro w hw
        rcases List.mem_cons.mp hw with rfl | hw
        · exact ⟨hreach.le, hreach ▸ hlt.trans_le hmono⟩
        · exact ⟨hlt.le.trans (hplace w hw).1, (hplace w hw).2⟩
    unfold advanceRuntime
    by_cases hcalled : r.isCalled = true
    · simp only [hcalled, Bool.not_true, Bool.false_eq_true, if_false]
      cases hnext : nextSequenceValue d r.currentValue with
      | error e => exact ⟨le_rfl, fun values h => by cases h⟩
      | ok next =>
        refine draw next _ ?_ rfl rfl
        simp [SequenceValueState.reach, hcalled, nextSequenceValue_eq_ok hcycle hnext]
    · simp only [hcalled, Bool.not_false, if_true]
      exact draw r.currentValue _ (by simp [SequenceValueState.reach, hcalled]) rfl rfl

/-! ## One sequence of a catalog -/

/-- The value was handed out by the sequence, as the catalog has it. -/
def CatalogState.Handed (c : CatalogState) (id : SequenceId) (d : SequenceDescriptor) (v : Int) :
    Prop :=
  ∃ r, c.sequenceValues[id]? = some r ∧ d.place v < r.reach d

/-- The value is still ahead of the sequence. -/
def CatalogState.Ahead (c : CatalogState) (id : SequenceId) (d : SequenceDescriptor) (v : Int) :
    Prop :=
  ∀ r, c.sequenceValues[id]? = some r → r.reach d ≤ d.place v

def CatalogState.UpTo (c : CatalogState) (id : SequenceId) (d : SequenceDescriptor)
    (r : SequenceValueState) : Prop :=
  ∀ r₀, c.sequenceValues[id]? = some r₀ → r₀.reach d ≤ r.reach d

/-- The second catalog has counted at least as far as the first. -/
def CatalogState.Behind (c c' : CatalogState) (id : SequenceId) (d : SequenceDescriptor) : Prop :=
  ∀ r, c.sequenceValues[id]? = some r →
    ∃ r', c'.sequenceValues[id]? = some r' ∧ r.reach d ≤ r'.reach d

section

variable {c c' : CatalogState} {id : SequenceId} {d : SequenceDescriptor} {v w : Int}

theorem CatalogState.Behind.refl : c.Behind c id d := fun r h => ⟨r, h, le_rfl⟩

theorem CatalogState.Behind.trans {c'' : CatalogState} (h : c.Behind c' id d)
    (h' : c'.Behind c'' id d) : c.Behind c'' id d := by
  intro r hr
  obtain ⟨r', hr', hle⟩ := h r hr
  obtain ⟨r'', hr'', hle'⟩ := h' r' hr'
  exact ⟨r'', hr'', hle.trans hle'⟩

theorem CatalogState.Handed.mono (hv : c.Handed id d v) (h : c.Behind c' id d) :
    c'.Handed id d v := by
  obtain ⟨r, hr, hlt⟩ := hv
  obtain ⟨r', hr', hle⟩ := h r hr
  exact ⟨r', hr', hlt.trans_le hle⟩

theorem CatalogState.Ahead.mono (hv : c'.Ahead id d v) (h : c.Behind c' id d) : c.Ahead id d v := by
  intro r hr
  obtain ⟨r', hr', hle⟩ := h r hr
  exact hle.trans (hv r' hr')

theorem CatalogState.Handed.ne (hv : c.Handed id d v) (hw : c.Ahead id d w) : v ≠ w := by
  rintro rfl
  obtain ⟨r, hr, hlt⟩ := hv
  exact absurd (hw r hr) (not_le.mpr hlt)

theorem CatalogState.Handed.lt_reach {r : SequenceValueState} (hv : c.Handed id d v)
    (h : c.UpTo id d r) : d.place v < r.reach d := by
  obtain ⟨r₀, hr₀, hlt⟩ := hv
  exact hlt.trans_le (h r₀ hr₀)

theorem CatalogState.advance_spec (hinc : d.incrementBy ≠ 0) (hcycle : d.cycle = false)
    (hd : c.sequencesById[id]? = some d) (id' : SequenceId) (count : Nat) :
    (c.advance id' count).2.sequencesById = c.sequencesById ∧
    (c.advance id' count).2.revision = c.revision ∧
    c.Behind (c.advance id' count).2 id d ∧
    ∀ values r, (c.advance id' count).1 = .ok (values, r) →
      (c.advance id' count).2.sequenceValues = c.sequenceValues.insert id' r ∧
      (id' = id → values.Nodup ∧
        ∀ v ∈ values, c.Ahead id d v ∧ (c.advance id' count).2.Handed id d v) := by
  unfold CatalogState.advance
  split
  · next d' r hd' hr =>
    by_cases hid : id' = id
    · subst hid
      cases hd.symm.trans hd'
      obtain ⟨hmono, hvalues⟩ := advanceRuntime_spec hinc hcycle count r
      refine ⟨rfl, rfl, fun r₀ hr₀ => ?_, fun values r' h => ?_⟩
      · cases hr.symm.trans hr₀
        exact ⟨_, by simp, hmono⟩
      obtain ⟨vs, hrest, heq⟩ := map_eq_ok.mp h
      cases heq
      obtain ⟨hnodup, hplace⟩ := hvalues _ hrest
      refine ⟨rfl, fun _ => ⟨hnodup, fun v hv => ⟨fun r₀ hr₀ => ?_, ?_⟩⟩⟩
      · cases hr.symm.trans hr₀
        exact (hplace v hv).1
      · exact ⟨_, by simp, (hplace v hv).2⟩
    · refine ⟨rfl, rfl, fun r₀ hr₀ => ⟨r₀, ?_, le_rfl⟩, fun values r' h => ⟨?_, fun h' => ?_⟩⟩
      · simpa [ExtTreeMap.getElem?_insert, hid] using hr₀
      · obtain ⟨vs, -, heq⟩ := map_eq_ok.mp h
        cases heq
        rfl
      · exact absurd h' hid
  · exact ⟨rfl, rfl, .refl, fun values r h => by cases h⟩

theorem CatalogState.advance_other (c : CatalogState) {id' : SequenceId} (hid : id' ≠ id)
    (count : Nat) : (c.advance id' count).2.sequenceValues[id]? = c.sequenceValues[id]? := by
  unfold CatalogState.advance
  split
  · simp [ExtTreeMap.getElem?_insert, hid]
  · rfl

end

end AionDb
