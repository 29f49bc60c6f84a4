import AionDb.ShardRangesSpec

/-!
# Range changes that fail

A `split` or `merge` that runs alone takes ranges out only after its checks, and what it puts
back then finds room, unless `merge` has taken the last range and the first one for
neighbours. `upsert` drops the old range of its id before it looks for an overlap.
-/

namespace AionDb.Ranges

open List RegistryInner

/-- Run from the registry without other calls, the call fails and leaves the second registry. -/
inductive Call.Fails : RegistryInner → Call → DbError → RegistryInner → Prop where
  | failed (r : RegistryInner) (e : DbError) : Fails r (.finished (.failed e)) e r
  | next {r r₁ r' : RegistryInner} {c c₁ : Call} {e : DbError} (hnext : c.next r = some (r₁, c₁))
    (h : Fails r₁ c₁ e r') : Fails r c e r'

/-- The call has taken its ranges out and not failed. -/
def Call.Late : Call → Prop
  | .splitUpsertLeft _ | .splitUpsertRight _ | .splitReloadLeft _ | .splitReloadRight ..
  | .mergeUpsert _ | .mergeReload _ => True
  | .finished (.failed _) => False
  | .finished _ => True
  | _ => False

variable {r r' : RegistryInner} {c c' : Call} {C : Set Key} {e : DbError}

theorem Call.Late.next (hlate : c.Late) (hwf : r.WellFormed) (ht : Tiled C (r.snapshot ++ c.owed))
    (h : c.next r = some (r', c')) : c'.Late ∧ Tiled C (r'.snapshot ++ c'.owed) := by
  cases c with
  | splitUpsertLeft p | splitUpsertRight p | mergeUpsert p =>
    obtain ⟨rfl, ht⟩ := Tiled.upsertThen hwf (ht.perm perm_middle) (Option.some.inj h)
    exact ⟨trivial, ht⟩
  | splitReloadLeft p | splitReloadRight p left | mergeReload p =>
    simp only [Call.next] at h
    split at h <;> (cases h; exact ⟨trivial, ht⟩)
  | finished outcome => cases h
  | _ => exact hlate.elim

/-- A call that fails has not got to the point where its ranges are out. -/
theorem Call.Fails.not_late (h : c.Fails r e r') (hwf : r.WellFormed)
    (ht : Tiled C (r.snapshot ++ c.owed)) : ¬c.Late := by
  induction h with
  | failed r e => exact id
  | next hnext h ih =>
    intro hlate
    obtain ⟨hlate, ht⟩ := hlate.next hwf ht hnext
    exact ih (Call.wellFormed_next hwf hnext) ht hlate

theorem Call.Fails.eq_of_finished {error : DbError}
    (h : (Call.finished (.failed error)).Fails r e r') : r' = r := by
  cases h with
  | failed => rfl
  | next hnext h => cases hnext

section

variable (hwf : r.WellFormed)

include hwf

theorem tiled_snapshot : Tiled {key | ∃ d ∈ r.snapshot, d.Contains key} (r.snapshot ++ []) :=
  (RangeSystem.inv_init hwf).tiled

theorem eq_of_split_fails {rangeId newRangeId : Nat} {splitKey : Key}
    (h : (Call.splitReadParent rangeId newRangeId splitKey).Fails r e r') : r' = r := by
  obtain - | ⟨hnext, h⟩ := h
  simp only [Call.next] at hnext
  split at hnext
  · cases hnext
    exact h.eq_of_finished
  next parent hget =>
  split at hnext
  · cases hnext
    exact h.eq_of_finished
  split at hnext
  · cases hnext
    exact h.eq_of_finished
  cases hnext
  obtain - | ⟨hnext, h⟩ := h
  simp only [Call.next] at hnext
  split at hnext
  · cases hnext
    exact h.eq_of_finished
  next hnew =>
  cases hnext
  obtain - | ⟨⟨⟩, h⟩ := h
  refine (h.not_late hwf.remove
    (Tiled.splitRemove hwf hget (fun d hd hid => hnew ?_) (tiled_snapshot hwf)) trivial).elim
  rw [hwf.get_eq_some_iff.mpr ⟨by simpa using hd, hid⟩]
  rfl

theorem eq_of_merge_fails {leftId rightId : Nat}
    (hend : ∀ left ∈ r.get leftId, left.endKey = keyMax → leftId = rightId)
    (h : (Call.mergeReadLeft leftId rightId).Fails r e r') : r' = r := by
  obtain - | ⟨hnext, h⟩ := h
  simp only [Call.next] at hnext
  split at hnext
  · cases hnext
    exact h.eq_of_finished
  next left hleft =>
  cases hnext
  obtain - | ⟨hnext, h⟩ := h
  simp only [Call.next] at hnext
  split at hnext
  · cases hnext
    exact h.eq_of_finished
  next right hright =>
  split at hnext
  · cases hnext
    obtain - | ⟨⟨⟩, - | ⟨⟨⟩, h⟩⟩ := h
    have hid := (hwf.get_eq_some_iff.mp hleft).2
    have hsame (hids : leftId = rightId) : right = left :=
      Option.some.inj (hright.symm.trans (hids ▸ hleft))
    have hkept (hne : leftId ≠ rightId) : (r.remove leftId).get rightId = some right := by
      obtain ⟨hmem, hid'⟩ := hwf.get_eq_some_iff.mp hright
      refine hwf.remove.get_eq_some_iff.mpr ⟨?_, hid'⟩
      refine (mem_cons.mp ((snapshot_remove hleft).mem_iff.mp hmem)).resolve_left ?_
      rintro rfl
      exact hne (hid.symm.trans hid')
    exact (h.not_late hwf.remove.remove
      (Tiled.mergeRemoveRight hwf.remove ⟨hid, hsame, hend left hleft⟩ hkept
        (Tiled.mergeRemoveLeft hleft (tiled_snapshot hwf))) trivial).elim
  · cases hnext
    exact h.eq_of_finished

end

open RangeSystem

end AionDb.Ranges
