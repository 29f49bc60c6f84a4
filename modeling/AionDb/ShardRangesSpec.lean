import AionDb.ShardRanges

/-!
# Routing keeps its keys

The ranges of the registry never overlap. The ranges of the registry and those
the open calls owe tile the keys covered at the start, as long as every call
removes the ranges it has read.
-/

namespace AionDb.Ranges

open Std.ExtTreeMap List Option

open Std (ExtTreeMap)

def RangeDescriptor.span (d : RangeDescriptor) : Set Key := {key | d.Contains key}

theorem Below.mono {a b e : Key} (h : Below b e) (hab : a ≤ b) : Below a e :=
  h.imp id (lt_of_le_of_lt hab)

theorem overlaps_iff {a b : RangeDescriptor} (ha : Below a.startKey a.endKey)
    (hb : Below b.startKey b.endKey) : a.Overlaps b ↔ ¬Disjoint a.span b.span := by
  rw [Set.not_disjoint_iff]
  constructor
  · rintro ⟨hab, hba⟩
    rcases le_total a.startKey b.startKey with hle | hle
    · exact ⟨b.startKey, ⟨hle, hba⟩, le_refl _, hb⟩
    · exact ⟨a.startKey, ⟨le_refl _, ha⟩, hle, hab⟩
  · rintro ⟨k, hka, hkb⟩
    exact ⟨hkb.2.mono hka.1, hka.2.mono hkb.1⟩

theorem validateBounds_eq_ok {d : RangeDescriptor} :
    validateBounds d = .ok () ↔ Below d.startKey d.endKey := by
  unfold validateBounds Below
  split
  · simp_all
  · split
    · simp_all
    · simp_all

namespace RegistryInner

variable {r r' : RegistryInner} {d e : RangeDescriptor} {i : Nat}

/-- The two maps agree, and the ranges are not empty and do not overlap. -/
structure WellFormed (r : RegistryInner) : Prop where
  start : ∀ (k : Key) (d : RangeDescriptor), r.byStartKey[k]? = some d →
    d.startKey = k ∧ r.byId[d.rangeId]? = some k ∧ Below d.startKey d.endKey
  id : ∀ (i : Nat) (k : Key), r.byId[i]? = some k → ∃ d, r.byStartKey[k]? = some d ∧ d.rangeId = i
  apart : ∀ (k k' : Key) (d d' : RangeDescriptor), r.byStartKey[k]? = some d →
    r.byStartKey[k']? = some d' → k ≠ k' → ¬d.Overlaps d'

theorem mem_snapshot : d ∈ r.snapshot ↔ ∃ k : Key, r.byStartKey[k]? = some d := by
  simp only [snapshot, List.mem_map, Prod.exists, mem_toList_iff_getElem?_eq_some, exists_eq_right]

theorem WellFormed.mem_snapshot_iff (hwf : r.WellFormed) :
    d ∈ r.snapshot ↔ r.byStartKey[d.startKey]? = some d := by
  rw [mem_snapshot]
  refine ⟨fun ⟨k, hk⟩ => ?_, fun h => ⟨_, h⟩⟩
  rw [(hwf.start k d hk).1]
  exact hk

theorem WellFormed.get_eq_some_iff (hwf : r.WellFormed) :
    r.get i = some d ↔ d ∈ r.snapshot ∧ d.rangeId = i := by
  rw [get, bind_eq_some_iff]
  constructor
  · rintro ⟨k, hk, hd⟩
    obtain ⟨d', hd', rfl⟩ := hwf.id i k hk
    cases hd.symm.trans hd'
    exact ⟨mem_snapshot.mpr ⟨k, hd⟩, rfl⟩
  · rintro ⟨hd, rfl⟩
    have hd := hwf.mem_snapshot_iff.mp hd
    exact ⟨d.startKey, (hwf.start _ _ hd).2.1, hd⟩

theorem WellFormed.byId_eq_none (hwf : r.WellFormed) (h : ∀ d ∈ r.snapshot, d.rangeId ≠ i) :
    r.byId[i]? = none := by
  cases hk : r.byId[i]? with
  | none => rfl
  | some k =>
    obtain ⟨d, hd, hid⟩ := hwf.id i k hk
    exact absurd hid (h d (mem_snapshot.mpr ⟨k, hd⟩))

theorem remove_eq_self (h : r.byId[i]? = none) : r.remove i = r := by
  unfold remove
  rw [h]

theorem WellFormed.remove (hwf : r.WellFormed) : (r.remove i).WellFormed := by
  unfold RegistryInner.remove
  cases hk : r.byId[i]? with
  | none => exact hwf
  | some k =>
    obtain ⟨d, hd, hid⟩ := hwf.id i k hk
    refine ⟨fun k' d' h => ?_, fun i' k' h => ?_, fun k1 k2 d1 d2 h1 h2 hne => ?_⟩
    · simp only [getElem?_erase, Std.LawfulEqCmp.compare_eq_iff_eq] at h ⊢
      split at h
      · cases h
      rename_i hne
      obtain ⟨hstart, hid', hbelow⟩ := hwf.start k' d' h
      refine ⟨hstart, ?_, hbelow⟩
      rw [if_neg, hid']
      rintro rfl
      exact hne (Option.some.inj (hk.symm.trans hid'))
    · simp only [getElem?_erase, Std.LawfulEqCmp.compare_eq_iff_eq] at h ⊢
      split at h
      · cases h
      rename_i hne
      obtain ⟨d', hd', hid'⟩ := hwf.id i' k' h
      refine ⟨d', ?_, hid'⟩
      rw [if_neg, hd']
      rintro rfl
      cases hd.symm.trans hd'
      exact hne (hid.symm.trans hid')
    · simp only [getElem?_erase] at h1 h2
      split at h1
      · cases h1
      · split at h2
        · cases h2
        · exact hwf.apart k1 k2 d1 d2 h1 h2 hne

theorem WellFormed.rangeId_ne_of_mem_remove (hwf : r.WellFormed) (hd : d ∈ (r.remove i).snapshot) :
    d.rangeId ≠ i := by
  rintro rfl
  have hget := hwf.remove.get_eq_some_iff.mpr ⟨hd, rfl⟩
  unfold RegistryInner.remove at hget
  cases hk : r.byId[d.rangeId]? with
  | none => simp [hk, get] at hget
  | some k => simp [hk, get] at hget

def put (r : RegistryInner) (d : RangeDescriptor) : RegistryInner :=
  { byStartKey := r.byStartKey.insert d.startKey d, byId := r.byId.insert d.rangeId d.startKey }

theorem WellFormed.byStartKey_eq_none (hwf : r.WellFormed) (hbelow : Below d.startKey d.endKey)
    (hno : ∀ e ∈ r.snapshot, ¬d.Overlaps e) : r.byStartKey[d.startKey]? = none := by
  cases hk : r.byStartKey[d.startKey]? with
  | none => rfl
  | some e =>
    obtain ⟨hstart, -, hbelow'⟩ := hwf.start _ e hk
    refine absurd ⟨?_, ?_⟩ (hno e (mem_snapshot.mpr ⟨_, hk⟩))
    · rw [← hstart]
      exact hbelow'
    · rw [hstart]
      exact hbelow

theorem WellFormed.put (hwf : r.WellFormed) (hbelow : Below d.startKey d.endKey)
    (hid : ∀ e ∈ r.snapshot, e.rangeId ≠ d.rangeId) (hno : ∀ e ∈ r.snapshot, ¬d.Overlaps e) :
    (r.put d).WellFormed := by
  have hfree := hwf.byStartKey_eq_none hbelow hno
  refine ⟨fun k e h => ?_, fun i k h => ?_, fun k k' e e' h h' hne => ?_⟩
  · simp only [RegistryInner.put, ExtTreeMap.getElem?_insert, Std.LawfulEqCmp.compare_eq_iff_eq] at h ⊢
    split at h
    · cases h
      exact ⟨‹_›, by simpa using ‹_›, hbelow⟩
    · obtain ⟨hstart, hid', hb⟩ := hwf.start k e h
      exact ⟨hstart, by rw [if_neg (hid e (mem_snapshot.mpr ⟨k, h⟩)).symm, hid'], hb⟩
  · simp only [RegistryInner.put, ExtTreeMap.getElem?_insert, Std.LawfulEqCmp.compare_eq_iff_eq] at h ⊢
    split at h
    · cases h
      exact ⟨d, by simp, ‹_›⟩
    · obtain ⟨e, he, hid'⟩ := hwf.id i k h
      refine ⟨e, ?_, hid'⟩
      rw [if_neg, he]
      rintro rfl
      cases he.symm.trans hfree
  · simp only [RegistryInner.put, ExtTreeMap.getElem?_insert, Std.LawfulEqCmp.compare_eq_iff_eq] at h h'
    split at h
    · cases h
      rw [if_neg (by rintro rfl; exact hne (Eq.symm ‹_›))] at h'
      exact hno e' (mem_snapshot.mpr ⟨k', h'⟩)
    · split at h'
      · cases h'
        exact fun hov => hno e (mem_snapshot.mpr ⟨k, h⟩) hov.symm
      · exact hwf.apart k k' e e' h h' hne

theorem snapshot_put (h : r.byStartKey[d.startKey]? = none) :
    (r.put d).snapshot.Perm (d :: r.snapshot) :=
  (OrdMap.toList_insert_perm (v := d) h).map Prod.snd

theorem snapshot_remove (h : r.get i = some d) : r.snapshot.Perm (d :: (r.remove i).snapshot) := by
  obtain ⟨k, hk, hd⟩ := bind_eq_some_iff.mp h
  unfold RegistryInner.remove
  rw [hk]
  exact (OrdMap.toList_perm_erase hd).map (·.2)

/-! ### Upsert -/

theorem conflict_eq_none : r.conflict d = none ↔
    ∀ e ∈ r.snapshot, e.rangeId ≠ d.rangeId → ¬d.Overlaps e := by
  simp [conflict]

def stamped (r : RegistryInner) (d : RangeDescriptor) : RangeDescriptor :=
  let priorGeneration := ((r.get d.rangeId).map (·.generation)).getD 0
  { d with generation := min (max d.generation priorGeneration + 1) u64Max }

/-- `upsert` fails on the bounds, fails on an overlap when the old range of the id is gone
already, or puts the range in place of that one. -/
theorem upsert_cases (r : RegistryInner) (d : RangeDescriptor) :
    (¬Below d.startKey d.endKey ∧ ∃ e, r.upsert d = (.error e, r)) ∨
    (Below d.startKey d.endKey ∧ ∃ e, r.upsert d = (.error e, r.remove d.rangeId)) ∨
    (Below d.startKey d.endKey ∧ (r.remove d.rangeId).conflict d = none ∧
      r.upsert d = (.ok (), (r.remove d.rangeId).put (r.stamped d))) := by
  unfold upsert
  cases hbounds : validateBounds d with
  | error e =>
    refine .inl ⟨fun hbelow => ?_, e, rfl⟩
    rw [validateBounds_eq_ok.mpr hbelow] at hbounds
    cases hbounds
  | ok u =>
    have hbelow := validateBounds_eq_ok.mp hbounds
    cases hconf : (r.remove d.rangeId).conflict d with
    | some other => exact .inr (.inl ⟨hbelow, _, by simp only [hconf]; rfl⟩)
    | none => exact .inr (.inr ⟨hbelow, rfl, by simp only [hconf]; rfl⟩)

theorem WellFormed.upsert (hwf : r.WellFormed) : (r.upsert d).2.WellFormed := by
  obtain ⟨-, e, h⟩ | ⟨-, e, h⟩ | ⟨hbelow, hconf, h⟩ := upsert_cases r d
  · rw [h]
    exact hwf
  · rw [h]
    exact hwf.remove
  · rw [h]
    have hid : ∀ e ∈ (r.remove d.rangeId).snapshot, e.rangeId ≠ d.rangeId :=
      fun e he => hwf.rangeId_ne_of_mem_remove he
    exact hwf.remove.put (d := r.stamped d) hbelow hid fun e he =>
      conflict_eq_none.mp hconf e he (hid e he)

theorem WellFormed.upsert_ok (hwf : r.WellFormed) (hbelow : Below d.startKey d.endKey)
    (hid : ∀ e ∈ r.snapshot, e.rangeId ≠ d.rangeId) (hno : ∀ e ∈ r.snapshot, ¬d.Overlaps e) :
    r.upsert d = (.ok (), r.put (r.stamped d)) ∧
      (r.put (r.stamped d)).snapshot.Perm (r.stamped d :: r.snapshot) := by
  have hself := remove_eq_self (hwf.byId_eq_none hid)
  have hnone : r.conflict d = none := conflict_eq_none.mpr fun e he _ => hno e he
  have hfree : r.byStartKey[(r.stamped d).startKey]? = none :=
    hwf.byStartKey_eq_none (d := d) hbelow hno
  obtain ⟨hnot, -⟩ | ⟨-, e, h⟩ | ⟨-, -, h⟩ := upsert_cases r d
  · exact absurd hbelow hnot
  · simp only [RegistryInner.upsert, validateBounds_eq_ok.mpr hbelow, hself, hnone] at h
    cases h
  · rw [hself] at h
    exact ⟨h, snapshot_put hfree⟩

/-! ### Lookup -/

theorem WellFormed.lookup (hwf : r.WellFormed) (hd : d ∈ r.snapshot) {key : Key}
    (hkey : d.Contains key) : r.lookup key = some d := by
  have hsorted : (r.snapshot.filter (·.startKey ≤ key)).Pairwise
      fun a b => a.startKey < b.startKey := by
    refine List.Pairwise.filter _ (pairwise_map.mpr ?_)
    refine ordered_keys_toList.imp_of_mem fun {a b} ha hb hlt => ?_
    have hstart : ∀ p ∈ r.byStartKey.toList, p.2.startKey = p.1 := fun p hp =>
      (hwf.start p.1 p.2 (mem_toList_iff_getElem?_eq_some.mp hp)).1
    rw [hstart a ha, hstart b hb]
    exact compare_lt_iff_lt.mp hlt
  have hmem : d ∈ r.snapshot.filter (·.startKey ≤ key) :=
    mem_filter.mpr ⟨hd, decide_eq_true hkey.1⟩
  cases hlast : (r.snapshot.filter (·.startKey ≤ key)).getLast? with
  | none =>
    rw [getLast?_eq_none_iff.mp hlast] at hmem
    cases hmem
  | some e =>
    -- A later range that starts up to the key would overlap this one.
    obtain ⟨init, hinit⟩ := getLast?_eq_some_iff.mp hlast
    have he : e ∈ r.snapshot.filter (·.startKey ≤ key) := by simp [hinit]
    obtain ⟨he, hle⟩ := mem_filter.mp he
    have hle := of_decide_eq_true hle
    have heq : e = d := by
      rw [hinit] at hmem hsorted
      rcases mem_append.mp hmem with h | h
      · have hlt := (pairwise_append.mp hsorted).2.2 d h e (by simp)
        have hebelow := (hwf.start _ e (hwf.mem_snapshot_iff.mp he)).2.2
        refine absurd ⟨?_, ?_⟩ (hwf.apart _ _ d e (hwf.mem_snapshot_iff.mp hd)
          (hwf.mem_snapshot_iff.mp he) hlt.ne)
        · exact hebelow.mono hlt.le
        · exact hkey.2.mono hle
      · exact (mem_singleton.mp h).symm
    subst heq
    simp [RegistryInner.lookup, hlast, Option.filter, hkey]

end RegistryInner

/-! ## One step of a call -/

section

variable {r r' : RegistryInner} {c c' : Call} {d : RangeDescriptor} {others : List RangeDescriptor}
  {C : Set Key}

/-- What `merge` knows between its two removes. -/
def Call.Sound : Call → Prop
  | .mergeRemoveRight p =>
    p.left.rangeId = p.leftId ∧ (p.leftId = p.rightId → p.right = p.left) ∧
      (p.left.endKey = keyMax → p.leftId = p.rightId)
  | _ => True

theorem Call.next_cases (h : c.next r = some (r', c')) :
    (r' = r ∧ c.owed = [] ∧ c'.owed = [] ∧ c'.Sound) ∨
    (∃ d next, c.owed = d :: next.owed ∧ next.Sound ∧ upsertThen r d next = (r', c')) ∨
    (∃ p, c = .splitRemove p ∧ r' = r.remove p.rangeId ∧ c' = .splitUpsertLeft p) ∨
    (∃ p, c = .mergeRemoveLeft p ∧ r' = r.remove p.leftId ∧ c' = .mergeRemoveRight p) ∨
    (∃ p, c = .mergeRemoveRight p ∧ r' = r.remove p.rightId ∧ c' = .mergeUpsert p) := by
  cases c with
  | splitRemove p => cases h; exact .inr (.inr (.inl ⟨p, rfl, rfl, rfl⟩))
  | splitUpsertLeft p =>
    exact .inr (.inl ⟨p.left, .splitUpsertRight p, rfl, trivial, Option.some.inj h⟩)
  | splitUpsertRight p =>
    exact .inr (.inl ⟨p.right, .splitReloadLeft p, rfl, trivial, Option.some.inj h⟩)
  | mergeRemoveLeft p => cases h; exact .inr (.inr (.inr (.inl ⟨p, rfl, rfl, rfl⟩)))
  | mergeRemoveRight p => cases h; exact .inr (.inr (.inr (.inr ⟨p, rfl, rfl, rfl⟩)))
  | mergeUpsert p => exact .inr (.inl ⟨p.merged, .mergeReload p, rfl, trivial, Option.some.inj h⟩)
  | finished o => cases h
  | _ =>
    simp only [Call.next] at h
    repeat' split at h
    all_goals cases h
    all_goals exact .inl ⟨rfl, rfl, rfl, trivial⟩

theorem fst_upsertThen {next : Call} : (upsertThen r d next).1 = (r.upsert d).2 := by
  unfold upsertThen
  split
  · rename_i heq; rw [heq]
  · rename_i heq; rw [heq]

theorem Call.wellFormed_next (hwf : r.WellFormed) (h : c.next r = some (r', c')) :
    r'.WellFormed := by
  obtain ⟨rfl, -⟩ | ⟨d, next, -, -, hup⟩ | ⟨p, -, rfl, -⟩ | ⟨p, -, rfl, -⟩ | ⟨p, -, rfl, -⟩ :=
    Call.next_cases h
  · exact hwf
  · have hfst : (r.upsert d).2 = r' := fst_upsertThen.symm.trans (congrArg Prod.fst hup)
    exact hfst ▸ hwf.upsert
  · exact hwf.remove
  · exact hwf.remove
  · exact hwf.remove

structure Tiled (C : Set Key) (l : List RangeDescriptor) : Prop where
  tiling : Tiles.Tiling RangeDescriptor.span RangeDescriptor.rangeId C l
  below : ∀ d ∈ l, Below d.startKey d.endKey

theorem Tiled.perm {l l' : List RangeDescriptor} (h : Tiled C l) (hperm : l.Perm l') : Tiled C l' :=
  ⟨h.tiling.perm hperm, fun d hd => h.below d (hperm.mem_iff.mpr hd)⟩

theorem Tiled.replace {xs ys rest : List RangeDescriptor} (h : Tiled C (xs ++ rest))
    (hys : ys.Pairwise (Tiles.Apart RangeDescriptor.span RangeDescriptor.rangeId))
    (hbelow : ∀ y ∈ ys, Below y.startKey y.endKey)
    (hcover : Tiles.cover RangeDescriptor.span ys = Tiles.cover RangeDescriptor.span xs)
    (hname : ∀ y ∈ ys, ∀ z ∈ rest, y.rangeId ≠ z.rangeId) : Tiled C (ys ++ rest) := by
  refine ⟨h.tiling.replace hys hcover hname, fun d hd => ?_⟩
  rcases mem_append.mp hd with hd | hd
  · exact hbelow d hd
  · exact h.below d (mem_append_right _ hd)

theorem Tiled.upsertThen {rest : List RangeDescriptor} {next : Call} (hwf : r.WellFormed)
    (h : Tiled C (d :: (r.snapshot ++ rest))) (hup : upsertThen r d next = (r', c')) :
    c' = next ∧ Tiled C (r'.snapshot ++ rest) := by
  have hapart := (pairwise_cons.mp h.tiling.apart).1
  have hbelow := h.below d (by simp)
  have hmem : ∀ e ∈ r.snapshot, e ∈ r.snapshot ++ rest := fun e he => mem_append_left _ he
  obtain ⟨hok, hperm⟩ := hwf.upsert_ok hbelow (fun e he => (hapart e (hmem e he)).1.symm)
    fun e he hov => (overlaps_iff hbelow (h.below e (mem_cons_of_mem _ (hmem e he)))).mp hov
      (hapart e (hmem e he)).2
  simp only [Ranges.upsertThen, hok, Prod.mk.injEq] at hup
  obtain ⟨rfl, rfl⟩ := hup
  refine ⟨rfl, ?_⟩
  have hspan : (r.stamped d).span = d.span := rfl
  have hstamp : Tiled C ([r.stamped d] ++ (r.snapshot ++ rest)) :=
    Tiled.replace (show Tiled C ([d] ++ (r.snapshot ++ rest)) from h) (by simp)
      (fun y hy => by cases mem_singleton.mp hy; exact hbelow) (by simp [hspan])
      fun y hy z hz => by cases mem_singleton.mp hy; exact (hapart z hz).1
  exact hstamp.perm (by simpa using (hperm.append_right rest).symm)

theorem SplitPlan.span_eq (p : SplitPlan) :
    Disjoint p.left.span p.right.span ∧ p.left.span ∪ p.right.span = p.parent.span := by
  have hne : p.splitKey ≠ keyMax := (lt_of_le_of_lt (keyMax_le _) p.after_start).ne'
  refine ⟨Set.disjoint_left.mpr fun k hl hr => ?_, Set.ext fun k => ⟨?_, fun hk => ?_⟩⟩
  · exact absurd (hl.2.resolve_left hne) (not_lt_of_ge hr.1)
  · rintro (hl | hr)
    · exact ⟨hl.1, p.below_end.mono (hl.2.resolve_left hne).le⟩
    · exact ⟨p.after_start.le.trans hr.1, hr.2⟩
  · rcases lt_or_ge k p.splitKey with hlt | hge
    · exact .inl ⟨hk.1, .inr hlt⟩
    · exact .inr ⟨hge, hk.2⟩

theorem MergePlan.span_eq (p : MergePlan) (hne : p.left.endKey ≠ keyMax)
    (hleft : Below p.left.startKey p.left.endKey) (hright : Below p.right.startKey p.right.endKey) :
    p.left.span ∪ p.right.span = p.merged.span := by
  have hlt : p.left.startKey < p.right.startKey := by
    rw [← p.adjacent]
    exact hleft.resolve_left hne
  ext k
  constructor
  · rintro (hl | hr)
    · have hk : k < p.right.startKey := by
        rw [← p.adjacent]
        exact hl.2.resolve_left hne
      exact ⟨hl.1, hright.mono hk.le⟩
    · exact ⟨hlt.le.trans hr.1, hr.2⟩
  · intro hk
    rcases lt_or_ge k p.right.startKey with hk' | hk'
    · exact .inl ⟨hk.1, .inr (p.adjacent ▸ hk')⟩
    · exact .inr ⟨hk', hk.2⟩

theorem Tiled.splitRemove (hwf : r.WellFormed) {p : SplitPlan}
    (hget : r.get p.rangeId = some p.parent)
    (hfree : ∀ d ∈ r.snapshot ++ others, d.rangeId ≠ p.newRangeId)
    (h : Tiled C (r.snapshot ++ others)) :
    Tiled C ((r.remove p.rangeId).snapshot ++ ([p.left, p.right] ++ others)) := by
  have hid : p.parent.rangeId = p.rangeId := (hwf.get_eq_some_iff.mp hget).2
  have hperm := (RegistryInner.snapshot_remove hget).append_right others
  have h' : Tiled C ([p.parent] ++ ((r.remove p.rangeId).snapshot ++ others)) := h.perm hperm
  have hnames := fun z hz => h'.tiling.name_ne (z := z) hz
  obtain ⟨hdisj, hunion⟩ := p.span_eq
  have hnew : p.rangeId ≠ p.newRangeId :=
    hid ▸ hfree p.parent (hperm.mem_iff.mpr (by simp))
  have hrep : Tiled C ([p.left, p.right] ++ ((r.remove p.rangeId).snapshot ++ others)) := by
    refine h'.replace (by simpa using ⟨hnew, hdisj⟩) (fun y hy => ?_) (by simp [hunion])
      fun y hy z hz => ?_
    · rcases mem_pair.mp hy with rfl | rfl
      · exact .inr p.after_start
      · exact p.below_end
    · rcases mem_pair.mp hy with rfl | rfl
      · exact Eq.trans_ne hid.symm (hnames z hz)
      · exact (hfree z (hperm.mem_iff.mpr (mem_cons_of_mem _ hz))).symm
  exact hrep.perm (perm_append_comm_assoc _ _ _)

theorem Tiled.mergeRemoveLeft {p : MergePlan} (hget : r.get p.leftId = some p.left)
    (h : Tiled C (r.snapshot ++ others)) :
    Tiled C ((r.remove p.leftId).snapshot ++ ([p.left] ++ others)) := by
  refine h.perm (((RegistryInner.snapshot_remove hget).append_right others).trans ?_)
  simpa using perm_middle.symm

theorem Tiled.mergeRemoveRight (hwf : r.WellFormed) {p : MergePlan}
    (hsound : (Call.mergeRemoveRight p).Sound)
    (hget : p.leftId ≠ p.rightId → r.get p.rightId = some p.right)
    (h : Tiled C (r.snapshot ++ ([p.left] ++ others))) :
    Tiled C ((r.remove p.rightId).snapshot ++ ([p.merged] ++ others)) := by
  obtain ⟨hleftId, hsame, hbound⟩ := hsound
  have hbelow : ∀ d ∈ r.snapshot ++ ([p.left] ++ others), Below d.startKey d.endKey := h.below
  by_cases hids : p.leftId = p.rightId
  · -- The range is merged with itself: it is the only one and has no bound.
    have hright := hsame hids
    have hmove : Tiled C ([p.left] ++ (r.snapshot ++ others)) :=
      h.perm (perm_append_comm_assoc _ _ _)
    have hself : r.remove p.rightId = r := by
      refine RegistryInner.remove_eq_self (hwf.byId_eq_none fun d hd hdid => ?_)
      exact hmove.tiling.name_ne (z := d) (by simp [hd]) (by rw [hleftId, hids, hdid])
    rw [hself]
    have hrep : Tiled C ([p.merged] ++ (r.snapshot ++ others)) := by
      have hspan : p.merged.span = p.left.span := by
        simp only [RangeDescriptor.span, RangeDescriptor.Contains, MergePlan.merged, hright]
      refine hmove.replace (by simp) (fun y hy => ?_) (by simp [hspan]) fun y hy z hz => ?_
      · cases mem_singleton.mp hy
        have := hbelow p.left (by simp)
        simpa only [MergePlan.merged, hright] using this
      · cases mem_singleton.mp hy
        exact Eq.trans_ne hleftId.symm (hmove.tiling.name_ne hz)
    exact hrep.perm (perm_append_comm_assoc _ _ _)
  · have hget := hget hids
    have hrightMem := (hwf.get_eq_some_iff.mp hget).1
    have hmove : Tiled C ([p.left, p.right] ++ ((r.remove p.rightId).snapshot ++ others)) := by
      refine h.perm (((RegistryInner.snapshot_remove hget).append_right _).trans ?_)
      simp only [cons_append, nil_append]
      exact (perm_middle.cons p.right).trans (List.Perm.swap _ _ _)
    have hspan := p.span_eq (fun he => hids (hbound he)) (hbelow p.left (by simp))
      (hbelow p.right (by simp [hrightMem]))
    have hrep : Tiled C ([p.merged] ++ ((r.remove p.rightId).snapshot ++ others)) := by
      refine hmove.replace (by simp) (fun y hy => ?_) (by simp [hspan]) fun y hy z hz => ?_
      · cases mem_singleton.mp hy
        exact (hbelow p.right (by simp [hrightMem])).mono (by
          have := (hbelow p.left (by simp)).resolve_left fun he => hids (hbound he)
          exact (p.adjacent ▸ this).le)
      · cases mem_singleton.mp hy
        exact Eq.trans_ne hleftId.symm (hmove.tiling.name_ne (mem_cons_of_mem _ hz))
    exact hrep.perm (perm_append_comm_assoc _ _ _)

theorem Call.tiled_next (hwf : r.WellFormed) (h : c.next r = some (r', c')) (hsound : c.Sound)
    (hcur : c.Current r (r.snapshot ++ (c.owed ++ others)))
    (ht : Tiled C (r.snapshot ++ (c.owed ++ others))) :
    Tiled C (r'.snapshot ++ (c'.owed ++ others)) ∧ c'.Sound := by
  obtain ⟨rfl, hc, hc', hs⟩ | ⟨d, next, hc, hs, hup⟩ | ⟨p, rfl, rfl, rfl⟩ | ⟨p, rfl, rfl, rfl⟩ |
    ⟨p, rfl, rfl, rfl⟩ := Call.next_cases h
  · rw [hc'] at *
    rw [hc] at ht
    exact ⟨ht, hs⟩
  · rw [hc, cons_append] at ht
    obtain ⟨rfl, ht⟩ := Tiled.upsertThen hwf (ht.perm perm_middle) hup
    exact ⟨ht, hs⟩
  · exact ⟨Tiled.splitRemove hwf hcur.1 hcur.2 ht, trivial⟩
  · refine ⟨Tiled.mergeRemoveLeft hcur.1 ht, (hwf.get_eq_some_iff.mp hcur.1).2, fun hids => ?_,
      hcur.2.2⟩
    exact Option.some.inj (hcur.2.1.symm.trans (hids ▸ hcur.1))
  · exact ⟨Tiled.mergeRemoveRight hwf hsound hcur ht, trivial⟩

end

/-! ## Every run -/

namespace RangeSystem

variable {s s' : RangeSystem} {a : RangeAction} {C : Set Key}

theorem exists_others {calls : List Call} {i : Nat} {c : Call} (hc : calls[i]? = some c) :
    ∃ others : List RangeDescriptor, ∀ c' : Call,
      ((calls.set i c').flatMap Call.owed).Perm (c'.owed ++ others) := by
  obtain ⟨hi, -⟩ := List.getElem?_eq_some_iff.mp hc
  refine ⟨(calls.take i).flatMap Call.owed ++ (calls.drop (i + 1)).flatMap Call.owed, fun c' => ?_⟩
  rw [set_eq_take_append_cons_drop, if_pos hi, flatMap_append, flatMap_cons]
  exact perm_append_comm_assoc _ _ _

theorem step_wellFormed (hwf : s.registry.WellFormed) (hstep : s.step a = some s') :
    s'.registry.WellFormed := by
  cases a with
  | split rangeId newRangeId splitKey | merge leftId rightId | lookup key => cases hstep; exact hwf
  | advance i =>
    simp only [step, bind_eq_bind, bind_eq_some_iff] at hstep
    obtain ⟨c, -, ⟨r', c'⟩, hnext, hs'⟩ := hstep
    cases hs'
    exact Call.wellFormed_next hwf hnext

/-- Registry and open calls tile `C`, and every answer for a key of `C` was right. -/
structure Inv (C : Set Key) (s : RangeSystem) : Prop where
  wellFormed : s.registry.WellFormed
  tiled : Tiled C s.pieces
  sound : ∀ c ∈ s.calls, c.Sound
  answers : ∀ key answer, (key, answer) ∈ s.answers → key ∈ C →
    ∃ d, answer = some d ∧ d.Contains key

theorem Inv.lookup (hinv : Inv C s) {key : Key} (hkey : key ∈ C)
    (hfree : ∀ call ∈ s.calls, ∀ d ∈ call.owed, ¬d.Contains key) :
    ∃ d, s.registry.lookup key = some d ∧ d.Contains key := by
  rw [← hinv.tiled.tiling.cover_eq] at hkey
  obtain ⟨d, hd, hcontains⟩ := hkey
  rcases mem_append.mp hd with hd | hd
  · exact ⟨d, hinv.wellFormed.lookup hd hcontains, hcontains⟩
  · obtain ⟨call, hcall, hd⟩ := mem_flatMap.mp hd
    exact absurd hcontains (hfree call hcall d hd)

theorem Inv.newCall (hinv : Inv C s) {c : Call} (hsound : c.Sound) (howed : c.owed = []) :
    Inv C { s with calls := s.calls ++ [c] } := by
  refine ⟨hinv.wellFormed, ?_, fun c' hc' => ?_, hinv.answers⟩
  · have hpieces : pieces { s with calls := s.calls ++ [c] } = s.pieces := by
      simp [pieces, howed]
    rw [hpieces]
    exact hinv.tiled
  · rcases mem_append.mp hc' with hc' | hc'
    · exact hinv.sound c' hc'
    · exact mem_singleton.mp hc' ▸ hsound

theorem step_inv (hinv : Inv C s) (hund : s.Undisturbed a) (hstep : s.step a = some s') :
    Inv C s' := by
  cases a with
  | split rangeId newRangeId splitKey | merge leftId rightId =>
    cases hstep; exact hinv.newCall trivial rfl
  | lookup key =>
    cases hstep
    refine ⟨hinv.wellFormed, hinv.tiled, hinv.sound, fun k answer hmem hk => ?_⟩
    rcases mem_append.mp hmem with hmem | hmem
    · exact hinv.answers k answer hmem hk
    · cases mem_singleton.mp hmem
      exact hinv.lookup hk hund
  | advance i =>
    simp only [step, bind_eq_bind, bind_eq_some_iff] at hstep
    obtain ⟨c, hc, ⟨r', c'⟩, hnext, hs'⟩ := hstep
    cases hs'
    obtain ⟨others, hothers⟩ := exists_others hc
    have hself : s.pieces.Perm (s.registry.snapshot ++ (c.owed ++ others)) := by
      have hset : s.calls.set i c = s.calls := by
        obtain ⟨hi, rfl⟩ := List.getElem?_eq_some_iff.mp hc
        exact set_getElem_self hi
      exact List.Perm.append_left _ (hset ▸ hothers c)
    have hcur : c.Current s.registry (s.registry.snapshot ++ (c.owed ++ others)) := by
      have := hund c hc
      cases c with
      | splitRemove p => exact ⟨this.1, fun d hd => this.2 d (hself.mem_iff.mpr hd)⟩
      | _ => exact this
    obtain ⟨htiled, hsound⟩ := Call.tiled_next hinv.wellFormed hnext
      (hinv.sound c (mem_of_getElem? hc)) hcur (hinv.tiled.perm hself)
    refine ⟨Call.wellFormed_next hinv.wellFormed hnext,
      htiled.perm (List.Perm.append_left _ (hothers c').symm), fun d hd => ?_, hinv.answers⟩
    rcases mem_or_eq_of_mem_set hd with hd | rfl
    · exact hinv.sound d hd
    · exact hsound

theorem inv_init {r : RegistryInner} (hwf : r.WellFormed) :
    Inv {key | ∃ d ∈ r.snapshot, d.Contains key} { registry := r } := by
  refine ⟨hwf, ⟨⟨?_, by simp [pieces, Tiles.cover, RangeDescriptor.span]⟩, fun d hd => ?_⟩,
    nofun, nofun⟩
  · simp only [pieces, flatMap_nil, append_nil, RegistryInner.snapshot]
    refine pairwise_map.mpr (ordered_keys_toList.imp_of_mem ?_)
    intro p q hp hq hlt
    have hp := mem_toList_iff_getElem?_eq_some.mp hp
    have hq := mem_toList_iff_getElem?_eq_some.mp hq
    have hne : p.1 ≠ q.1 := (compare_lt_iff_lt.mp hlt).ne
    refine ⟨fun hid => hne ?_, ?_⟩
    · exact Option.some.inj ((hwf.start _ _ hp).2.1.symm.trans (hid ▸ (hwf.start _ _ hq).2.1))
    · by_contra hdis
      exact hwf.apart _ _ _ _ hp hq hne
        ((overlaps_iff (hwf.start _ _ hp).2.2 (hwf.start _ _ hq).2.2).mpr hdis)
  · rw [pieces, flatMap_nil, append_nil] at hd
    exact (hwf.start _ d (hwf.mem_snapshot_iff.mp hd)).2.2

/-- The ranges never overlap. In a run in which no call removes what it has not read and
no lookup falls between the removal of a range and its return, every lookup finds the
keys covered at the start, and when all calls have finished the same keys are covered. -/
theorem routing_keeps_keys {r : RegistryInner} (hwf : r.WellFormed) {as : List RangeAction}
    (hrun : Run.run step { registry := r } as = some s) :
    (∀ a ∈ s.registry.snapshot, ∀ b ∈ s.registry.snapshot, a ≠ b → ¬a.Overlaps b) ∧
    (Run.Along step Undisturbed { registry := r } as →
      (∀ key answer, (key, answer) ∈ s.answers → (∃ d ∈ r.snapshot, d.Contains key) →
        ∃ d, answer = some d ∧ d.Contains key) ∧
      ((∀ call ∈ s.calls, ∃ outcome, call = .finished outcome) →
        ∀ key, (∃ d ∈ s.registry.snapshot, d.Contains key) ↔ ∃ d ∈ r.snapshot, d.Contains key)) := by
  constructor
  · have hwf' : s.registry.WellFormed :=
      Run.run_preserves (I := fun s => s.registry.WellFormed) step_wellFormed hwf hrun
    intro a ha b hb hne
    have ha' := hwf'.mem_snapshot_iff.mp ha
    have hb' := hwf'.mem_snapshot_iff.mp hb
    refine hwf'.apart _ _ a b ha' hb' fun hkey => hne ?_
    rw [hkey] at ha'
    exact Option.some.inj (ha'.symm.trans hb')
  · intro halong
    have hinv := Run.run_preserves_along step_inv (inv_init hwf) halong hrun
    refine ⟨hinv.answers, fun hdone key => ?_⟩
    have howed : s.pieces = s.registry.snapshot := by
      have : s.calls.flatMap Call.owed = [] := flatMap_eq_nil_iff.mpr fun c hc => by
        obtain ⟨outcome, rfl⟩ := hdone c hc
        rfl
      rw [pieces, this, append_nil]
    have hcover := Set.ext_iff.mp hinv.tiled.tiling.cover_eq key
    rwa [howed] at hcover

theorem wellFormed_empty : RegistryInner.WellFormed {} :=
  ⟨fun _ _ h => by simp at h, fun _ _ h => by simp at h, fun _ _ _ _ h => by simp at h⟩

def byteKey (bytes : List (Fin 256)) : Key := bytes

def descriptor (rangeId : Nat) (startKey endKey : List (Fin 256)) : RangeDescriptor :=
  { rangeId, startKey, endKey, replicas := [], shard := 0, lease := none, generation := 0 }

def oneRange : RegistryInner := (RegistryInner.upsert {} (descriptor 1 [] [])).2

theorem wellFormed_oneRange : oneRange.WellFormed := wellFormed_empty.upsert

def twoRanges : RegistryInner :=
  ((RegistryInner.upsert {} (descriptor 1 [] [5])).2.upsert (descriptor 2 [5] [])).2

def splitThenMerge : List RangeAction :=
  .split 1 2 (byteKey [5]) :: List.replicate 7 (.advance 0) ++
    .lookup (byteKey [3]) :: .merge 1 2 :: List.replicate 6 (.advance 1) ++
    [.lookup (byteKey [7])]

theorem routing_keeps_keys_splitThenMerge :
    ∃ s, Run.run step { registry := oneRange } splitThenMerge = some s ∧
      (s.answers.map fun a => a.2.map (·.endKey)) = [some (byteKey [5]), some keyMax] ∧
      ∀ key, (∃ d ∈ s.registry.snapshot, d.Contains key) ↔
        ∃ d ∈ oneRange.snapshot, d.Contains key := by
  have hrun : Run.run step { registry := oneRange } splitThenMerge =
      some (Run.after step { registry := oneRange } splitThenMerge) :=
    Run.run_eq_some_after (by decide +kernel)
  refine ⟨_, hrun, by decide +kernel,
    ((routing_keeps_keys wellFormed_oneRange hrun).2 (by decide +kernel)).2 fun call hcall => ?_⟩
  have hdone : ∀ call ∈ (Run.after step { registry := oneRange } splitThenMerge).calls,
      (match call with | .finished _ => true | _ => false) = true := by decide +kernel
  have := hdone call hcall
  cases call with
  | finished outcome => exact ⟨outcome, rfl⟩
  | _ => cases this

/-- A key of a range that a split has removed is not found; a split that has read its
range before another split changed it, and a merge of the last range with the first,
end with an error and leave keys without a range. -/
theorem keys_lost :
    (Run.after step { registry := oneRange }
      (.split 1 2 (byteKey [5]) :: List.replicate 3 (.advance 0) ++ [.lookup (byteKey [3])])).answers =
        [(byteKey [3], none)] ∧
    (Run.after step { registry := oneRange }
      (.split 1 2 (byteKey [5]) :: .split 1 3 (byteKey [7]) :: .advance 1 ::
        List.replicate 7 (.advance 0) ++ List.replicate 3 (.advance 1) ++
        [.lookup (byteKey [3])])).answers = [(byteKey [3], none)] ∧
    (Run.after step { registry := twoRanges }
      (.merge 2 1 :: List.replicate 5 (.advance 0) ++ [.lookup (byteKey [3])])).answers =
        [(byteKey [3], none)] ∧
    (∃ d ∈ oneRange.snapshot, d.Contains (byteKey [3])) ∧
    ∃ d ∈ twoRanges.snapshot, d.Contains (byteKey [3]) := by
  decide +kernel

end RangeSystem

end AionDb.Ranges
