import Mathlib.Data.Finset.Card
import Mathlib.Tactic.Linarith

/-!
# Writing keys of ordered maps and sets

Writing a key with a value or with nothing, loops that write one key after
another, and what a lookup finds after them. Everything is over a map whose
comparison is a lawful total order.
-/

namespace OrdMap

open Std ExtTreeMap List

variable {κ β : Type*} {cmp : κ → κ → Ordering} [TransCmp cmp]

@[simp] theorem toList_empty : (∅ : ExtTreeMap κ β cmp).toList = [] := by
  rw [← List.isEmpty_iff, isEmpty_toList]
  exact isEmpty_empty

@[simp] theorem toList_emptySet : (∅ : ExtTreeSet κ cmp).toList = [] := by
  rw [← List.isEmpty_iff, ExtTreeSet.isEmpty_toList]
  exact ExtTreeSet.isEmpty_empty

theorem card_keys_filter [DecidableEq κ] (m : ExtTreeMap κ β cmp) (f : κ × β → Bool) :
    ((m.toList.filter f).map Prod.fst).toFinset.card = (m.toList.filter f).length := by
  rw [toFinset_card_of_nodup, length_map]
  have hkeys : (m.toList.map Prod.fst).Nodup := by
    rw [map_fst_toList_eq_keys]
    exact nodup_keys
  exact hkeys.sublist (filter_sublist.map _)

variable [LawfulEqCmp cmp]

def insertAll (m : ExtTreeMap κ β cmp) (v : β) (ks : List κ) : ExtTreeMap κ β cmp :=
  ks.foldl (fun m k => m.insert k v) m

theorem getElem?_insertAll [DecidableEq κ] (m : ExtTreeMap κ β cmp) (v : β) (ks : List κ) (k : κ) :
    (insertAll m v ks)[k]? = if k ∈ ks then some v else m[k]? := by
  induction ks generalizing m with
  | nil => simp [insertAll]
  | cons a ks ih =>
    have hstep : insertAll m v (a :: ks) = insertAll (m.insert a v) v ks := rfl
    rw [hstep, ih]
    by_cases hk : k ∈ ks
    · simp [hk]
    · by_cases ha : a = k
      · simp [ha]
      · simp [hk, ha, Ne.symm ha, ExtTreeMap.getElem?_insert]

def setEntry (m : ExtTreeMap κ β cmp) (k : κ) : Option β → ExtTreeMap κ β cmp
  | some v => m.insert k v
  | none => m.erase k

@[simp]
theorem getElem?_setEntry [DecidableEq κ] (m : ExtTreeMap κ β cmp) (k : κ) (v : Option β) (k' : κ) :
    (setEntry m k v)[k']? = if k' = k then v else m[k']? := by
  cases v <;>
    simp [setEntry, ExtTreeMap.getElem?_insert, getElem?_erase, @eq_comm κ k]

def setMember (s : ExtTreeSet κ cmp) (k : κ) : Bool → ExtTreeSet κ cmp
  | true => s.insert k
  | false => s.erase k

@[simp]
theorem contains_setMember [DecidableEq κ] (s : ExtTreeSet κ cmp) (k : κ) (b : Bool) (k' : κ) :
    (setMember s k b).contains k' = if k' = k then b else s.contains k' := by
  cases b <;> by_cases h : k' = k <;>
    simp [setMember, ExtTreeSet.contains_insert, ExtTreeSet.contains_erase, h, @eq_comm κ k]

theorem lookup_eq_some_iff [DecidableEq κ] {l : List (κ × β)} (hnodup : (l.map (·.1)).Nodup) {k : κ}
    {v : β} : l.lookup k = some v ↔ (k, v) ∈ l := by
  induction l with
  | nil => simp
  | cons p l ih =>
    obtain ⟨k', v'⟩ := p
    obtain ⟨hnot, hrest⟩ := nodup_cons.mp hnodup
    rw [lookup_cons, mem_cons, Prod.mk.injEq]
    by_cases hk : k = k'
    · subst hk
      have : (k, v) ∉ l := fun hmem => hnot (mem_map_of_mem (f := (·.1)) hmem)
      simp [this, @eq_comm _ v]
    · have hbeq : (k == k') = false := beq_eq_false_iff_ne.mpr hk
      simp [hbeq, hk, ih hrest]

theorem lookup_eq_none [DecidableEq κ] {l : List (κ × β)} {k : κ} (h : k ∉ l.map (·.1)) :
    l.lookup k = none := by
  rw [lookup_eq_none_iff]
  intro p hp
  simpa using fun heq : k = p.1 => h (heq ▸ mem_map_of_mem hp)

theorem nodup_keys_toList (m : ExtTreeMap κ β cmp) : (m.toList.map (·.1)).Nodup := by
  have h := m.distinct_keys_toList
  rw [List.Nodup, pairwise_map]
  exact h.imp fun hne heq => hne (by rw [heq]; exact ReflCmp.compare_self)

theorem lookup_toList [DecidableEq κ] (m : ExtTreeMap κ β cmp) {l : List (κ × β)}
    (hl : l.Perm m.toList) (k : κ) : l.lookup k = m[k]? := by
  have hnodup : (l.map (·.1)).Nodup := (hl.map _).nodup_iff.mpr (nodup_keys_toList m)
  refine Option.ext fun v => ?_
  rw [lookup_eq_some_iff hnodup, hl.mem_iff, mem_toList_iff_getElem?_eq_some]

theorem getElem?_foldl_insert [DecidableEq κ] {γ : Type*} (f : γ → β) {l : List (κ × γ)}
    (hnodup : (l.map (·.1)).Nodup) (m : ExtTreeMap κ β cmp) (k : κ) :
    (l.foldl (fun m p => m.insert p.1 (f p.2)) m)[k]? = ((l.lookup k).map f).or m[k]? := by
  induction l generalizing m with
  | nil => simp
  | cons p l ih =>
    obtain ⟨hnot, hrest⟩ := nodup_cons.mp hnodup
    rw [foldl_cons, ih hrest, ExtTreeMap.getElem?_insert, lookup_cons]
    by_cases hk : k = p.1
    · subst hk
      simp [lookup_eq_none hnot]
    · simp [Ne.symm hk, beq_eq_false_iff_ne.mpr hk]

theorem mem_keys_filter [DecidableEq κ] {m : ExtTreeMap κ β cmp} {f : κ × β → Bool} {k : κ} :
    k ∈ ((m.toList.filter f).map Prod.fst).toFinset ↔ ∃ v, m[k]? = some v ∧ f (k, v) = true := by
  simp only [mem_toFinset, mem_map, mem_filter, Prod.exists, exists_and_right,
    exists_eq_right, mem_toList_iff_getElem?_eq_some]

/-! ## Writes one after another -/

section
variable [DecidableEq κ]

def lastWrite : List (κ × Option β) → κ → Option (Option β)
  | [], _ => none
  | w :: ws, k => (lastWrite ws k).or (if w.1 = k then some w.2 else none)

def writeAll (m : ExtTreeMap κ β cmp) (ws : List (κ × Option β)) : ExtTreeMap κ β cmp :=
  ws.foldl (fun m w => setEntry m w.1 w.2) m

theorem getElem?_writeAll (m : ExtTreeMap κ β cmp) (ws : List (κ × Option β)) (k : κ) :
    (writeAll m ws)[k]? = (lastWrite ws k).getD m[k]? := by
  induction ws generalizing m with
  | nil => rfl
  | cons w ws ih =>
    show (writeAll (setEntry m w.1 w.2) ws)[k]? = _
    rw [ih, lastWrite, getElem?_setEntry]
    cases lastWrite ws k with
    | some v => rfl
    | none => by_cases h : w.1 = k <;> simp [h, @eq_comm κ k]

theorem lastWrite_append (xs ys : List (κ × Option β)) (k : κ) :
    lastWrite (xs ++ ys) k = (lastWrite ys k).or (lastWrite xs k) := by
  induction xs with
  | nil => simp [lastWrite]
  | cons w xs ih => rw [cons_append, lastWrite, ih, lastWrite, Option.or_assoc]

theorem lastWrite_eq_none {ws : List (κ × Option β)} {k : κ} (h : ∀ w ∈ ws, w.1 ≠ k) :
    lastWrite ws k = none := by
  induction ws with
  | nil => rfl
  | cons w ws ih =>
    rw [lastWrite, ih fun w' hw' => h w' (mem_cons_of_mem _ hw'),
      if_neg (h w (mem_cons_self ..))]
    rfl

theorem exists_of_lastWrite {ws : List (κ × Option β)} {k : κ} {v : Option β}
    (h : lastWrite ws k = some v) : (k, v) ∈ ws := by
  induction ws with
  | nil => cases h
  | cons w ws ih =>
    rw [lastWrite, Option.or_eq_some_iff] at h
    rcases h with h | ⟨-, h⟩
    · exact mem_cons_of_mem _ (ih h)
    · split at h
      · next hk => cases h; subst hk; exact mem_cons_self ..
      · cases h

omit [LawfulEqCmp cmp] [DecidableEq κ] in
theorem writeAll_append (m : ExtTreeMap κ β cmp) (xs ys : List (κ × Option β)) :
    writeAll m (xs ++ ys) = writeAll (writeAll m xs) ys := foldl_append ..

theorem writeAll_again (m : ExtTreeMap κ β cmp) (xs ys zs : List (κ × Option β))
    (h : ∀ y ∈ ys, ∀ z ∈ zs, y.1 ≠ z.1) :
    writeAll (writeAll m (xs ++ ys ++ zs)) ys = writeAll m (xs ++ ys ++ zs) := by
  refine ext_getElem? fun k => ?_
  rw [getElem?_writeAll, getElem?_writeAll]
  cases hk : lastWrite ys k with
  | none => rfl
  | some v =>
    have hz : lastWrite zs k = none :=
      lastWrite_eq_none fun z hz => (h _ (exists_of_lastWrite hk) z hz).symm
    rw [lastWrite_append, lastWrite_append, hz, hk]
    rfl

end

/-! ### The entries as a list, up to order -/

theorem nodup_toList (m : ExtTreeMap κ β cmp) : m.toList.Nodup :=
  List.Nodup.of_map _ (nodup_keys_toList m)

variable {v : β} {m : ExtTreeMap κ β cmp} {k : κ}

theorem toList_perm_erase [DecidableEq κ] (h : m[k]? = some v) :
    m.toList.Perm ((k, v) :: (m.erase k).toList) := by
  refine (perm_ext_iff_of_nodup (nodup_toList m) (nodup_cons.mpr
    ⟨fun hmem => ?_, nodup_toList _⟩)).mpr fun p => ?_
  · rw [mem_toList_iff_getElem?_eq_some] at hmem
    simp at hmem
  · obtain ⟨k', v'⟩ := p
    rw [mem_cons, mem_toList_iff_getElem?_eq_some,
      mem_toList_iff_getElem?_eq_some, getElem?_erase, Prod.mk.injEq]
    by_cases hk : k = k'
    · subst hk
      simp [h, @eq_comm _ v]
    · simp [hk, Ne.symm hk]

theorem toList_insert_perm [DecidableEq κ] (h : m[k]? = none) :
    (m.insert k v).toList.Perm ((k, v) :: m.toList) := by
  have hself : (m.insert k v)[k]? = some v := by simp
  have herase : (m.insert k v).erase k = m := by
    refine ext_getElem? fun k' => ?_
    rw [getElem?_erase, ExtTreeMap.getElem?_insert]
    by_cases hk : k = k'
    · subst hk
      simp [h]
    · simp [hk]
  have hperm := toList_perm_erase hself
  rwa [herase] at hperm

end OrdMap
