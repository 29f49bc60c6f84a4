import Mathlib.Data.Set.Lattice
import Mathlib.Order.CompletePartialOrder

/-!
# Tilings

A list of pieces tiles a set when the pieces have different names, do not meet
and together are the set. A tiling stays one when some of its pieces are cut
or glued: what has to be looked at are the pieces replaced, not the others.
-/

namespace Tiles

variable {ρ κ ι : Type*} {span : ρ → Set κ} {name : ρ → ι} {C : Set κ} {xs ys rest : List ρ}

def cover (span : ρ → Set κ) (l : List ρ) : Set κ := {k | ∃ d ∈ l, k ∈ span d}

def Apart (span : ρ → Set κ) (name : ρ → ι) (a b : ρ) : Prop :=
  name a ≠ name b ∧ Disjoint (span a) (span b)

theorem Apart.symm {a b : ρ} (h : Apart span name a b) : Apart span name b a :=
  ⟨h.1.symm, h.2.symm⟩

structure Tiling (span : ρ → Set κ) (name : ρ → ι) (C : Set κ) (l : List ρ) : Prop where
  apart : l.Pairwise (Apart span name)
  cover_eq : cover span l = C

theorem cover_append : cover span (xs ++ ys) = cover span xs ∪ cover span ys := by
  ext k
  simp [cover, or_and_right, exists_or]

@[simp] theorem cover_nil : cover span [] = ∅ := by simp [cover]

@[simp] theorem cover_cons {d : ρ} : cover span (d :: xs) = span d ∪ cover span xs := by
  ext k
  simp [cover]

theorem Tiling.perm (h : Tiling span name C xs) (hperm : xs.Perm ys) : Tiling span name C ys := by
  refine ⟨(hperm.pairwise_iff fun h => h.symm).mp h.apart, ?_⟩
  rw [← h.cover_eq]
  ext k
  simp [cover, hperm.mem_iff]

theorem Tiling.replace (h : Tiling span name C (xs ++ rest)) (hys : ys.Pairwise (Apart span name))
    (hcover : cover span ys = cover span xs) (hname : ∀ y ∈ ys, ∀ z ∈ rest, name y ≠ name z) :
    Tiling span name C (ys ++ rest) := by
  obtain ⟨-, hrest, hacross⟩ := List.pairwise_append.mp h.apart
  refine ⟨List.pairwise_append.mpr ⟨hys, hrest, fun y hy z hz => ⟨hname y hy z hz, ?_⟩⟩, ?_⟩
  · refine Set.disjoint_left.mpr fun k hk hkz => ?_
    have hmem : k ∈ cover span xs := hcover ▸ ⟨y, hy, hk⟩
    obtain ⟨x, hx, hkx⟩ := hmem
    exact Set.disjoint_left.mp (hacross x hx z hz).2 hkx hkz
  · rw [← h.cover_eq, cover_append, cover_append, hcover]

theorem Tiling.name_ne {d : ρ} (h : Tiling span name C (d :: rest)) {z : ρ} (hz : z ∈ rest) :
    name d ≠ name z :=
  ((List.pairwise_cons.mp h.apart).1 z hz).1

end Tiles
