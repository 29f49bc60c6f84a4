import Mathlib.Algebra.Order.Ring.Nat
import Mathlib.Data.List.Nodup

/-!
# Searching a finite graph

A graph is a successor list for every node. `search` walks it with a stack and
a list of visited nodes, as a worklist loop does, and is told how many rounds it
may take; `search_iff` says that with enough rounds it finds the target exactly
when a path leads to it. The last part is about the edges out of one node:
when they close no path back to the node, they close no cycle at all.
-/

namespace Reach

open Relation List

variable {α : Type*}

abbrev Edge (succ : α → List α) (a b : α) : Prop := b ∈ succ a

variable [DecidableEq α]

/-- Pops a node, stops at the target, and goes on with the successors of a new one. -/
def search (succ : α → List α) (target : α) : Nat → List α → List α → Bool
  | 0, _, _ => false
  | _ + 1, [], _ => false
  | fuel + 1, x :: stack, visited =>
    if x = target then true
    else if x ∈ visited then search succ target fuel stack visited
    else search succ target fuel (succ x ++ stack) (x :: visited)

variable {succ : α → List α} {target : α} {R R' : α → α → Prop} {keys stack visited : List α}
  {fuel : Nat} {a x : α}

theorem path_of_search (h : search succ target fuel stack visited = true) :
    ∃ x ∈ stack, ReflTransGen (Edge succ) x target := by
  induction fuel generalizing stack visited with
  | zero => simp [search] at h
  | succ fuel ih =>
    cases stack with
    | nil => simp [search] at h
    | cons x stack =>
      unfold search at h
      split at h
      · next hx => exact ⟨x, mem_cons_self .., hx ▸ .refl⟩
      split at h
      · obtain ⟨y, hy, hpath⟩ := ih h
        exact ⟨y, mem_cons_of_mem _ hy, hpath⟩
      · obtain ⟨y, hy, hpath⟩ := ih h
        rcases mem_append.mp hy with hy | hy
        · exact ⟨x, mem_cons_self .., .head hy hpath⟩
        · exact ⟨y, mem_cons_of_mem _ hy, hpath⟩

/-- What is visited is not the target, and its successors are visited or waiting. -/
def Closed (succ : α → List α) (target : α) (stack visited : List α) : Prop :=
  ∀ v ∈ visited, v ≠ target ∧ ∀ w ∈ succ v, w ∈ visited ∨ w ∈ stack

theorem Closed.leaves (h : Closed succ target stack visited) {v : α} (hv : v ∈ visited)
    (hpath : ReflTransGen (Edge succ) v target) :
    ∃ y ∈ stack, y ∉ visited ∧ ReflTransGen (Edge succ) y target := by
  induction hpath using ReflTransGen.head_induction_on with
  | refl => exact absurd rfl (h _ hv).1
  | head hedge hrest ih =>
    rename_i a c
    by_cases hc : c ∈ visited
    · exact ih hc
    · exact ⟨c, ((h a hv).2 c hedge).resolve_left hc, hc, hrest⟩

/-- The edges out of the nodes that are not visited yet. -/
def unvisited (succ : α → List α) (keys visited : List α) : Nat :=
  ((keys.filter (· ∉ visited)).map fun k => (succ k).length).sum

section

variable (hnodup : keys.Nodup) (hkeys : ∀ a, succ a ≠ [] → a ∈ keys)
include hnodup hkeys

theorem unvisited_cons_le (hx : x ∉ visited) :
    (succ x).length + unvisited succ keys (x :: visited) ≤ unvisited succ keys visited := by
  have hsame : ∀ k : List α, x ∉ k → k.filter (· ∉ x :: visited) = k.filter (· ∉ visited) := by
    intro k hk
    refine filter_congr fun a ha => ?_
    have hne : a ≠ x := fun heq => hk (heq ▸ ha)
    simp [hne]
  by_cases hmem : x ∈ keys
  · obtain ⟨l, r, rfl⟩ := append_of_mem hmem
    have hl : x ∉ l := by
      rw [nodup_append] at hnodup
      exact fun hl => hnodup.2.2 x hl x (mem_cons_self ..) rfl
    have hr : x ∉ r := (nodup_cons.mp (nodup_append.mp hnodup).2.1).1
    simp only [unvisited, filter_append, filter_cons, hsame l hl, hsame r hr, hx,
      mem_cons_self, not_true_eq_false, not_false_eq_true, decide_true, decide_false,
      if_true, Bool.false_eq_true, if_false, map_append, map_cons, sum_append,
      sum_cons]
    omega
  · have hnone : succ x = [] := by
      by_contra hne
      exact hmem (hkeys x hne)
    simp only [unvisited, hsame keys hmem, hnone, length_nil, Nat.zero_add, Nat.le_refl]

theorem search_of_path (hfuel : stack.length + unvisited succ keys visited < fuel)
    (hclosed : Closed succ target stack visited)
    (hpath : ∃ x ∈ stack, ReflTransGen (Edge succ) x target) :
    search succ target fuel stack visited = true := by
  induction fuel generalizing stack visited with
  | zero => omega
  | succ fuel ih =>
    obtain ⟨x0, hx0, hto⟩ := hpath
    cases stack with
    | nil => cases hx0
    | cons x stack =>
      rw [length_cons] at hfuel
      unfold search
      split
      · rfl
      next hne =>
      split
      · -- a node seen before adds nothing: the path goes on over the rest of the stack
        next hseen =>
        have hrest : Closed succ target stack visited := fun v hv =>
          ⟨(hclosed v hv).1, fun w hw => ((hclosed v hv).2 w hw).elim .inl fun hmem =>
            (mem_cons.mp hmem).elim (fun heq => .inl (heq ▸ hseen)) .inr⟩
        refine ih (by omega) hrest ?_
        rcases mem_cons.mp hx0 with rfl | hx0
        · obtain ⟨y, hy, -, hyto⟩ := hrest.leaves hseen hto
          exact ⟨y, hy, hyto⟩
        · exact ⟨x0, hx0, hto⟩
      · next hnew =>
        have hless := unvisited_cons_le hnodup hkeys hnew
        refine ih (by rw [length_append]; omega) ?_ ?_
        · intro v hv
          rcases mem_cons.mp hv with rfl | hv
          · exact ⟨hne, fun w hw => .inr (mem_append_left _ hw)⟩
          refine ⟨(hclosed v hv).1, fun w hw => ?_⟩
          rcases (hclosed v hv).2 w hw with hw | hw
          · exact .inl (mem_cons_of_mem _ hw)
          · rcases mem_cons.mp hw with rfl | hw
            · exact .inl (mem_cons_self ..)
            · exact .inr (mem_append_right _ hw)
        · rcases mem_cons.mp hx0 with rfl | hx0
          · rcases ReflTransGen.cases_head hto with rfl | ⟨w, hw, hwto⟩
            · exact absurd rfl hne
            · exact ⟨w, mem_append_left _ hw, hwto⟩
          · exact ⟨x0, mem_append_right _ hx0, hto⟩

theorem search_iff {start : α} (hfuel : 1 + (keys.map fun k => (succ k).length).sum < fuel) :
    search succ target fuel [start] [] = true ↔ ReflTransGen (Edge succ) start target := by
  constructor
  · intro h
    obtain ⟨x, hx, hpath⟩ := path_of_search h
    exact mem_singleton.mp hx ▸ hpath
  · intro hpath
    refine search_of_path hnodup hkeys ?_ (fun v hv => by cases hv)
      ⟨start, mem_singleton.mpr rfl, hpath⟩
    simpa [unvisited] using hfuel

end

/-! ## The edges out of one node -/

omit [DecidableEq α] in
theorem walk_of_newEdges (hold : ∀ x y, x ≠ a → R' x y → R x y) {y : α} (h : TransGen R' x y) :
    TransGen R x y ∨ (ReflTransGen R' x a ∧ ∃ b, R' a b ∧ ReflTransGen R' b y) := by
  induction h with
  | single hxy =>
    rename_i y
    by_cases hx : x = a
    · subst hx
      exact .inr ⟨.refl, y, hxy, .refl⟩
    · exact .inl (.single (hold x y hx hxy))
  | tail hxy hyz ih =>
    rename_i y z
    rcases ih with hw | ⟨hxa, b, hab, hby⟩
    · by_cases hy : y = a
      · subst hy
        exact .inr ⟨hxy.to_reflTransGen, z, hyz, .refl⟩
      · exact .inl (hw.tail (hold y z hy hyz))
    · exact .inr ⟨hxa, b, hab, hby.tail hyz⟩

omit [DecidableEq α] in
theorem acyclic_of_newEdges (hold : ∀ x y, x ≠ a → R' x y → R x y) (hacyclic : ∀ x, ¬TransGen R x x)
    (hback : ∀ b, R' a b → ¬ReflTransGen R' b a) (x : α) : ¬TransGen R' x x := by
  intro hcycle
  rcases walk_of_newEdges hold hcycle with hw | ⟨hxa, b, hab, hbx⟩
  · exact hacyclic x hw
  · exact hback b hab (hbx.trans hxa)

end Reach
