import Mathlib.Algebra.Order.Ring.Nat

/-!
# Walking a tree with a stack

A tree is given by the parts of each node. `walk` is the loop that pops a node,
visits it and pushes its parts. It ends because a node outweighs its parts
taken together, and it visits exactly what the nodes of the stack are made of
(`mem_walk`), so a question about the loop becomes one about paths, for which
`Below` has the two ends.
-/

namespace Worklist

open Relation

variable {α : Type*} {parts : α → List α} {a b : α}

/-- Every node outweighs its parts together. -/
def Shrinks (parts : α → List α) : Prop :=
  ∃ weight : α → Nat, ∀ a, ((parts a).map weight).sum < weight a

theorem Shrinks.of_append {rest : α → List α} (h : Shrinks fun a => parts a ++ rest a) :
    Shrinks parts := by
  obtain ⟨weight, hlt⟩ := h
  refine ⟨weight, fun a => ?_⟩
  have := hlt a
  simp only [List.map_append, List.sum_append] at this
  omega

/-- The nodes in the order the stack gives them up. -/
def walk (parts : α → List α) (h : Shrinks parts) : List α → List α
  | [] => []
  | a :: stack => a :: walk parts h (parts a ++ stack)
termination_by stack => (stack.map h.choose).sum
decreasing_by
  have hlt := h.choose_spec a
  simp only [List.map_append, List.sum_append, List.map_cons, List.sum_cons]
  omega

def Below (parts : α → List α) (a b : α) : Prop := ReflTransGen (fun x y => y ∈ parts x) a b

theorem Below.refl : Below parts a a := ReflTransGen.refl

theorem Below.head {c : α} (h : b ∈ parts a) (hc : Below parts b c) : Below parts a c :=
  ReflTransGen.head h hc

theorem below_iff : Below parts a b ↔ a = b ∨ ∃ c ∈ parts a, Below parts c b :=
  ReflTransGen.cases_head_iff

theorem Below.of_not_skipped {pushed skipped : α → List α}
    (h : Below (fun x => pushed x ++ skipped x) a b)
    (hskip : ∀ x, Below (fun x => pushed x ++ skipped x) a x → ∀ y ∈ skipped x,
      ¬ Below (fun x => pushed x ++ skipped x) y b) : Below pushed a b := by
  induction h using ReflTransGen.head_induction_on with
  | refl => exact .refl
  | @head x y hy hbelow ih =>
    have hpushed := ih fun z hz => hskip z (.head hy hz)
    rcases List.mem_append.mp hy with hy | hy
    · exact .head hy hpushed
    · exact absurd hbelow (hskip x .refl y hy)

theorem mem_walk (h : Shrinks parts) (stack : List α) :
    b ∈ walk parts h stack ↔ ∃ a ∈ stack, Below parts a b := by
  fun_induction walk parts h stack with
  | case1 => simp
  | case2 a stack ih =>
    simp only [List.mem_cons, ih, List.mem_append, exists_eq_or_imp, below_iff (a := a)]
    constructor
    · rintro (rfl | ⟨c, hc | hc, hbelow⟩)
      · exact .inl (.inl rfl)
      · exact .inl (.inr ⟨c, hc, hbelow⟩)
      · exact .inr ⟨c, hc, hbelow⟩
    · rintro ((rfl | ⟨c, hc, hbelow⟩) | ⟨c, hc, hbelow⟩)
      · exact .inl rfl
      · exact .inr ⟨c, .inl hc, hbelow⟩
      · exact .inr ⟨c, .inr hc, hbelow⟩

theorem forall_below_iff (h : Shrinks parts) {P : α → Prop} :
    (∀ b, Below parts a b → P b) ↔ ∀ b ∈ walk parts h [a], P b := by
  simp [mem_walk]

end Worklist
