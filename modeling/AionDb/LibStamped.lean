import Mathlib.Data.List.Basic

/-!
# Caches stamped with a generation

An entry of a cache carries the generation at which it was stored, and a reader takes it only if
the generation has not moved since. `Holds` is what a stamp has to guarantee for that test to be
right: an entry with the current stamp has the value that the key has now. Two phases are told
apart. While a change is announced but not made (`due`), no entry may have the current stamp;
once a change is made but not announced (not `quiet`), nothing is known of the entries.
-/

namespace Stamped

variable {K E : Type*}

structure Entry (K E : Type*) where
  key : K
  stamp : Nat
  value : E

/-- What is known of an entry at generation `now`, when `f` gives the value of each key. -/
structure Holds (now : Nat) (due quiet : Prop) (f : K → E) (x : Entry K E) : Prop where
  le : x.stamp ≤ now
  lt : due → x.stamp < now
  value : quiet → x.stamp = now → x.value = f x.key

namespace Holds

variable {now : Nat} {due due' quiet quiet' : Prop} {f g : K → E} {x : Entry K E}

theorem of_lt (h : x.stamp < now) : Holds now due quiet f x :=
  ⟨Nat.le_of_lt h, fun _ => h, fun _ heq => absurd heq (Nat.ne_of_lt h)⟩

theorem tick (h : Holds now due quiet f x) : Holds (now + 1) due' quiet' g x :=
  of_lt (Nat.lt_succ_of_le h.le)

theorem mono (h : Holds now due quiet f x) (hdue : due' → due) (hquiet : quiet' → quiet)
    (hf : quiet' → f x.key = g x.key) : Holds now due' quiet' g x := by
  refine ⟨h.le, fun hd => h.lt (hdue hd), ?_⟩
  intro hq hstamp
  rw [h.value (hquiet hq) hstamp, hf hq]

theorem store (hdue : ¬ due) (hvalue : quiet → x.value = f x.key) (hstamp : x.stamp = now) :
    Holds now due quiet f x :=
  ⟨Nat.le_of_eq hstamp, fun hd => absurd hd hdue, fun hq _ => hvalue hq⟩

end Holds

structure Cache (K E : Type*) where
  entries : List (Entry K E) := []

namespace Cache

variable [DecidableEq K]

/-- The value stored for the key, if its stamp is current. -/
def fresh (c : Cache K E) (now : Nat) (key : K) : Option E :=
  (c.entries.find? (·.key = key)).bind fun x => if x.stamp = now then some x.value else none

def put (capacity : Nat) (c : Cache K E) (x : Entry K E) : Cache K E :=
  let entries := if capacity ≤ c.entries.length then [] else c.entries
  { entries := x :: entries.filter (·.key ≠ x.key) }

def fetch (capacity : Nat) (c : Cache K E) (now : Nat) (key : K) (computed : E)
    (storable : E → Bool) : E × Cache K E :=
  match c.fresh now key with
  | some value => (value, c)
  | none => (computed, if storable computed then c.put capacity ⟨key, now, computed⟩ else c)

def All (P : Entry K E → Prop) (c : Cache K E) : Prop := ∀ x ∈ c.entries, P x

omit [DecidableEq K] in
theorem All.imp {P Q : Entry K E → Prop} {c : Cache K E} (h : c.All P) (himp : ∀ x, P x → Q x) :
    c.All Q :=
  fun x hx => himp x (h x hx)

theorem All.put {P : Entry K E → Prop} {c : Cache K E} (h : c.All P) {x : Entry K E} (hx : P x)
    (capacity : Nat) : (c.put capacity x).All P := by
  intro y hy
  rcases List.mem_cons.mp hy with rfl | hy
  · exact hx
  · have hmem := List.mem_of_mem_filter hy
    split at hmem
    · simp at hmem
    · exact h y hmem

theorem exists_of_fresh {c : Cache K E} {now : Nat} {key : K} {value : E}
    (h : c.fresh now key = some value) :
    ∃ x ∈ c.entries, x.key = key ∧ x.stamp = now ∧ x.value = value := by
  obtain ⟨x, hx, hvalue⟩ := Option.bind_eq_some_iff.mp h
  split at hvalue
  · rename_i hstamp
    exact ⟨x, List.mem_of_find?_eq_some hx, by simpa using List.find?_some hx, hstamp,
      by simpa using hvalue⟩
  · cases hvalue

variable {now : Nat} {f : K → E} {c : Cache K E} {key : K}

theorem fresh_eq (h : c.All (Holds now False True f)) {value : E}
    (hfresh : c.fresh now key = some value) : value = f key := by
  obtain ⟨x, hx, rfl, hstamp, rfl⟩ := exists_of_fresh hfresh
  exact (h x hx).value trivial hstamp

theorem fetch_spec (capacity : Nat) (storable : E → Bool) (h : c.All (Holds now False True f))
    {computed : E} (hcomputed : computed = f key) :
    (c.fetch capacity now key computed storable).1 = f key ∧
      (c.fetch capacity now key computed storable).2.All (Holds now False True f) := by
  unfold fetch
  cases hfresh : c.fresh now key with
  | some value => exact ⟨fresh_eq h hfresh, h⟩
  | none =>
    refine ⟨hcomputed, ?_⟩
    dsimp only
    split
    · exact h.put (.store (fun hd => hd) (fun _ => hcomputed) rfl) capacity
    · exact h

end Cache

end Stamped
