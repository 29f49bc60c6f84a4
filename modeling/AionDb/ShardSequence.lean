import AionDb.Core
import AionDb.LibRun

/-!
# Distributed sequences

Each cache hands out the values of a block it has reserved from the shared counter. The values
a cache has left, those it has handed out and the blocks still to come stay apart as long
as no block is empty and the counter does not wrap.
-/

namespace AionDb.Sequences

open List Function

structure SequenceBlock where
  startInclusive : Nat
  endExclusive : Nat

structure SequenceAllocator where
  counter : Nat := 0
  minBlockSize : Nat := 0

namespace SequenceAllocator

def new (initial minBlockSize : Nat) : SequenceAllocator :=
  { counter := initial, minBlockSize := max minBlockSize 1 }

def reserve (a : SequenceAllocator) (desiredSize : Nat) : SequenceBlock × SequenceAllocator :=
  let size := max desiredSize a.minBlockSize
  ({ startInclusive := a.counter, endExclusive := min (a.counter + size) u64Max },
    { a with counter := (a.counter + size) % 2 ^ 64 })

/-- The next block is not empty and ends before the counter does. -/
def Room (a : SequenceAllocator) (desiredSize : Nat) : Prop :=
  0 < max desiredSize a.minBlockSize ∧ a.counter + max desiredSize a.minBlockSize ≤ u64Max
deriving Decidable

end SequenceAllocator

structure LocalSequenceCache where
  block : SequenceBlock
  next : Nat
  blockSize : Nat

namespace LocalSequenceCache

def new (a : SequenceAllocator) (blockSize : Nat) : LocalSequenceCache × SequenceAllocator :=
  ({ block := (a.reserve blockSize).1, next := (a.reserve blockSize).1.startInclusive, blockSize },
    (a.reserve blockSize).2)

def nextval (c : LocalSequenceCache) (a : SequenceAllocator) :
    Nat × LocalSequenceCache × SequenceAllocator :=
  let (c, a) := if c.block.endExclusive ≤ c.next then new a c.blockSize else (c, a)
  (c.next, { c with next := min (c.next + 1) u64Max }, a)

end LocalSequenceCache

/-- The caches on one allocator, and the values returned with the cache of each. -/
structure SequenceSystem where
  allocator : SequenceAllocator
  caches : Nat → Option LocalSequenceCache := fun _ => none
  returned : List (Nat × Nat) := []

inductive SequenceAction where
  | create (cache blockSize : Nat)
  | nextval (cache : Nat)

namespace SequenceSystem

/-- The cache takes a fresh block. -/
def refill (s : SequenceSystem) (i blockSize : Nat) : SequenceSystem :=
  let (c, allocator) := LocalSequenceCache.new s.allocator blockSize
  { s with allocator, caches := update s.caches i c }

def step (s : SequenceSystem) : SequenceAction → Option SequenceSystem
  | .create i blockSize => if (s.caches i).isSome then none else some (s.refill i blockSize)
  | .nextval i => (s.caches i).map fun c =>
    let (id, c, allocator) := c.nextval s.allocator
    { allocator, caches := update s.caches i c, returned := s.returned ++ [(i, id)] }

def Fits (s : SequenceSystem) : SequenceAction → Prop
  | .create _ blockSize => s.allocator.Room blockSize
  | .nextval i => ∀ c ∈ s.caches i, c.block.endExclusive ≤ c.next → s.allocator.Room c.blockSize

instance (s : SequenceSystem) (a : SequenceAction) : Decidable (s.Fits a) := by
  cases a <;> unfold Fits <;> infer_instance

/-- Every value belongs to the cache that reserved it; a cache has its values from `next` on. -/
structure Inv (s : SequenceSystem) (owner : Nat → Nat) : Prop where
  returned : ∀ e ∈ s.returned, owner e.2 = e.1 ∧ e.2 < s.allocator.counter ∧
    ∀ c ∈ s.caches e.1, e.2 < c.next
  caches : ∀ i, ∀ c ∈ s.caches i, c.block.endExclusive ≤ min s.allocator.counter u64Max ∧
    ∀ v, c.next ≤ v → v < c.block.endExclusive → owner v = i
  increasing : s.returned.Pairwise fun a b => a.1 = b.1 → a.2 < b.2

variable {s s' : SequenceSystem} {owner : Nat → Nat} {i : Nat}

theorem Inv.refill {blockSize : Nat} (hinv : s.Inv owner) (h : s.allocator.Room blockSize) :
    (s.refill i blockSize).Inv fun v => if v < s.allocator.counter then owner v else i := by
  have hcounter : (s.refill i blockSize).allocator.counter =
      s.allocator.counter + max blockSize s.allocator.minBlockSize :=
    Nat.mod_eq_of_lt (Nat.lt_succ_of_le h.2)
  have hmax := h.2
  refine ⟨fun e he => ?_, fun j c hc => ?_, hinv.increasing⟩
  · obtain ⟨howner, hlt, hlater⟩ := hinv.returned e he
    refine ⟨(if_pos hlt).trans howner, by omega, fun c hc => ?_⟩
    simp only [SequenceSystem.refill, update_apply] at hc
    split at hc
    · cases hc
      exact hlt
    · exact hlater c hc
  · simp only [SequenceSystem.refill, update_apply] at hc
    split at hc
    · next hj =>
      cases hc
      exact ⟨by rw [hcounter]; rfl, fun v hle _ => (if_neg (Nat.not_lt.mpr hle)).trans hj.symm⟩
    · obtain ⟨hend, hown⟩ := hinv.caches j c hc
      exact ⟨by omega, fun v hle hlt => (if_pos (by omega)).trans (hown v hle hlt)⟩

/-- The cache hands out its next value. -/
def take (s : SequenceSystem) (i : Nat) (c : LocalSequenceCache) : SequenceSystem :=
  { s with
    caches := update s.caches i (some { c with next := min (c.next + 1) u64Max })
    returned := s.returned ++ [(i, c.next)] }

theorem Inv.take {c : LocalSequenceCache} (hinv : s.Inv owner) (hc : s.caches i = some c)
    (hlt : c.next < c.block.endExclusive) : (s.take i c).Inv owner := by
  obtain ⟨hend, hown⟩ := hinv.caches i c hc
  have hsucc : min (c.next + 1) u64Max = c.next + 1 := by omega
  simp only [SequenceSystem.take, hsucc]
  refine ⟨fun e he => ?_, fun j d hd => ?_, ?_⟩
  · rcases mem_append.mp he with he | he
    · obtain ⟨howner, hlt, hlater⟩ := hinv.returned e he
      refine ⟨howner, hlt, fun d hd => ?_⟩
      simp only [update_apply] at hd
      split at hd
      · next h =>
        cases hd
        exact Nat.lt_succ_of_lt (hlater c (h ▸ hc))
      · exact hlater d hd
    · cases mem_singleton.mp he
      refine ⟨hown _ le_rfl hlt, hlt.trans_le (hend.trans (Nat.min_le_left ..)), fun d hd => ?_⟩
      cases (update_self ..).symm.trans hd
      exact Nat.lt_succ_self _
  · simp only [update_apply] at hd
    split at hd
    · next hj =>
      cases hd
      exact ⟨hend, fun v hle hlt => (hown v (Nat.le_of_succ_le hle) hlt).trans hj.symm⟩
    · exact hinv.caches j d hd
  · refine pairwise_append.mpr ⟨hinv.increasing, pairwise_singleton .., fun e he b hb hi => ?_⟩
    cases mem_singleton.mp hb
    exact (hinv.returned e he).2.2 c (hi ▸ hc)

theorem step_inv {a : SequenceAction} (hinv : ∃ owner, s.Inv owner) (hfits : s.Fits a)
    (hstep : s.step a = some s') : ∃ owner, s'.Inv owner := by
  obtain ⟨owner, hinv⟩ := hinv
  cases a with
  | create i blockSize =>
    simp only [step] at hstep
    split at hstep <;> cases hstep
    exact ⟨_, hinv.refill hfits⟩
  | nextval i =>
    obtain ⟨c, hc, rfl⟩ := Option.map_eq_some_iff.mp hstep
    simp only [LocalSequenceCache.nextval]
    split
    · next hle =>
      have hroom := hfits c hc hle
      have hnew := (hinv.refill (i := i) hroom).take (update_self ..)
        (show s.allocator.counter < min _ u64Max by have := hroom.1; have := hroom.2; omega)
      exact ⟨_, by simpa only [SequenceSystem.take, SequenceSystem.refill, LocalSequenceCache.new,
        update_idem] using hnew⟩
    · next hlt => exact ⟨owner, hinv.take hc (Nat.not_le.mp hlt)⟩

/-- No value is returned twice, and each cache returns larger and larger ones. -/
theorem values_returned_once {a : SequenceAllocator} {as : List SequenceAction}
    (hfits : Run.Along step Fits { allocator := a } as)
    (hrun : Run.run step { allocator := a } as = some s) :
    s.returned.Pairwise fun a b => a.2 ≠ b.2 ∧ (a.1 = b.1 → a.2 < b.2) := by
  have hinit : Inv { allocator := a } fun _ => 0 := by constructor <;> simp
  obtain ⟨owner, hinv⟩ := Run.run_preserves_along step_inv ⟨_, hinit⟩ hfits hrun
  refine hinv.increasing.imp_of_mem fun {a b} ha hb hlt => ⟨fun heq => ?_, hlt⟩
  have hsame : a.1 = b.1 := by rw [← (hinv.returned a ha).1, heq, (hinv.returned b hb).1]
  exact (hlt hsame).ne heq

theorem values_returned_once_two :
    let as := [.create 0 1, .create 1 0, .nextval 1, .nextval 0, .nextval 0]
    let s := Run.after step { allocator := .new 7 1 } as
    s.returned = [(1, 8), (0, 7), (0, 9)] ∧
      s.returned.Pairwise fun a b => a.2 ≠ b.2 ∧ (a.1 = b.1 → a.2 < b.2) :=
  ⟨rfl, values_returned_once (a := .new 7 1) (by decide) (Run.run_eq_some_after (by decide))⟩

/-- The blocks of the default allocator may be empty. -/
theorem value_returned_twice :
    (Run.after step { allocator := {} }
      [.create 0 0, .create 1 0, .nextval 0, .nextval 1]).returned = [(0, 0), (1, 0)] :=
  rfl

end SequenceSystem

end AionDb.Sequences
