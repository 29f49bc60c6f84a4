import AionDb.WalOpen

/-!
# The log as a list of frames

What a segment file holds is a list of frames: entries, each with its bytes.
The frames of all segments form one chain: the LSN of a frame is the one the
frame before it leads to. A scan over a chain, behind which at most the beginning of
a frame stands, sees all of it.
-/

namespace AionDb

open Frames List

variable {R : Type}

structure Frame (C : RecordCodec R) where
  entry : WalEntry R
  bytes : Bytes
  decodes : ∀ rest, decodeEntry C (bytes ++ rest) = .ok (entry, bytes.length)
  torn : ∀ {tail}, Torn bytes tail → ∃ e, decodeEntry C tail = .error e
  long : 16 ≤ bytes.length

structure Position where
  last : Option Nat
  next : Nat

def Position.start : Position := ⟨none, 1⟩

variable {C : RecordCodec R} (mode : LsnStepMode)

namespace Frame

variable (f : Frame C)

def position : Position := ⟨some f.entry.lsn, f.entry.lsn + mode.stepBytes f.bytes.length⟩

theorem ne_nil : f.bytes ≠ [] := by
  intro h
  have := f.long
  rw [h] at this
  simp at this

theorem stepBytes_pos : 0 < mode.stepBytes f.bytes.length := by
  have := f.long
  cases mode <;> simp only [LsnStepMode.stepBytes] <;> omega

theorem stepBytes_le : mode.stepBytes f.bytes.length ≤ f.bytes.length := by
  have := f.long
  cases mode <;> simp only [LsnStepMode.stepBytes] <;> omega

end Frame

/-! ## Chains -/

/-- The frames follow each other from `p` on. -/
def Linked : Position → List (Frame C) → Prop
  | _, [] => True
  | p, f :: fs => f.entry.lsn = p.next ∧ f.entry.prevLsn = p.last.getD 0 ∧ Linked (f.position mode) fs

def Position.after (p : Position) (fs : List (Frame C)) : Position :=
  match fs.getLast? with
  | none => p
  | some f => f.position mode

namespace Position

variable {mode} {p : Position} {fs gs : List (Frame C)}

@[simp] theorem after_nil : p.after mode ([] : List (Frame C)) = p := rfl

@[simp] theorem after_concat (f : Frame C) : p.after mode (fs ++ [f]) = f.position mode := by
  simp [after]

theorem after_cons (f : Frame C) : p.after mode (f :: fs) = (f.position mode).after mode fs := by
  rcases eq_nil_or_concat fs with rfl | ⟨gs, g, rfl⟩
  · rfl
  · rw [concat_eq_append, after_concat, ← cons_append, after_concat]

theorem after_append : p.after mode (fs ++ gs) = (p.after mode fs).after mode gs := by
  induction fs generalizing p with
  | nil => rfl
  | cons f fs ih => rw [cons_append, after_cons, after_cons, ih]

end Position

variable {f : Frame C}

namespace Linked

variable {mode} {p : Position} {fs gs : List (Frame C)}

theorem append_iff :
    Linked mode p (fs ++ gs) ↔ Linked mode p fs ∧ Linked mode (p.after mode fs) gs := by
  induction fs generalizing p with
  | nil => simp [Linked]
  | cons f fs ih =>
    rw [cons_append, Position.after_cons]
    simp only [Linked, ih, and_assoc]

theorem concat_iff : Linked mode p (fs ++ [f]) ↔ Linked mode p fs ∧
    f.entry.lsn = (p.after mode fs).next ∧ f.entry.prevLsn = (p.after mode fs).last.getD 0 := by
  rw [append_iff]
  simp [Linked]

theorem of_prefix (h : Linked mode p gs) (hfs : fs <+: gs) : Linked mode p fs := by
  obtain ⟨rest, rfl⟩ := hfs
  exact (append_iff.mp h).1

theorem next_le (h : Linked mode p fs) : p.next ≤ (p.after mode fs).next := by
  induction fs generalizing p with
  | nil => exact Nat.le_refl _
  | cons f fs ih =>
    obtain ⟨hlsn, -, hrest⟩ := h
    have hle := ih hrest
    rw [Position.after_cons]
    simp only [Frame.position, hlsn] at hle ⊢
    omega

theorem lsn_lt_next (h : Linked mode p fs) (hf : f ∈ fs) :
    p.next ≤ f.entry.lsn ∧ f.entry.lsn < (p.after mode fs).next := by
  obtain ⟨pre, post, rfl⟩ := append_of_mem hf
  obtain ⟨hpre, hrest⟩ := append_iff.mp h
  have hle := hpre.next_le
  have hle' := hrest.2.2.next_le
  have hpos := f.stepBytes_pos mode
  have hlsn := hrest.1
  rw [Position.after_append, Position.after_cons]
  simp only [Frame.position] at hle' ⊢
  omega

theorem next_le_length (h : Linked mode p fs) :
    (p.after mode fs).next ≤ p.next + (stream Frame.bytes fs).length := by
  induction fs generalizing p with
  | nil => exact Nat.le_refl _
  | cons f fs ih =>
    obtain ⟨hlsn, -, hrest⟩ := h
    have hle := ih hrest
    have hstep := f.stepBytes_le mode
    rw [Position.after_cons, stream_cons, length_append]
    simp only [Frame.position, hlsn] at hle ⊢
    omega

theorem after_last (h : Linked mode .start fs) :
    (Position.start.after mode fs).last.getD 0 < (Position.start.after mode fs).next := by
  rcases eq_nil_or_concat fs with rfl | ⟨gs, g, rfl⟩
  · exact Nat.one_pos
  · rw [concat_eq_append, Position.after_concat]
    exact Nat.lt_add_of_pos_right (g.stepBytes_pos mode)

end Linked

/-! ## Scanning a chain -/

def linkAfter (fs : List (Frame C)) : LinkState :=
  { previousLsn := fs.getLast?.map (·.entry.lsn)
    previousEntryBytes := fs.getLast?.map (·.bytes.length)
    mode := if fs.length < 2 then none else some mode }

variable {mode} {fs gs : List (Frame C)}

theorem stepModeOf_eq_ok {known : Option LsnStepMode} (hknown : ∀ m ∈ known, m = mode)
    {prev len lsn : Nat} (hlen : 16 ≤ len) (hlsn : lsn = prev + mode.stepBytes len) :
    stepModeOf known (prev + 1) (prev + len) lsn = .ok mode := by
  subst hlsn
  cases known with
  | some m =>
    cases hknown m rfl
    cases mode <;> simp [stepModeOf, LsnStepMode.stepBytes]
  | none =>
    cases mode with
    | logical => simp [stepModeOf, LsnStepMode.stepBytes]
    | byteOffset =>
      have hne : ¬prev + len = prev + 1 := by omega
      simp only [stepModeOf, LsnStepMode.stepBytes, hne, if_false, if_true]

theorem Linked.lsn_add_length_le (h : Linked mode .start fs)
    (hsize : (stream Frame.bytes fs).length < u64Max) {g : Frame C} (hg : g ∈ fs) :
    g.entry.lsn + g.bytes.length ≤ u64Max := by
  obtain ⟨pre, post, rfl⟩ := append_of_mem hg
  obtain ⟨hpre, hlsn, -⟩ := Linked.append_iff.mp h
  have hbound := hpre.next_le_length
  simp only [stream_append, stream_cons, length_append] at hsize
  simp only [Position.start] at hbound hlsn
  omega

theorem accept_linkAfter_of {p : Position} (h : Linked mode p (fs ++ [f]))
    (hbound : ∀ g ∈ fs, g.entry.lsn + g.bytes.length ≤ u64Max) :
    (linkAfter mode fs).accept f.entry f.bytes.length = .ok (linkAfter mode (fs ++ [f])) := by
  rcases eq_nil_or_concat fs with rfl | ⟨gs, g, rfl⟩
  · rfl
  rw [concat_eq_append] at h hbound ⊢
  obtain ⟨-, hlsn, hprev⟩ := Linked.concat_iff.mp h
  rw [Position.after_concat] at hlsn hprev
  have hnext := hbound g (by simp)
  have hlong := g.long
  have hone : checkedAdd g.entry.lsn 1 = some (g.entry.lsn + 1) :=
    checkedAdd_eq_some.mpr ⟨by omega, rfl⟩
  have hbytes : checkedAdd g.entry.lsn g.bytes.length = some (g.entry.lsn + g.bytes.length) :=
    checkedAdd_eq_some.mpr ⟨hnext, rfl⟩
  have hmode : ∀ m ∈ (linkAfter mode (gs ++ [g])).mode, m = mode := by
    intro m hm
    simp only [linkAfter] at hm
    split at hm
    · cases hm
    · exact (Option.some.inj hm).symm
  have hlast : (linkAfter mode (gs ++ [g])).previousLsn = some g.entry.lsn := by simp [linkAfter]
  have hlen : (linkAfter mode (gs ++ [g])).previousEntryBytes = some g.bytes.length := by
    simp [linkAfter]
  have hchain : ¬(f.entry.prevLsn ≠ 0 ∧ f.entry.prevLsn ≠ g.entry.lsn) := by
    rw [hprev]; simp [Frame.position]
  simp only [LinkState.accept, hlast, hchain, if_false, hlen, Option.getD_some, hone, hbytes,
    stepModeOf_eq_ok hmode hlong hlsn]
  simp [linkAfter, pure, Except.pure, bind, Except.bind]

theorem accept_linkAfter (h : Linked mode .start (fs ++ [f]))
    (hsize : (stream Frame.bytes fs).length < u64Max) :
    (linkAfter mode fs).accept f.entry f.bytes.length = .ok (linkAfter mode (fs ++ [f])) :=
  accept_linkAfter_of h fun _ hg => (h.of_prefix (prefix_append _ _)).lsn_add_length_le hsize hg

theorem decodes_stream_cons (g : Frame C) (gs : List (Frame C)) (tail : Bytes) :
    stream Frame.bytes (g :: gs) ++ tail ≠ [] ∧
    decodeEntry C (stream Frame.bytes (g :: gs) ++ tail) = .ok (g.entry, g.bytes.length) ∧
    (stream Frame.bytes (g :: gs) ++ tail).drop g.bytes.length = stream Frame.bytes gs ++ tail := by
  rw [stream_cons, append_assoc]
  exact ⟨fun h => g.ne_nil (append_eq_nil_iff.mp h).1, g.decodes _, drop_left⟩

end AionDb
