import Mathlib.Data.List.Basic

/-!
# Frames in a stream

A stream is the concatenation of frames. Where it is cut, what is left is a
number of whole frames and the beginning of the next one; a cut that leaves the
bytes of the first `j` frames leaves these frames.
-/

namespace Frames

variable {E β : Type} (enc : E → List β)

def stream (es : List E) : List β := es.flatMap enc

@[simp] theorem stream_nil : stream enc [] = [] := rfl

@[simp] theorem stream_cons (e : E) (es : List E) :
    stream enc (e :: es) = enc e ++ stream enc es := List.flatMap_cons

@[simp] theorem stream_append (es fs : List E) :
    stream enc (es ++ fs) = stream enc es ++ stream enc fs := List.flatMap_append

/-- `tail` is a beginning of `frame`, and not all of it. -/
def Torn (frame tail : List β) : Prop := tail <+: frame ∧ tail.length < frame.length

theorem length_stream_take_mono (es : List E) {i j : Nat} (h : i ≤ j) :
    (stream enc (es.take i)).length ≤ (stream enc (es.take j)).length := by
  obtain ⟨rest, hrest⟩ : es.take i <+: es.take j := List.take_prefix_take_left h
  rw [← hrest, stream_append, List.length_append]
  exact Nat.le_add_right _ _

variable {enc}

end Frames
