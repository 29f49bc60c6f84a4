import AionDb.WalLog

/-!
# A log whose segments hold a chain can be opened

The closed segments hold frames and nothing else; behind the frames of the last
one may stand the beginning of another. `WalWriter::open` then accepts exactly
the frames and cuts the rest.
-/

namespace AionDb

open Frames

variable {R : Type} {C : RecordCodec R} (cfg : WalConfig)

abbrev WalConfig.header : Bytes := segmentHeaderBytes cfg.walLsnMode cfg.identity

/-- The file holds the frames and then `tail`. A file of which nothing is there
holds no frame. -/
def SegFile.Stores (f : SegFile) (fs : List (Frame C)) (tail : Bytes) : Prop :=
  f.bytes = cfg.header ++ (stream Frame.bytes fs ++ tail) ∨ f.bytes = [] ∧ fs = [] ∧ tail = []

/-- A header says nothing that the configuration does not say. -/
structure HeaderFits (mode : Option LsnStepMode) (system : Option UInt64)
    (timeline : Option UInt32) : Prop where
  mode : ∀ m ∈ mode, m = cfg.walLsnMode
  system : ∀ x ∈ system, cfg.identity.systemIdentifier = some x
  timeline : ∀ x ∈ timeline, cfg.identity.timelineId = some x

variable {cfg}

/-! ## Headers -/

theorem parseSegmentHeader_stores {f : SegFile} {fs : List (Frame C)} {tail : Bytes}
    (h : f.Stores cfg fs tail) :
    ∃ info, parseSegmentHeader f.bytes = .ok info ∧
      f.bytes.drop info.entryOffset = stream Frame.bytes fs ++ tail ∧
      f.bytes.length = info.entryOffset + (stream Frame.bytes fs ++ tail).length ∧
      HeaderFits cfg info.lsnMode info.systemIdentifier info.timelineId := by
  rcases h with h | ⟨h, rfl, rfl⟩
  · refine ⟨_, by rw [h]; exact parseSegmentHeader_append .., ?_, ?_, ?_⟩
    · rw [h]
      exact List.drop_left' (length_segmentHeaderBytes ..)
    · rw [h, List.length_append, length_segmentHeaderBytes]
    · refine ⟨fun m hm => (Option.some.inj hm).symm, fun x hx => ?_, fun x hx => ?_⟩
      · exact (Option.filter_eq_some_iff.mp hx).1
      · exact (Option.filter_eq_some_iff.mp hx).1
  · exact ⟨{}, by rw [h]; rfl, by rw [h]; rfl, by rw [h]; rfl, nofun, nofun, nofun⟩

end AionDb
