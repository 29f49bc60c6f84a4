import AionDb.WalWriterSpec

/-!
# Appending to the log

An append puts one frame behind the log, a batch puts several. Which segment a
frame goes to depends on the frames before it only (`LogView.add`, `layout`), so
two writers that append the same entries lay out the same files.
-/

namespace AionDb

open Frames Effect List LogView

variable {R : Type} {C : RecordCodec R} {cfg : WalConfig}

/-! ## Without faults -/

/-- With no fault ahead the action does not fail. -/
def Calm {ε α : Type} (m : Eff WalWriter ε α) : Prop :=
  ∀ w : WalWriter, w.faults = [] → Spec m w (fun _ w' => w'.faults = []) fun _ => False

section

variable {ε α β : Type}

theorem calm_pure (a : α) : Calm (pure a : Eff WalWriter ε α) := fun _ hw => hw

theorem calm_modify {f : WalWriter → WalWriter} (h : ∀ w, (f w).faults = w.faults) :
    Calm (modify f : Eff WalWriter ε PUnit) := fun w hw => (h w).trans hw

theorem calm_bind {m : Eff WalWriter ε α} {k : α → Eff WalWriter ε β} (hm : Calm m)
    (hk : ∀ a, Calm (k a)) : Calm (m >>= k) := fun w hw =>
  spec_bind (hm w hw) fun a w' hw' => hk a w' hw'

theorem calm_get_bind {k : WalWriter → Eff WalWriter ε β} (hk : ∀ w, Calm (k w)) :
    Calm (get >>= k) := fun w hw => hk w w hw

theorem calm_ite {c : Prop} [Decidable c] {m m' : Eff WalWriter ε α} (h : Calm m) (h' : Calm m') :
    Calm (if c then m else m') := by
  by_cases hc : c
  · rwa [if_pos hc]
  · rwa [if_neg hc]

theorem calm_nextFault_bind {k : Option IoFault → Eff WalWriter ε α} (h : Calm (k none)) :
    Calm (WalWriter.nextFault >>= k) := by
  intro w hw
  show Spec (k w.faults.head?.join) { w with faults := w.faults.tail } _ _
  rw [hw]
  exact h _ rfl

theorem calm_orFail {context : String} {m : Eff WalWriter String α} (h : Calm m) :
    Calm (WalWriter.orFail context m) := fun w hw => spec_orFail (h w hw)

theorem Calm.both {m : Eff WalWriter ε α} (h : Calm m) {w : WalWriter} {Q : α → WalWriter → Prop}
    {E : WalWriter → Prop} (hs : Spec m w Q E) :
    Spec m w (fun a w' => Q a w' ∧ (w.faults = [] → w'.faults = []))
      (fun w' => E w' ∧ w.faults ≠ []) := by
  by_cases hw : w.faults = []
  · exact spec_mono (spec_and hs (h w hw)) (fun _ _ hq => ⟨hq.1, fun _ => hq.2⟩)
      fun _ he => he.2.elim
  · exact spec_mono hs (fun _ _ hq => ⟨hq, fun h => absurd h hw⟩) fun _ he => ⟨he, hw⟩

end

namespace WalWriter

theorem calm_rawWrite (i : Nat) (data : Bytes) : Calm (rawWrite i data) :=
  calm_nextFault_bind (calm_modify fun _ => rfl)

theorem calm_flushBuf : Calm flushBuf :=
  calm_get_bind fun _ => calm_ite (calm_pure ()) (calm_nextFault_bind (calm_modify fun _ => rfl))

theorem calm_writeAll (data : Bytes) : Calm (writeAll data) :=
  calm_get_bind fun _ => calm_ite (calm_modify fun _ => rfl) <|
    calm_bind (calm_ite calm_flushBuf (calm_pure ())) fun _ =>
      calm_ite (calm_rawWrite _ data) (calm_modify fun _ => rfl)

theorem calm_flush : Calm flush := calm_orFail calm_flushBuf

theorem calm_flushDurable : Calm flushDurable := by
  refine calm_bind (calm_bind calm_flush fun _ => calm_get_bind fun w => calm_pure _) fun p => ?_
  cases p with
  | none => exact calm_pure ()
  | some p => exact calm_orFail (calm_nextFault_bind (calm_modify fun _ => rfl))

theorem calm_rotate : Calm (rotate cfg) := by
  refine calm_bind calm_flushDurable fun _ => calm_get_bind fun w =>
    calm_bind (calm_bind (calm_modify fun _ => rfl) fun _ => calm_bind ?_ fun _ =>
      calm_orFail (calm_nextFault_bind (calm_pure ()))) fun _ => calm_modify fun _ => rfl
  exact calm_get_bind fun w => calm_ite (calm_orFail (calm_rawWrite _ _)) (calm_pure ())

theorem calm_rotateIfFull (projected : Nat) : Calm (rotateIfFull cfg projected) :=
  calm_get_bind fun _ => calm_ite calm_rotate (calm_pure ())

theorem calm_writeOrRecover (encoded : Bytes) : Calm (writeOrRecover encoded) := by
  intro w hw
  have h := calm_writeAll encoded w hw
  unfold Spec at h ⊢
  unfold writeOrRecover
  match hm : writeAll encoded w with
  | (.ok (), w') => rw [hm] at h; exact h
  | (.error e, w') => rw [hm] at h; exact h.elim

end WalWriter

/-! ## Where a frame goes -/

/-- The segments in front of an entry of `n` bytes: a full one is closed. -/
def LogView.roomFor (cfg : WalConfig) (v : LogView C) (n : Nat) : LogView C :=
  if cfg.segmentMaxBytes < segmentHeaderSize + (stream Frame.bytes v.seg).length + n then
    ⟨v.closed ++ [v.seg], []⟩
  else v

def LogView.push (v : LogView C) (fs : List (Frame C)) : LogView C := ⟨v.closed, v.seg ++ fs⟩

def LogView.add (cfg : WalConfig) (v : LogView C) (f : Frame C) : LogView C :=
  (v.roomFor cfg f.bytes.length).push [f]

/-- The segments of a log that was written from its beginning. -/
def layout (cfg : WalConfig) (fs : List (Frame C)) : LogView C := fs.foldl (·.add cfg) ⟨[], []⟩

namespace LogView

variable (v : LogView C)

@[simp] theorem frames_roomFor (n : Nat) : (v.roomFor cfg n).frames = v.frames := by
  unfold roomFor
  split
  · simp [frames]
  · rfl

@[simp] theorem frames_push (fs : List (Frame C)) : (v.push fs).frames = v.frames ++ fs := by
  simp [frames, push]

@[simp] theorem frames_add (f : Frame C) : (v.add cfg f).frames = v.frames ++ [f] := by
  simp [add]

@[simp] theorem push_nil : v.push [] = v := by simp [push]

theorem push_push (fs gs : List (Frame C)) : (v.push fs).push gs = v.push (fs ++ gs) := by
  simp [push]

end LogView

theorem layout_concat (fs : List (Frame C)) (f : Frame C) :
    layout cfg (fs ++ [f]) = (layout cfg fs).add cfg f := by
  simp [layout]

/-- The frame holds what the encoder makes of its entry. -/
def Frame.Made (cfg : WalConfig) (f : Frame C) : Prop :=
  f.entry.databaseId = legacyDatabaseId ∧ ∃ p,
    prepareRecordWithCompression C f.entry.record cfg.walCompression = .ok p ∧ p.ReadBack ∧
      encodePreparedEntry f.entry.lsn f.entry.prevLsn legacyDatabaseId p = .ok f.bytes

theorem Frame.Made.encode {f : Frame C} (h : f.Made cfg) :
    encodeEntryWithCompression C f.entry cfg.walCompression = .ok f.bytes := by
  obtain ⟨hdb, p, hprepare, -, henc⟩ := h
  exact bind_eq_ok.mpr ⟨p, hprepare, by rw [hdb]; exact henc⟩

namespace OpenLog

/-- The log was laid out as any log of its frames is, each made by the encoder. -/
structure Written (l : OpenLog cfg C) : Prop where
  made : ∀ f ∈ l.view.frames, f.Made cfg
  laid : layout cfg l.view.frames = l.view

variable (l : OpenLog cfg C)

def position : Position := ⟨l.writer.lastLsn, l.writer.nextLsn⟩

theorem after_frames : Position.start.after cfg.walLsnMode l.view.frames = l.position :=
  l.holds.position

/-! ## Writing frames -/

def appended {fs : List (Frame C)} {w' : WalWriter} {cur' : SegFile} {p : Position}
    (hm : Moved cfg l.writer l.view l.closed l.cur (stream Frame.bytes fs) w' cur')
    (hlinked : Linked cfg.walLsnMode l.position fs)
    (hp : l.position.after cfg.walLsnMode fs = p) (hle : p.next ≤ u64Max) : OpenLog cfg C where
  writer := { w' with
    currentSize := l.writer.currentSize + (stream Frame.bytes fs).length
    lastLsn := p.last, nextLsn := p.next }
  view := l.view.push fs
  closed := l.closed
  cur := cur'
  holds := {
    lays := {
      files := hm.lays.files
      current := hm.lays.current
      closed := hm.lays.closed
      bytes := by
        have hbytes := hm.lays.bytes
        simp only [LogView.push, stream_append, append_nil]
        exact hbytes }
    mode := hm.keeps.lsnStepMode.trans l.holds.mode
    size := by
      have hsize := l.holds.size
      simp only [LogView.push, stream_append, length_append]
      omega
    linked := by
      rw [frames_push]
      exact Linked.append_iff.mpr ⟨l.holds.linked, by rw [l.after_frames]; exact hlinked⟩
    position := by
      rw [frames_push, Position.after_append, l.after_frames, hp]
    lsn_le := hle }

theorem grows_appended {fs : List (Frame C)} {w' : WalWriter} {cur' : SegFile} {p : Position}
    (hm : Moved cfg l.writer l.view l.closed l.cur (stream Frame.bytes fs) w' cur')
    (hlinked : Linked cfg.walLsnMode l.position fs) (hp : l.position.after cfg.walLsnMode fs = p)
    (hle : p.next ≤ u64Max) :
    l.Grows (l.appended hm hlinked hp hle) := by
  have hlt := l.last_lt_next
  refine ⟨?_, ?_, fun _ => ⟨hm.synced, ?_⟩, fun hne => absurd hm.keeps.currentSegment hne⟩
  · show l.view.frames <+: (l.view.push fs).frames
    rw [frames_push]
    exact prefix_append _ _
  · show l.last ≤ p.last.getD 0
    rcases eq_nil_or_concat fs with rfl | ⟨gs, g, rfl⟩
    · rw [← hp]; exact le_rfl
    · rw [concat_eq_append] at hlinked hp
      have hg := (hlinked.lsn_lt_next (f := g) (by simp)).1
      rw [Position.after_concat] at hp
      rw [← hp]
      exact le_of_lt (lt_of_lt_of_le hlt hg)
  · -- a frame up to an old LSN is an old frame, and it stands where it stood
    intro lsn hlsn n hcovered k f hk hf
    by_cases hold : k < l.view.seg.length
    · have hseg : l.view.seg[k]? = some f := by
        rwa [show (l.appended hm hlinked hp hle).view.seg = l.view.seg ++ fs from rfl,
          getElem?_append_left hold] at hk
      have htake : (l.view.seg ++ fs).take (k + 1) = l.view.seg.take (k + 1) :=
        take_append_of_le_length hold
      show segmentHeaderSize + (stream Frame.bytes ((l.view.seg ++ fs).take (k + 1))).length ≤ n
      rw [htake]
      exact hcovered k f hseg hf
    · have hnew : f ∈ fs := by
        rw [show (l.appended hm hlinked hp hle).view.seg = l.view.seg ++ fs from rfl,
          getElem?_append_right (not_lt.mp hold)] at hk
        exact mem_of_getElem? hk
      have hge := (hlinked.lsn_lt_next hnew).1
      have : l.position.next = l.writer.nextLsn := rfl
      omega

theorem spec_writeOrRecover (data : Bytes) :
    Spec (WalWriter.writeOrRecover data) l.writer
      (fun _ w' => ∃ cur', Moved cfg l.writer l.view l.closed l.cur data w' cur')
      (fun w' => l.Fails w') := by
  have h := spec_writeAll l.holds.lays data
  unfold Spec at h ⊢
  unfold WalWriter.writeOrRecover
  match hw : WalWriter.writeAll data l.writer with
  | (.ok (), w') => rw [hw] at h; exact h
  | (.error e, w') =>
    rw [hw] at h
    obtain ⟨cur', tail, hm⟩ := h
    by_cases hbuffer : w'.buffer = []
    · have hbytes := hm.lays.bytes
      rw [hbuffer, append_nil, ← append_assoc] at hbytes
      have hsize : w'.currentSize = (cfg.header ++ stream Frame.bytes l.view.seg).length := by
        rw [hm.keeps.currentSize, l.holds.size, length_append, length_segmentHeaderBytes]
      have hcut : (cur'.setLen w'.currentSize).bytes =
          cfg.header ++ stream Frame.bytes l.view.seg := by
        have hlong : w'.currentSize - cur'.bytes.length = 0 := by
          rw [hbytes, length_append]; omega
        show cur'.bytes.take _ ++ List.replicate _ 0 = _
        rw [hlong, hbytes, take_left' hsize.symm]
        exact append_nil _
      have hsynced : l.cur.synced ≤ (cur'.setLen w'.currentSize).synced := by
        have hall := congrArg List.length l.holds.lays.bytes
        have hle := l.cur.synced_le
        simp only [length_append, length_nil] at hall hsize
        show _ ≤ w'.currentSize
        omega
      have hm' : Moved cfg l.writer l.view l.closed l.cur [] w'.recoverFailedAppend
          (cur'.setLen w'.currentSize) :=
        ⟨⟨hm.lays.onFile _, hm.lays.current, hm.lays.closed, by
            rw [hcut, append_nil]; exact append_nil _⟩, hsynced,
          ⟨hm.keeps.1, hm.keeps.2, hm.keeps.3, hm.keeps.4, hm.keeps.5⟩⟩
      exact .inr ⟨l.moved hm', rfl, l.grows_moved hm'⟩
    · refine .inl (.inl ?_)
      show (w'.discarded || decide (w'.buffer ≠ [])) = true
      simp [hbuffer]

theorem spec_rotateIfFull (n : Nat) :
    Spec (WalWriter.rotateIfFull cfg (l.writer.currentSize + n)) l.writer
      (fun _ w' => ∃ l' : OpenLog cfg C, l'.writer = w' ∧ l.Grows l' ∧
        l'.view = l.view.roomFor cfg n ∧ l'.position = l.position)
      (fun w' => l.Fails w') := by
  have hsize := l.holds.size
  have hpos : 0 < l.writer.currentSize := by rw [hsize, segmentHeaderSize]; omega
  refine spec_get_bind (spec_ite (fun hfull => ?_) fun hroom => ?_)
  · refine spec_mono l.spec_rotate ?_ fun _ h => h
    rintro _ w' ⟨l', rfl, hg, hview, hlast, hnext⟩
    refine ⟨l', rfl, hg, ?_, by rw [position, hlast, hnext]; rfl⟩
    rw [hview, LogView.roomFor, if_pos (by rw [← hsize]; exact hfull.2)]
  · refine spec_pure ⟨l, rfl, .refl l, ?_, rfl⟩
    rw [LogView.roomFor, if_neg (by rw [← hsize]; exact fun h => hroom ⟨hpos, h⟩)]

/-! ## One entry -/

def Fits (p : PreparedWalRecord) : Prop :=
  ∃ bytes, encodePreparedEntry l.writer.nextLsn l.last legacyDatabaseId p = .ok bytes ∧
    l.writer.nextLsn + cfg.walLsnMode.stepBytes bytes.length ≤ u64Max ∧
    l.writer.currentSize + bytes.length ≤ u64Max

def frameOf {record : R} {p : PreparedWalRecord} {lsn prevLsn : Nat} {bytes : Bytes}
    (hp : p.Of C record) (hread : p.ReadBack) (hlsn : lsn ≤ u64Max) (hprev : prevLsn ≤ u64Max)
    (h : encodePreparedEntry lsn prevLsn legacyDatabaseId p = .ok bytes) : Frame C where
  entry := { lsn, prevLsn, databaseId := legacyDatabaseId, record }
  bytes := bytes
  decodes := (encodePreparedEntry_eq_ok hp hread hlsn hprev (by decide) h).1
  torn := (encodePreparedEntry_eq_ok hp hread hlsn hprev (by decide) h).2.1 _
  long := (encodePreparedEntry_eq_ok hp hread hlsn hprev (by decide) h).2.2

variable {p : PreparedWalRecord} {a b : Nat} {f : Frame C} {message : String} {l' : OpenLog cfg C}
  {record : R}

theorem addOrFail_eq_ok {c : Nat} :
    WalWriter.addOrFail message a b = .ok c ↔ a + b ≤ u64Max ∧ c = a + b := by
  unfold WalWriter.addOrFail
  cases h : checkedAdd a b with
  | none =>
    have : ¬a + b ≤ u64Max := fun hle => by
      rw [checkedAdd_eq_some.mpr ⟨hle, rfl⟩] at h
      cases h
    simp [this]
  | some d =>
    obtain ⟨hle, rfl⟩ := checkedAdd_eq_some.mp h
    simp [hle, eq_comm]

theorem not_le_of_addOrFail {e : DbError} (h : WalWriter.addOrFail message a b = .error e) :
    ¬a + b ≤ u64Max := fun hle => by
  rw [addOrFail_eq_ok.mpr ⟨hle, rfl⟩] at h
  cases h

theorem fails_refl : l.Fails l.writer := .inr ⟨l, rfl, .refl l⟩

theorem currentSize_roomFor_le {n : Nat} (hview : l'.view = l.view.roomFor cfg n)
    (hn : n ≤ 4 + u32Max) (hsize : l.writer.currentSize + n ≤ u64Max) :
    l'.writer.currentSize + n ≤ u64Max := by
  have hsize' := l'.holds.size
  rw [hview, LogView.roomFor] at hsize'
  split at hsize'
  · have hbound : segmentHeaderSize + (4 + u32Max) ≤ u64Max := by decide
    simp only [stream_nil, length_nil] at hsize'
    omega
  · rw [hsize', ← l.holds.size]
    exact hsize

theorem spec_appendPrepared (hp : p.Of C record) (hread : p.ReadBack) :
    Spec (WalWriter.appendPrepared cfg p) l.writer
      (fun lsn w' => ∃ (l' : OpenLog cfg C) (f : Frame C), l'.writer = w' ∧ l.Grows l' ∧
        l'.view = l.view.add cfg f ∧ lsn = l.writer.nextLsn ∧
        f.entry = { lsn, prevLsn := l.last, databaseId := legacyDatabaseId, record } ∧
        encodePreparedEntry lsn l.last legacyDatabaseId p = .ok f.bytes ∧
        (l.writer.faults = [] → w'.faults = []))
      (fun w' => l.Fails w' ∧ (l.writer.faults = [] → ¬l.Fits p)) := by
  have hlsn := l.holds.lsn_le
  have hprev : l.last ≤ u64Max := le_of_lt (lt_of_lt_of_le l.last_lt_next hlsn)
  refine spec_get_bind (spec_liftExcept_bind (fun bytes henc => ?_) fun e he => ?_)
  swap
  · refine ⟨l.fails_refl, fun _ ⟨b, hb, _⟩ => ?_⟩
    have hb' := he.symm.trans hb
    cases hb'
  have hfits : ∀ b, encodePreparedEntry l.writer.nextLsn l.last legacyDatabaseId p = .ok b →
      b = bytes := fun b hb => Except.ok.inj (hb.symm.trans henc)
  refine spec_liftExcept_bind (fun next hnext => ?_) fun e he => ⟨l.fails_refl, fun _ ⟨b, hb, h, _⟩ => ?_⟩
  swap
  · rw [hfits b hb, ← l.holds.mode] at h
    exact not_le_of_addOrFail he h
  refine spec_liftExcept_bind (fun projected hprojected => ?_)
    fun e he => ⟨l.fails_refl, fun _ ⟨b, hb, _, h⟩ => ?_⟩
  swap
  · rw [hfits b hb] at h
    exact not_le_of_addOrFail he h
  obtain ⟨hnext_le, rfl⟩ := addOrFail_eq_ok.mp hnext
  obtain ⟨hsize_le, rfl⟩ := addOrFail_eq_ok.mp hprojected
  refine spec_bind (spec_mono ((WalWriter.calm_rotateIfFull _).both (l.spec_rotateIfFull bytes.length))
    (fun _ _ h => h) fun w' h => ⟨h.1, fun hq => absurd hq h.2⟩) ?_
  rintro _ w1 ⟨⟨l1, rfl, hg, hview, hpos⟩, hcalm⟩
  refine spec_bind (spec_mono ((WalWriter.calm_writeOrRecover _).both (l1.spec_writeOrRecover bytes))
    (fun _ _ h => h) fun w' h => ⟨hg.fails h.1, fun hq => absurd (hcalm hq) h.2⟩) ?_
  rintro _ w2 ⟨⟨cur', hm⟩, hcalm'⟩
  have hroom := l.currentSize_roomFor_le hview (length_encodePreparedEntry_le henc) hsize_le
  refine spec_get_bind (spec_liftExcept_bind (fun size hsize => ?_) fun e he => ?_)
  swap
  · rw [hm.keeps.currentSize] at he
    exact absurd hroom (not_le_of_addOrFail he)
  obtain ⟨-, rfl⟩ := addOrFail_eq_ok.mp hsize
  let f : Frame C := frameOf hp hread hlsn hprev henc
  have hstream : stream Frame.bytes [f] = bytes := append_nil _
  rw [← hstream] at hm
  have hlast : l1.writer.lastLsn = l.writer.lastLsn := congrArg Position.last hpos
  have hnextLsn : l1.writer.nextLsn = l.writer.nextLsn := congrArg Position.next hpos
  have hlinked : Linked cfg.walLsnMode l1.position [f] := by
    refine ⟨?_, ?_, trivial⟩
    · rw [hpos]; rfl
    · rw [hpos]; rfl
  have hafter : l1.position.after cfg.walLsnMode [f] =
      ⟨some l.writer.nextLsn, l.writer.nextLsn + l.writer.lsnStepMode.stepBytes bytes.length⟩ := by
    rw [l.holds.mode]; rfl
  refine spec_modify_bind (spec_pure ⟨l1.appended hm hlinked hafter hnext_le, f, ?_,
    hg.trans (l1.grows_appended hm hlinked hafter hnext_le), ?_, rfl, rfl, henc,
    fun hq => hcalm' (hcalm hq)⟩)
  · simp only [appended, hm.keeps.currentSize, hstream]
  · show l1.view.push [f] = _
    rw [hview]
    rfl

theorem Written.add {l : OpenLog cfg C} (h : l.Written) (hview : l'.view = l.view.add cfg f)
    (hf : f.Made cfg) : l'.Written := by
  refine ⟨fun g hg => ?_, ?_⟩
  · rw [hview, frames_add, mem_append, mem_singleton] at hg
    rcases hg with hg | rfl
    · exact h.made g hg
    · exact hf
  · rw [hview, frames_add, layout_concat, h.laid]

/-! ## Batches -/

/-- The frames of a chunk wait to be written behind the log. -/
structure Pending (c : WalWriter.Chunk) (fs : List (Frame C)) : Prop where
  chunk : c.chunk = stream Frame.bytes fs
  size : c.chunkSize = l.writer.currentSize + (stream Frame.bytes fs).length
  linked : Linked cfg.walLsnMode l.position fs
  position : l.position.after cfg.walLsnMode fs = ⟨c.chunkLastLsn, c.chunkNextLsn⟩
  lsn_le : c.chunkNextLsn ≤ u64Max

/-- With the chunk behind it, the log is as it would be without batches. -/
structure WrittenWith (fs : List (Frame C)) : Prop where
  made : ∀ f ∈ l.view.frames ++ fs, f.Made cfg
  laid : layout cfg (l.view.frames ++ fs) = l.view.push fs

variable {l} {c : WalWriter.Chunk} {fs : List (Frame C)}

theorem Pending.last_lt_next (h : l.Pending c fs) : c.chunkLastLsn.getD 0 < c.chunkNextLsn := by
  have hlinked : Linked cfg.walLsnMode .start (l.view.frames ++ fs) :=
    Linked.append_iff.mpr ⟨l.holds.linked, by rw [l.after_frames]; exact h.linked⟩
  have hlt := hlinked.after_last
  rwa [Position.after_append, l.after_frames, h.position] at hlt

theorem Pending.concat (h : l.Pending c fs) (f : Frame C) (batchLastLsn : Nat)
    (hlsn : f.entry.lsn = c.chunkNextLsn) (hprev : f.entry.prevLsn = c.chunkLastLsn.getD 0)
    (hle : c.chunkNextLsn + cfg.walLsnMode.stepBytes f.bytes.length ≤ u64Max) :
    l.Pending { chunk := c.chunk ++ f.bytes, chunkSize := c.chunkSize + f.bytes.length
                chunkLastLsn := some c.chunkNextLsn
                chunkNextLsn := c.chunkNextLsn + cfg.walLsnMode.stepBytes f.bytes.length
                batchLastLsn } (fs ++ [f]) where
  chunk := by simp [h.chunk]
  size := by
    have hsize := h.size
    simp only [stream_append, stream_cons, stream_nil, append_nil, length_append]
    omega
  linked := Linked.concat_iff.mpr ⟨h.linked, by rw [h.position]; exact ⟨hlsn, hprev⟩⟩
  position := by rw [Position.after_concat, Frame.position, hlsn]
  lsn_le := hle

theorem Pending.nil (l : OpenLog cfg C) : l.Pending
    { chunk := [], chunkSize := l.writer.currentSize, chunkLastLsn := l.writer.lastLsn
      chunkNextLsn := l.writer.nextLsn, batchLastLsn := 0 } [] :=
  ⟨rfl, rfl, trivial, rfl, l.holds.lsn_le⟩

theorem spec_writeChunk (h : l.Pending c fs) :
    Spec (WalWriter.writeChunk c) l.writer
      (fun _ w' => ∃ l' : OpenLog cfg C, l'.writer = w' ∧ l.Grows l' ∧ l'.view = l.view.push fs ∧
        l'.position = ⟨c.chunkLastLsn, c.chunkNextLsn⟩)
      (fun w' => l.Fails w') := by
  refine spec_bind (Q := fun _ w' => ∃ w'' cur',
    Moved cfg l.writer l.view l.closed l.cur (stream Frame.bytes fs) w'' cur' ∧
      w' = { w'' with currentSize := l.writer.currentSize + (stream Frame.bytes fs).length }) ?_ ?_
  · refine spec_ite (fun hempty => ?_) fun _ =>
      spec_get_bind (spec_liftExcept_bind (fun size hsize => ?_) fun _ _ => l.fails_refl)
    · rw [h.chunk] at hempty
      refine spec_pure ⟨l.writer, l.cur, ?_, ?_⟩
      · rw [hempty]
        exact ⟨l.holds.lays, le_rfl, .refl _⟩
      · rw [hempty, length_nil, Nat.add_zero]
    · obtain ⟨-, rfl⟩ := addOrFail_eq_ok.mp hsize
      refine spec_bind (l.spec_writeOrRecover c.chunk) fun _ w' ⟨cur', hm⟩ => ?_
      rw [h.chunk] at hm ⊢
      exact spec_modify ⟨w', cur', hm, rfl⟩
  · rintro _ w' ⟨w'', cur', hm, rfl⟩
    refine spec_modify ⟨l.appended hm h.linked h.position h.lsn_le, rfl,
      l.grows_appended hm h.linked h.position h.lsn_le, rfl, rfl⟩

def Collects (l : OpenLog cfg C) (c : WalWriter.Chunk) (w : WalWriter) : Prop :=
  ∃ (l' : OpenLog cfg C) (fs : List (Frame C)), l'.writer = w ∧ l.Grows l' ∧ l'.Pending c fs ∧
    (l.Written → l'.WrittenWith fs)

def PreparedFor (C : RecordCodec R) (cfg : WalConfig) (p : PreparedWalRecord) : Prop :=
  ∃ record, prepareRecordWithCompression C record cfg.walCompression = .ok p ∧ p.ReadBack

theorem WrittenWith.concat (h : l.WrittenWith fs) (hf : f.Made cfg)
    (hroom : (l.view.push fs).roomFor cfg f.bytes.length = l.view.push fs) :
    l.WrittenWith (fs ++ [f]) := by
  refine ⟨fun g hg => ?_, ?_⟩
  · rw [← append_assoc, mem_append, mem_singleton] at hg
    rcases hg with hg | rfl
    · exact h.made g hg
    · exact hf
  · rw [← append_assoc, layout_concat, h.laid, LogView.add, hroom, push_push]

theorem WrittenWith.rotated (h : l.WrittenWith fs) (hf : f.Made cfg)
    (hview : l'.view = (l.view.push fs).roomFor cfg f.bytes.length) :
    l'.WrittenWith [f] := by
  have hframes : l'.view.frames = l.view.frames ++ fs := by rw [hview]; simp
  refine ⟨fun g hg => ?_, ?_⟩
  · rw [hframes, mem_append, mem_singleton] at hg
    rcases hg with hg | rfl
    · exact h.made g hg
    · exact hf
  · rw [hframes, layout_concat, h.laid, LogView.add, hview]

theorem Pending.size_eq (h : l.Pending c fs) :
    c.chunkSize = segmentHeaderSize + (stream Frame.bytes (l.view.push fs).seg).length := by
  have hsize := h.size
  rw [l.holds.size] at hsize
  simp only [LogView.push, stream_append, length_append]
  omega

theorem spec_addToChunk {w : WalWriter} (h : Collects l c w) (hp : PreparedFor C cfg p) :
    Spec (WalWriter.addToChunk cfg c p) w (fun c' w' => Collects l c' w') (fun w' => l.Fails w') := by
  obtain ⟨l1, fs, rfl, hg, hpend, hwritten⟩ := h
  obtain ⟨record, hprepare, hread⟩ := hp
  have hprev : c.chunkLastLsn.getD 0 ≤ u64Max := le_of_lt (lt_of_lt_of_le hpend.last_lt_next hpend.lsn_le)
  refine spec_get_bind (spec_liftExcept_bind (fun bytes henc => ?_) fun _ _ => hg.fails l1.fails_refl)
  refine spec_liftExcept_bind (fun projected hprojected => ?_) fun _ _ => hg.fails l1.fails_refl
  obtain ⟨-, rfl⟩ := addOrFail_eq_ok.mp hprojected
  let f : Frame C := frameOf (prepareRecordWithCompression_of C hprepare) hread hpend.lsn_le hprev henc
  have hmade : f.Made cfg := ⟨rfl, _, hprepare, hread, henc⟩
  have hsize := hpend.size_eq
  have hpos : 0 < c.chunkSize := by rw [hsize, segmentHeaderSize]; omega
  refine spec_ite (fun hfull => ?_) fun hroom => ?_
  · refine spec_bind (spec_mono (spec_writeChunk hpend) (fun _ _ h => h) fun _ h => hg.fails h) ?_
    rintro _ w2 ⟨l2, rfl, hg2, hview2, hpos2⟩
    refine spec_bind (spec_mono l2.spec_rotate (fun _ _ h => h)
      fun _ h => hg.fails (hg2.fails h)) ?_
    rintro _ w3 ⟨l3, rfl, hg3, hview3, hlast3, hnext3⟩
    have hgrown := hg.trans (hg2.trans hg3)
    have hfails : l.Fails l3.writer := hgrown.fails l3.fails_refl
    have hlast : l3.writer.lastLsn = c.chunkLastLsn := hlast3.trans (congrArg Position.last hpos2)
    have hnext : l3.writer.nextLsn = c.chunkNextLsn := hnext3.trans (congrArg Position.next hpos2)
    refine spec_get_bind (spec_liftExcept_bind (fun bytes' henc' => ?_) fun _ _ => hfails)
    -- the entry is encoded again, with the same LSNs
    have hsame : bytes' = bytes := by
      rw [hlast, hnext] at henc'
      exact Except.ok.inj (henc'.symm.trans henc)
    subst hsame
    refine spec_liftExcept_bind (fun size hsize' => ?_) fun _ _ => hfails
    refine spec_liftExcept_bind (fun next hnext' => ?_) fun _ _ => hfails
    obtain ⟨-, rfl⟩ := addOrFail_eq_ok.mp hsize'
    obtain ⟨hnext_le, rfl⟩ := addOrFail_eq_ok.mp hnext'
    have hroom : l3.view = (l1.view.push fs).roomFor cfg f.bytes.length := by
      rw [hview3, hview2, LogView.roomFor, if_pos (by rw [← hsize]; exact hfull.2)]
    rw [l3.holds.mode, hnext] at hnext_le
    have hpending := (Pending.nil l3).concat f l3.writer.nextLsn hnext.symm (by rw [hlast]; rfl)
      (by rw [hnext]; exact hnext_le)
    refine spec_pure ⟨l3, [f], rfl, hgrown, ?_, fun hl => (hwritten hl).rotated hmade hroom⟩
    rw [l3.holds.mode]
    exact hpending
  · refine spec_liftExcept_bind (fun next hnext' => ?_) fun _ _ => hg.fails l1.fails_refl
    obtain ⟨hnext_le, rfl⟩ := addOrFail_eq_ok.mp hnext'
    rw [l1.holds.mode] at hnext_le ⊢
    have hstay : (l1.view.push fs).roomFor cfg f.bytes.length = l1.view.push fs := by
      rw [LogView.roomFor, if_neg (by rw [← hsize]; exact fun h => hroom ⟨hpos, h⟩)]
    exact spec_pure ⟨l1, fs ++ [f], rfl, hg, hpend.concat f c.chunkNextLsn rfl rfl hnext_le,
      fun hl => (hwritten hl).concat hmade hstay⟩

theorem spec_appendPreparedBatch (l : OpenLog cfg C) {records : List PreparedWalRecord}
    (hp : ∀ p ∈ records, PreparedFor C cfg p) :
    Spec (WalWriter.appendPreparedBatch cfg records) l.writer
      (fun _ w' => ∃ l' : OpenLog cfg C, l'.writer = w' ∧ l.Grows l' ∧ (l.Written → l'.Written))
      (fun w' => l.Fails w') := by
  refine spec_ite (fun _ => spec_pure ⟨l, rfl, .refl l, fun h => h⟩) fun _ => spec_get_bind ?_
  have hstart : Collects l _ l.writer := ⟨l, [], rfl, .refl l, Pending.nil l, fun h =>
    ⟨by simpa using h.made, by simpa using h.laid⟩⟩
  refine spec_bind (spec_foldlM records (fun p hmem c w hc => spec_addToChunk hc (hp p hmem)) hstart) ?_
  rintro c w ⟨l1, fs, rfl, hg, hpend, hwritten⟩
  refine spec_bind (spec_mono (spec_writeChunk hpend) (fun _ _ h => h) fun _ h => hg.fails h) ?_
  rintro _ w' ⟨l2, rfl, hg2, hview, -⟩
  refine spec_pure ⟨l2, rfl, hg.trans hg2, fun hl => ⟨?_, ?_⟩⟩
  · rw [hview, frames_push]
    exact (hwritten hl).made
  · rw [hview, frames_push]
    exact (hwritten hl).laid

end OpenLog

end AionDb
