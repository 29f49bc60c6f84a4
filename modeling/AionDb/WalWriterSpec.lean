import AionDb.WalOpenSpec

/-!
# What the writer does to the log

`Holds` relates a writer to the frames of the log: the closed segments are on
disk, the current file and the buffer together hold the frames of the current
segment. Every operation of the writer only adds frames (`Grows`), unless it
fails in one of two ways (`Damaged`): a failed append throws away buffered
entries, or a rotation stops after it has made the next file.
-/

namespace AionDb

open Frames Effect List

variable {R : Type} {C : RecordCodec R} (cfg : WalConfig)

structure LogView (C : RecordCodec R) where
  closed : List (List (Frame C))
  seg : List (Frame C)

def LogView.frames (v : LogView C) : List (Frame C) := v.closed.flatten ++ v.seg

/-- A closed segment is on disk, unless it holds no entry. -/
def SegFile.Sealed (f : SegFile) (fs : List (Frame C)) : Prop :=
  f.Stores cfg fs [] ∧ (fs = [] ∨ f.synced = f.bytes.length)

/-- The files `closed` and the current file `cur` hold the frames of `v`, and
behind them, partly in the buffer, `tail`. -/
structure Lays (w : WalWriter) (v : LogView C) (tail : Bytes) (closed : List SegFile)
    (cur : SegFile) : Prop where
  files : w.files = closed ++ [cur]
  current : w.currentSegment = closed.length
  closed : List.Forall₂ (fun fs f => f.Sealed cfg fs) v.closed closed
  bytes : cur.bytes ++ w.buffer = cfg.header ++ (stream Frame.bytes v.seg ++ tail)

structure Holds (w : WalWriter) (v : LogView C) (closed : List SegFile) (cur : SegFile) : Prop where
  lays : Lays cfg w v [] closed cur
  mode : w.lsnStepMode = cfg.walLsnMode
  size : w.currentSize = segmentHeaderSize + (stream Frame.bytes v.seg).length
  linked : Linked cfg.walLsnMode .start v.frames
  position : Position.start.after cfg.walLsnMode v.frames = ⟨w.lastLsn, w.nextLsn⟩
  lsn_le : w.nextLsn ≤ u64Max

/-- What the operations on the buffered file leave alone. -/
structure Keeps (w w' : WalWriter) : Prop where
  currentSegment : w'.currentSegment = w.currentSegment
  currentSize : w'.currentSize = w.currentSize
  nextLsn : w'.nextLsn = w.nextLsn
  lastLsn : w'.lastLsn = w.lastLsn
  lsnStepMode : w'.lsnStepMode = w.lsnStepMode

theorem Keeps.refl (w : WalWriter) : Keeps w w := ⟨rfl, rfl, rfl, rfl, rfl⟩

theorem Keeps.trans {w w' w'' : WalWriter} (h : Keeps w w') (h' : Keeps w' w'') : Keeps w w'' :=
  ⟨h'.currentSegment.trans h.currentSegment, h'.currentSize.trans h.currentSize,
    h'.nextLsn.trans h.nextLsn, h'.lastLsn.trans h.lastLsn, h'.lsnStepMode.trans h.lsnStepMode⟩

/-- The file or the buffer changed, and behind the frames `tail` stands. -/
structure Moved (w : WalWriter) (v : LogView C) (closed : List SegFile) (cur : SegFile)
    (tail : Bytes) (w' : WalWriter) (cur' : SegFile) : Prop where
  lays : Lays cfg w' v tail closed cur'
  synced : cur.synced ≤ cur'.synced
  keeps : Keeps w w'

variable {cfg}

theorem modify_concat {α : Type} {l : List α} {a : α} {i : Nat} (hi : i = l.length) (f : α → α) :
    (l ++ [a]).modify i f = l ++ [f a] := by
  subst hi
  induction l with
  | nil => rfl
  | cons b l ih => simp [modify_succ_cons, ih]

section

variable {w : WalWriter} {v : LogView C} {closed : List SegFile} {cur : SegFile} {tail : Bytes}

theorem Lays.onFile (h : Lays cfg w v tail closed cur) (f : SegFile → SegFile) :
    (w.onFile w.currentSegment f).files = closed ++ [f cur] := by
  rw [WalWriter.onFile, h.files, modify_concat h.current]

theorem Lays.segmentSize (h : Lays cfg w v tail closed cur) :
    w.segmentSize w.currentSegment = cur.bytes.length := by
  simp [WalWriter.segmentSize, h.files, h.current]

theorem spec_nextFault_bind {ε α : Type} {k : Option IoFault → Eff WalWriter ε α}
    {Q : α → WalWriter → Prop} {E : WalWriter → Prop}
    (h : ∀ fault, Spec (k fault) { w with faults := w.faults.tail } Q E) :
    Spec (WalWriter.nextFault >>= k) w Q E := h _

section

variable (h : Lays cfg w v tail closed cur)
include h

theorem Lays.withFaults (faults : List (Option IoFault)) :
    Lays cfg { w with faults } v tail closed cur :=
  ⟨h.files, h.current, h.closed, h.bytes⟩

theorem Lays.drain (n : Nat) :
    Lays cfg (w.drain n) v tail closed (cur.append (w.buffer.take n)) := by
  refine ⟨h.onFile _, h.current, h.closed, ?_⟩
  rw [SegFile.append_bytes, append_assoc]
  show cur.bytes ++ (w.buffer.take n ++ w.buffer.drop n) = _
  rw [take_append_drop, h.bytes]

theorem Lays.keep (data : Bytes) : Lays cfg (w.keep data) v (tail ++ data) closed cur := by
  refine ⟨h.files, h.current, h.closed, ?_⟩
  show cur.bytes ++ (w.buffer ++ data) = _
  rw [← append_assoc, h.bytes]
  simp only [append_assoc]

theorem Lays.write (hempty : w.buffer = []) (data : Bytes) :
    Lays cfg (w.onFile w.currentSegment (·.append data)) v (tail ++ data) closed
      (cur.append data) := by
  refine ⟨h.onFile _, h.current, h.closed, ?_⟩
  have hbytes := h.bytes
  rw [hempty, append_nil] at hbytes
  show cur.bytes ++ data ++ w.buffer = _
  rw [hempty, append_nil, hbytes]
  simp only [append_assoc]

theorem spec_flushBuf :
    Spec WalWriter.flushBuf w
      (fun _ w' => ∃ cur', Moved cfg w v closed cur tail w' cur' ∧ w'.buffer = [])
      (fun w' => ∃ cur', Moved cfg w v closed cur tail w' cur') := by
  refine spec_get_bind (spec_ite (fun hempty => spec_pure ⟨cur, ⟨h, le_rfl, .refl w⟩, hempty⟩)
    fun _ => spec_nextFault_bind fun fault => ?_)
  have h' := h.withFaults w.faults.tail
  cases fault with
  | none => exact spec_modify ⟨_, ⟨h'.drain _, le_rfl, ⟨rfl, rfl, rfl, rfl, rfl⟩⟩, drop_length⟩
  | some fault =>
    exact spec_modify_bind (show ∃ cur', _ from
      ⟨_, h'.drain fault.done, le_rfl, ⟨rfl, rfl, rfl, rfl, rfl⟩⟩)

end

theorem spec_makeRoom (h : Lays cfg w v [] closed cur) {data : Bytes}
    (hspare : ¬data.length < bufCapacity - w.buffer.length) :
    Spec (WalWriter.makeRoom (bufCapacity - w.buffer.length) data) w
      (fun _ w' => ∃ cur', Moved cfg w v closed cur [] w' cur' ∧
        (bufCapacity ≤ data.length → w'.buffer = []))
      (fun w' => ∃ cur' tail, Moved cfg w v closed cur tail w' cur') := by
  refine spec_ite (fun _ => ?_) fun hle => spec_pure ⟨cur, ⟨h, le_rfl, .refl w⟩, fun hcap => ?_⟩
  · exact spec_mono (spec_flushBuf h) (fun _ w' ⟨cur', hm, hempty⟩ => ⟨cur', hm, fun _ => hempty⟩)
      fun w' ⟨cur', hm⟩ => ⟨cur', [], hm⟩
  · refine length_eq_zero_iff.mp ?_
    simp only [bufCapacity] at hspare hle hcap
    omega

theorem Moved.then {w' w'' : WalWriter} {cur' cur'' : SegFile} {tail' : Bytes}
    (h : Moved cfg w v closed cur tail w' cur') (hlays : Lays cfg w'' v tail' closed cur'')
    (hsynced : cur'.synced ≤ cur''.synced) (hkeeps : Keeps w' w'') :
    Moved cfg w v closed cur tail' w'' cur'' :=
  ⟨hlays, le_trans h.synced hsynced, h.keeps.trans hkeeps⟩

theorem spec_writeAll (h : Lays cfg w v [] closed cur) (data : Bytes) :
    Spec (WalWriter.writeAll data) w
      (fun _ w' => ∃ cur', Moved cfg w v closed cur data w' cur')
      (fun w' => ∃ cur' tail, Moved cfg w v closed cur tail w' cur') := by
  refine spec_get_bind (spec_ite
    (fun _ => spec_modify ⟨cur, h.keep data, le_rfl, ⟨rfl, rfl, rfl, rfl, rfl⟩⟩)
    fun hspare => spec_bind (spec_makeRoom h hspare) ?_)
  rintro _ w' ⟨cur', hm, hempty⟩
  refine spec_ite (fun hcap => spec_nextFault_bind fun fault => ?_) fun _ =>
    spec_modify ⟨cur', hm.then (hm.lays.keep data) le_rfl ⟨rfl, rfl, rfl, rfl, rfl⟩⟩
  have hlays := hm.lays.withFaults w'.faults.tail
  have hcur : w.currentSegment = w'.currentSegment := hm.keeps.currentSegment.symm
  rw [hcur]
  cases fault with
  | none =>
    exact spec_modify ⟨_, hm.then (hlays.write (hempty hcap) data) le_rfl ⟨rfl, rfl, rfl, rfl, rfl⟩⟩
  | some fault =>
    exact spec_modify_bind (show ∃ cur' tail, _ from
      ⟨_, _, hm.then (hlays.write (hempty hcap) (data.take fault.done)) le_rfl
        ⟨rfl, rfl, rfl, rfl, rfl⟩⟩)

end

/-! ## Growing logs -/

structure OpenLog (cfg : WalConfig) (C : RecordCodec R) where
  writer : WalWriter
  view : LogView C
  closed : List SegFile
  cur : SegFile
  holds : Holds cfg writer view closed cur

/-- The frames of the segment up to `lsn` lie in the first `n` bytes of its file. -/
def Covered (seg : List (Frame C)) (lsn n : Nat) : Prop :=
  ∀ k f, seg[k]? = some f → f.entry.lsn ≤ lsn →
    segmentHeaderSize + (stream Frame.bytes (seg.take (k + 1))).length ≤ n

namespace OpenLog

abbrev last (l : OpenLog cfg C) : Nat := l.writer.lastLsn.getD 0

/-- `l'` has the frames of `l`; what was on disk is, and new frames are later ones. -/
structure Grows (l l' : OpenLog cfg C) : Prop where
  frames : l.view.frames <+: l'.view.frames
  last_le : l.last ≤ l'.last
  same : l'.writer.currentSegment = l.writer.currentSegment → l.cur.synced ≤ l'.cur.synced ∧
    ∀ lsn ≤ l.last, ∀ n, Covered l.view.seg lsn n → Covered l'.view.seg lsn n
  later : l'.writer.currentSegment ≠ l.writer.currentSegment →
    l.writer.currentSegment < l'.writer.currentSegment ∧ ∀ lsn ≤ l.last, Covered l'.view.seg lsn 0

theorem Grows.refl (l : OpenLog cfg C) : Grows l l :=
  ⟨prefix_rfl, le_rfl, fun _ => ⟨le_rfl, fun _ _ _ h => h⟩, fun h => absurd rfl h⟩

theorem Grows.trans {l l' l'' : OpenLog cfg C} (h : Grows l l') (h' : Grows l' l'') :
    Grows l l'' := by
  have hle := h.last_le
  refine ⟨h.frames.trans h'.frames, le_trans hle h'.last_le, fun heq => ?_, fun hne => ?_⟩
  · have h1 : l'.writer.currentSegment = l.writer.currentSegment := by
      by_contra hne
      have hlt := (h.later hne).1
      by_cases heq' : l''.writer.currentSegment = l'.writer.currentSegment
      · omega
      · have := (h'.later heq').1
        omega
    obtain ⟨hs, hc⟩ := h.same h1
    obtain ⟨hs', hc'⟩ := h'.same (heq.trans h1.symm)
    exact ⟨le_trans hs hs', fun lsn hlsn n hn => hc' lsn (le_trans hlsn hle) n (hc lsn hlsn n hn)⟩
  · by_cases h1 : l'.writer.currentSegment = l.writer.currentSegment
    · obtain ⟨hlt, hc⟩ := h'.later (h1 ▸ hne)
      exact ⟨h1 ▸ hlt, fun lsn hlsn => hc lsn (le_trans hlsn hle)⟩
    · obtain ⟨hlt, hc⟩ := h.later h1
      by_cases h2 : l''.writer.currentSegment = l'.writer.currentSegment
      · exact ⟨h2 ▸ hlt, fun lsn hlsn => (h'.same h2).2 lsn (le_trans hlsn hle) 0 (hc lsn hlsn)⟩
      · obtain ⟨hlt', hc'⟩ := h'.later h2
        exact ⟨lt_trans hlt hlt', fun lsn hlsn => hc' lsn (le_trans hlsn hle)⟩

variable (l : OpenLog cfg C)

theorem last_lt_next : l.last < l.writer.nextLsn := by
  have h := l.holds.linked.after_last
  rwa [l.holds.position] at h

def moved {w' : WalWriter} {cur' : SegFile}
    (h : Moved cfg l.writer l.view l.closed l.cur [] w' cur') : OpenLog cfg C where
  writer := w'
  view := l.view
  closed := l.closed
  cur := cur'
  holds := {
    lays := h.lays
    mode := h.keeps.lsnStepMode.trans l.holds.mode
    size := h.keeps.currentSize.trans l.holds.size
    linked := l.holds.linked
    position := by rw [h.keeps.lastLsn, h.keeps.nextLsn]; exact l.holds.position
    lsn_le := by rw [h.keeps.nextLsn]; exact l.holds.lsn_le }

theorem grows_moved {w' : WalWriter} {cur' : SegFile}
    (h : Moved cfg l.writer l.view l.closed l.cur [] w' cur') : Grows l (l.moved h) := by
  refine ⟨prefix_rfl, ?_, fun _ => ⟨h.synced, fun _ _ _ hc => hc⟩,
    fun hne => absurd h.keeps.currentSegment hne⟩
  show _ ≤ w'.lastLsn.getD 0
  rw [h.keeps.lastLsn]

end OpenLog

def WalWriter.Damaged (w : WalWriter) : Prop :=
  w.discarded = true ∨ w.files.length ≠ w.currentSegment + 1

/-- An operation that fails has let the log grow, or damaged it. -/
def OpenLog.Fails (l : OpenLog cfg C) (w' : WalWriter) : Prop :=
  w'.Damaged ∨ ∃ l' : OpenLog cfg C, l'.writer = w' ∧ l.Grows l'

theorem OpenLog.Grows.fails {l l' : OpenLog cfg C} (h : l.Grows l') {w' : WalWriter}
    (hf : l'.Fails w') : l.Fails w' :=
  hf.imp id fun ⟨l'', hw, hg⟩ => ⟨l'', hw, h.trans hg⟩

/-! ## Flushing and syncing -/

theorem spec_orFail {α : Type} {context : String} {m : Eff WalWriter String α} {w : WalWriter}
    {Q : α → WalWriter → Prop} {E : WalWriter → Prop} (h : Spec m w Q E) :
    Spec (WalWriter.orFail context m) w Q E := by
  unfold Spec at *
  have happly : WalWriter.orFail context m w =
      ((m w).1.mapError fun e => .internalMsg s!"{context}: {e}", (m w).2) := rfl
  rw [happly]
  match hm : m w with
  | (.ok a, w') => rw [hm] at h; exact h
  | (.error e, w') => rw [hm] at h; exact h

namespace OpenLog

variable (l : OpenLog cfg C)

theorem bytes_of_buffer (h : l.writer.buffer = []) :
    l.cur.bytes = cfg.header ++ stream Frame.bytes l.view.seg := by
  have hbytes := l.holds.lays.bytes
  rwa [h, append_nil, append_nil] at hbytes

theorem covered_of_buffer (h : l.writer.buffer = []) (lsn : Nat) :
    Covered l.view.seg lsn l.cur.bytes.length := by
  intro k f hk _
  have hlt := (List.getElem?_eq_some_iff.mp hk).1
  have hmono := length_stream_take_mono Frame.bytes l.view.seg (show k + 1 ≤ _ from hlt)
  rw [take_length] at hmono
  rw [l.bytes_of_buffer h, length_append, length_segmentHeaderBytes]
  omega

theorem spec_flush :
    Spec WalWriter.flush l.writer
      (fun _ w' => ∃ l' : OpenLog cfg C, l'.writer = w' ∧ l.Grows l' ∧ l'.view = l.view ∧
        w'.buffer = [] ∧ Keeps l.writer w')
      (fun w' => l.Fails w') := by
  refine spec_orFail (spec_mono (spec_flushBuf l.holds.lays) ?_ ?_)
  · rintro _ w' ⟨cur', hm, hempty⟩
    exact ⟨l.moved hm, rfl, l.grows_moved hm, rfl, hempty, hm.keeps⟩
  · rintro w' ⟨cur', hm⟩
    exact .inr ⟨l.moved hm, rfl, l.grows_moved hm⟩

/-- The prepared sync will put every entry up to its LSN on disk. -/
structure Prepared (l : OpenLog cfg C) (p : WalWriter.PreparedSync) : Prop where
  segment_le : p.segment ≤ l.writer.currentSegment
  lsn_le : p.durableLsn ≤ l.last
  same : p.segment = l.writer.currentSegment → Covered l.view.seg p.durableLsn p.length
  later : p.segment ≠ l.writer.currentSegment → Covered l.view.seg p.durableLsn 0

theorem spec_prepareDurableSync :
    Spec WalWriter.prepareDurableSync l.writer
      (fun p w' => ∃ l' : OpenLog cfg C, l'.writer = w' ∧ l.Grows l' ∧ l'.view = l.view ∧
        w'.buffer = [] ∧ Keeps l.writer w' ∧ p.map (·.durableLsn) = l.writer.lastLsn ∧
        ∀ q ∈ p, l'.Prepared q)
      (fun w' => l.Fails w') := by
  refine spec_bind l.spec_flush fun _ w' ⟨l', hw, hg, hview, hempty, hkeeps⟩ =>
    spec_get_bind (spec_pure ⟨l', hw, hg, hview, hempty, hkeeps, ?_, fun q hq => ?_⟩)
  · rw [Option.map_map, hkeeps.lastLsn]
    exact Option.map_id'
  obtain ⟨lsn, hlsn, rfl⟩ := Option.map_eq_some_iff.mp hq
  subst hw
  refine ⟨le_rfl, ?_, fun _ => ?_, fun hne => absurd rfl hne⟩
  · show lsn ≤ l'.writer.lastLsn.getD 0
    rw [hlsn]; exact le_rfl
  · show Covered _ lsn (l'.writer.segmentSize _)
    rw [l'.holds.lays.segmentSize]
    exact l'.covered_of_buffer hempty lsn

theorem moved_onFile (g : SegFile → SegFile) (hbytes : (g l.cur).bytes = l.cur.bytes)
    (hsynced : l.cur.synced ≤ (g l.cur).synced) (faults : List (Option IoFault)) :
    Moved cfg l.writer l.view l.closed l.cur []
      (({ l.writer with faults } : WalWriter).onFile l.writer.currentSegment g) (g l.cur) :=
  ⟨⟨l.holds.lays.onFile _, l.holds.lays.current, l.holds.lays.closed,
    by rw [hbytes]; exact l.holds.lays.bytes⟩, hsynced, ⟨rfl, rfl, rfl, rfl, rfl⟩⟩

theorem spec_syncCurrentFile :
    Spec WalWriter.syncCurrentFile l.writer
      (fun _ w' => ∃ l' : OpenLog cfg C, l'.writer = w' ∧ l.Grows l' ∧ l'.view = l.view ∧
        w'.buffer = l.writer.buffer ∧ Keeps l.writer w' ∧ l'.cur.synced = l'.cur.bytes.length)
      (fun w' => l.Fails w') := by
  refine spec_nextFault_bind fun fault => ?_
  cases fault with
  | none =>
    have hm := l.moved_onFile (·.syncAll) l.cur.syncAll_bytes (l.cur.le_synced_sync _)
      l.writer.faults.tail
    exact spec_modify ⟨l.moved hm, rfl, l.grows_moved hm, rfl, rfl, hm.keeps, l.cur.syncAll_synced⟩
  | some fault =>
    have hm := l.moved_onFile (·.sync fault.done) (l.cur.sync_bytes _) (l.cur.le_synced_sync _)
      l.writer.faults.tail
    exact spec_modify_bind (show l.Fails _ from .inr ⟨l.moved hm, rfl, l.grows_moved hm⟩)

theorem seg_eq_nil (h : l.writer.lastLsn = none) : l.view.frames = [] := by
  have hpos := l.holds.position
  rcases eq_nil_or_concat l.view.frames with hnil | ⟨fs, f, hfs⟩
  · exact hnil
  · rw [hfs, concat_eq_append, Position.after_concat, h] at hpos
    exact absurd (congrArg Position.last hpos) (by simp [Frame.position])

theorem spec_flushDurable :
    Spec WalWriter.flushDurable l.writer
      (fun _ w' => ∃ l' : OpenLog cfg C, l'.writer = w' ∧ l.Grows l' ∧ l'.view = l.view ∧
        w'.buffer = [] ∧ Keeps l.writer w' ∧ l'.cur.Sealed cfg l'.view.seg)
      (fun w' => l.Fails w') := by
  refine spec_bind l.spec_prepareDurableSync ?_
  rintro p w' ⟨l', rfl, hg, hview, hempty, hkeeps, hp, -⟩
  have hstores : ∀ l'' : OpenLog cfg C, l''.writer.buffer = [] →
      l''.cur.Stores cfg l''.view.seg [] := fun l'' h =>
    .inl (by rw [l''.bytes_of_buffer h, append_nil])
  cases p with
  | none =>
    have hnil := l.seg_eq_nil hp.symm
    refine spec_pure ⟨l', rfl, hg, hview, hempty, hkeeps, hstores l' hempty, .inl ?_⟩
    rw [hview]
    exact (append_eq_nil_iff.mp hnil).2
  | some q =>
    refine spec_orFail (spec_mono l'.spec_syncCurrentFile ?_ fun w'' hw'' => hg.fails hw'')
    rintro _ w'' ⟨l'', rfl, hg', hview', hbuffer, hkeeps', hsynced⟩
    have hempty' := hbuffer.trans hempty
    exact ⟨l'', rfl, hg.trans hg', hview'.trans hview, hempty', hkeeps.trans hkeeps',
      hstores l'' hempty', .inr hsynced⟩

/-! ## Rotating -/

theorem spec_openSegmentForAppend (mode : LsnStepMode) :
    Spec (WalWriter.openSegmentForAppend cfg (l.writer.currentSegment + 1) mode) l.writer
      (fun _ w' => w'.files = l.closed ++ [l.cur] ++
          [SegFile.new.append (segmentHeaderBytes mode cfg.identity)] ∧ Keeps l.writer w')
      (fun w' => w'.Damaged) := by
  have hlen : l.writer.files.length = l.writer.currentSegment + 1 := by
    rw [l.holds.lays.files, l.holds.lays.current, length_append, length_singleton]
  have hnew : ¬l.writer.currentSegment + 1 < l.writer.files.length := by omega
  have hdamaged : ∀ {w' : WalWriter}, w'.files.length = l.writer.files.length + 1 →
      w'.currentSegment = l.writer.currentSegment → w'.Damaged :=
    fun hf hc => .inr (by rw [hf, hc]; omega)
  refine spec_modify_bind ?_
  rw [if_neg hnew]
  refine spec_bind (Q := fun _ w' => w'.files = l.closed ++ [l.cur] ++
      [SegFile.new.append (segmentHeaderBytes mode cfg.identity)] ∧ Keeps l.writer w') ?_ ?_
  · refine spec_get_bind (spec_ite (fun _ => spec_orFail (spec_nextFault_bind fun fault => ?_))
      fun hsize => absurd ?_ hsize)
    · cases fault with
      | none =>
        refine spec_modify ⟨?_, ⟨rfl, rfl, rfl, rfl, rfl⟩⟩
        show (l.writer.files ++ [SegFile.new]).modify _ _ = _
        rw [modify_concat hlen.symm, l.holds.lays.files]
      | some fault =>
        refine spec_modify_bind (show WalWriter.Damaged _ from hdamaged ?_ rfl)
        show ((l.writer.files ++ [SegFile.new]).modify _ _).length = _
        rw [length_modify, length_append, length_singleton]
    · simp [WalWriter.segmentSize, ← hlen, SegFile.new]
  · rintro _ w' ⟨hfiles, hkeeps⟩
    refine spec_orFail (spec_nextFault_bind fun fault => ?_)
    cases fault with
    | none => exact spec_pure ⟨hfiles, ⟨hkeeps.1, hkeeps.2, hkeeps.3, hkeeps.4, hkeeps.5⟩⟩
    | some fault =>
      refine show WalWriter.Damaged _ from hdamaged ?_ hkeeps.currentSegment
      show w'.files.length = _
      rw [hfiles, l.holds.lays.files]
      simp

def rotated (hsealed : l.cur.Sealed cfg l.view.seg) {w' : WalWriter}
    (hfiles : w'.files = l.closed ++ [l.cur] ++ [SegFile.new.append cfg.header])
    (hkeeps : Keeps l.writer w') : OpenLog cfg C where
  writer := { w' with
    currentSegment := l.writer.currentSegment + 1, buffer := [], currentSize := segmentHeaderSize }
  view := ⟨l.view.closed ++ [l.view.seg], []⟩
  closed := l.closed ++ [l.cur]
  cur := SegFile.new.append cfg.header
  holds := {
    lays := {
      files := hfiles
      current := by rw [l.holds.lays.current, length_append, length_singleton]
      closed := rel_append l.holds.lays.closed (.cons hsealed .nil)
      bytes := by simp [SegFile.new] }
    mode := hkeeps.lsnStepMode.trans l.holds.mode
    size := rfl
    linked := by simpa [LogView.frames] using l.holds.linked
    position := by
      have hpos := l.holds.position
      rw [← hkeeps.lastLsn, ← hkeeps.nextLsn] at hpos
      simpa [LogView.frames] using hpos
    lsn_le := by rw [hkeeps.nextLsn]; exact l.holds.lsn_le }

theorem grows_rotated (hsealed : l.cur.Sealed cfg l.view.seg) {w' : WalWriter}
    (hfiles : w'.files = l.closed ++ [l.cur] ++ [SegFile.new.append cfg.header])
    (hkeeps : Keeps l.writer w') : l.Grows (l.rotated hsealed hfiles hkeeps) := by
  refine ⟨?_, ?_, fun h => absurd h (Nat.succ_ne_self _), fun _ => ⟨Nat.lt_succ_self _, nofun⟩⟩
  · simp [rotated, LogView.frames]
  · show l.last ≤ w'.lastLsn.getD 0
    rw [hkeeps.lastLsn]

theorem spec_rotate :
    Spec (WalWriter.rotate cfg) l.writer
      (fun _ w' => ∃ l' : OpenLog cfg C, l'.writer = w' ∧ l.Grows l' ∧
        l'.view = ⟨l.view.closed ++ [l.view.seg], []⟩ ∧ w'.lastLsn = l.writer.lastLsn ∧
        w'.nextLsn = l.writer.nextLsn)
      (fun w' => l.Fails w') := by
  refine spec_bind l.spec_flushDurable ?_
  rintro _ w1 ⟨l', rfl, hg, hview, -, hkeeps, hsealed⟩
  refine spec_get_bind (spec_bind (spec_mono (l'.spec_openSegmentForAppend _) (fun _ _ h => h)
    fun w2 hw2 => .inl hw2) ?_)
  rintro _ w2 ⟨hfiles, hkeeps'⟩
  rw [l'.holds.mode] at hfiles
  have hsize : w2.segmentSize (l'.writer.currentSegment + 1) = segmentHeaderSize := by
    simp [WalWriter.segmentSize, hfiles, l'.holds.lays.current, SegFile.new]
  refine spec_modify ⟨l'.rotated hsealed hfiles hkeeps', ?_,
    hg.trans (l'.grows_rotated hsealed hfiles hkeeps'), ?_, ?_, ?_⟩
  · simp only [hsize]; rfl
  · rw [← hview]; rfl
  · exact hkeeps'.lastLsn.trans hkeeps.lastLsn
  · exact hkeeps'.nextLsn.trans hkeeps.nextLsn

end OpenLog

end AionDb
