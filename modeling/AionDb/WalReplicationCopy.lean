import AionDb.WalReplicationSpec
import Mathlib.Data.List.Induction

/-!
# The receiver's copy

The receiver appends the records it gets. The log it writes has the frames of
the primary, and a log is laid out in files by its frames alone, so its reader
returns what the reader of the primary returns.
-/

namespace AionDb

open Frames Effect List LogView WalReader

variable {R : Type} {C : RecordCodec R} {cfg : WalConfig}

@[simp] theorem frames_layout (fs : List (Frame C)) : (layout cfg fs).frames = fs := by
  induction fs using List.reverseRecOn with
  | nil => rfl
  | append_singleton fs f ih => rw [layout_concat, frames_add, ih]

theorem Frame.eq_of {f g : Frame C} (hentry : f.entry = g.entry) (hbytes : f.bytes = g.bytes) :
    f = g := by
  cases f
  cases g
  cases hentry
  cases hbytes
  rfl

/-! ## Appending a frame of another log -/

namespace OpenLog

section

variable (l : OpenLog cfg C) (hcalm : l.writer.faults = [])
include l hcalm

theorem append_frame {f : Frame C} (hf : f.Made cfg)
    (hlinked : Linked cfg.walLsnMode .start (l.view.frames ++ [f]))
    (hsize : segmentHeaderSize + (stream Frame.bytes (l.view.frames ++ [f])).length ≤ u64Max) :
    ∃ l' : OpenLog cfg C,
      WalWriter.append cfg C f.entry.record l.writer = (.ok f.entry.lsn, l'.writer) ∧
      l'.view = l.view.add cfg f ∧ l'.writer.faults = [] := by
  obtain ⟨hdb, p, hprepare, hread, henc⟩ := hf
  obtain ⟨hframes, hlsn, hprev⟩ := Linked.concat_iff.mp hlinked
  have hbound := hframes.next_le_length
  rw [l.after_frames] at hlsn hprev hbound
  have hlsn' : f.entry.lsn = l.writer.nextLsn := hlsn
  have hprev' : f.entry.prevLsn = l.last := hprev
  have hseg : l.writer.currentSize ≤
      segmentHeaderSize + (stream Frame.bytes l.view.frames).length := by
    rw [l.holds.size, LogView.frames, stream_append, length_append]
    omega
  simp only [stream_append, stream_cons, stream_nil, append_nil, length_append] at hsize
  have hstep := f.stepBytes_le cfg.walLsnMode
  have hheader : segmentHeaderSize = 22 := rfl
  have hfits : l.Fits p := by
    refine ⟨f.bytes, by rw [← hlsn', ← hprev']; exact henc, ?_, by omega⟩
    simp only [Position.start, OpenLog.position] at hbound
    omega
  have hspec := spec_mono (l.spec_appendPrepared (prepareRecordWithCompression_of C hprepare) hread)
    (fun _ _ h => h) fun _ h => h.2 hcalm hfits
  obtain ⟨lsn, w', hw', l', g, rfl, -, hview, rfl, hentry, henc', hcalm'⟩ := exists_ok_of_spec hspec
  have hsame : g = f := by
    refine Frame.eq_of ?_ ?_
    · rw [hentry, ← hlsn', ← hprev', ← hdb]
    · rw [hlsn', hprev'] at henc
      exact Except.ok.inj (henc'.symm.trans henc)
  subst hsame
  refine ⟨l', ?_, hview, hcalm' hcalm⟩
  rw [hlsn']
  simp only [WalWriter.append, hprepare]
  exact hw'

theorem applyEntries_frames {batch : List (Frame C)} (hmade : ∀ f ∈ batch, f.Made cfg)
    (hlinked : Linked cfg.walLsnMode .start (l.view.frames ++ batch))
    (hsize : segmentHeaderSize + (stream Frame.bytes (l.view.frames ++ batch)).length ≤ u64Max) :
    ∃ l' : OpenLog cfg C,
      (batch.map (·.entry)).forM (WalReceiver.applyEntry C cfg) l.writer = (.ok (), l'.writer) ∧
      l'.view = batch.foldl (·.add cfg) l.view ∧ l'.writer.faults = [] := by
  induction batch generalizing l with
  | nil => exact ⟨l, rfl, rfl, hcalm⟩
  | cons f batch ih =>
    rw [append_cons] at hlinked hsize
    have hsize' : segmentHeaderSize + (stream Frame.bytes (l.view.frames ++ [f])).length ≤ u64Max := by
      rw [stream_append, length_append] at hsize
      omega
    obtain ⟨l1, happend, hview, hcalm1⟩ := l.append_frame hcalm (hmade f (mem_cons_self ..))
      (hlinked.of_prefix (prefix_append _ _)) hsize'
    have hframes : l1.view.frames = l.view.frames ++ [f] := by rw [hview, frames_add]
    obtain ⟨l', hl', hview', hcalm'⟩ := ih l1 hcalm1
      (fun g hg => hmade g (mem_cons_of_mem _ hg)) (by rwa [hframes]) (by rwa [hframes])
    have hone : WalReceiver.applyEntry C cfg f.entry l.writer = (.ok (), l1.writer) := by
      unfold WalReceiver.applyEntry
      rw [bind_apply_of_ok happend]
      simp only [ne_eq, not_true_eq_false, if_false]
      rfl
    refine ⟨l', ?_, by rw [hview', hview]; rfl, hcalm'⟩
    show (WalReceiver.applyEntry C cfg f.entry >>= fun _ => _) l.writer = _
    rw [bind_apply_of_ok hone]
    exact hl'

theorem flush_calm :
    ∃ l' : OpenLog cfg C, WalWriter.flush l.writer = (.ok (), l'.writer) ∧ l'.view = l.view ∧
      l'.writer.buffer = [] ∧ l'.writer.faults = [] ∧ l'.writer.lastLsn = l.writer.lastLsn := by
  have hspec := spec_mono (WalWriter.calm_flush.both l.spec_flush) (fun _ _ h => h)
    fun _ h => h.2 hcalm
  obtain ⟨⟨⟩, w', hw', ⟨l', rfl, -, hview, hbuffer, hkeeps⟩, hcalm'⟩ := exists_ok_of_spec hspec
  exact ⟨l', hw', hview, hbuffer, hcalm' hcalm, hkeeps.lastLsn⟩

end

end OpenLog

/-! ## Receiving -/

/-- The receiver has written the log of `fs`. -/
def ReceiverAt (cfg : WalConfig) (rcv : WalReceiver) (fs : List (Frame C)) : Prop :=
  ∃ l : OpenLog cfg C, l.writer = rcv.writer ∧ l.view = layout cfg fs ∧ rcv.writeLsn = l.last ∧
    l.writer.faults = [] ∧ l.writer.buffer = []

variable {batch done pre rest : List (Frame C)} {rcv : WalReceiver} {first last : Frame C}
  {fuel : Nat} {p : Position}

theorem accept_incoming {f : Frame C} (h : Linked cfg.walLsnMode p (pre ++ [f]))
    (hbound : ∀ g ∈ pre, g.entry.lsn + g.bytes.length ≤ u64Max) :
    WalReceiver.accept (p.last.getD 0) p.next (linkAfter cfg.walLsnMode pre) f.entry f.bytes.length =
      .ok (linkAfter cfg.walLsnMode (pre ++ [f])) := by
  rcases eq_nil_or_concat pre with rfl | ⟨gs, g, rfl⟩
  · obtain ⟨hlsn, hprev, -⟩ := h
    have hchain : ¬(f.entry.prevLsn ≠ 0 ∧ f.entry.prevLsn ≠ p.last.getD 0) := by
      rw [hprev]
      simp
    unfold WalReceiver.accept
    show (if _ then _ else if _ then _ else _) = _
    rw [if_neg hchain, if_neg (not_not.mpr hlsn)]
    rfl
  · rw [concat_eq_append] at h hbound ⊢
    have hprevious : (linkAfter cfg.walLsnMode (gs ++ [g])).previousLsn = some g.entry.lsn := by
      simp [linkAfter]
    simp only [WalReceiver.accept, hprevious, accept_linkAfter_of h hbound]

theorem decodeFrom_stream (h : Linked cfg.walLsnMode p (pre ++ rest))
    (hbound : ∀ g ∈ pre ++ rest, g.entry.lsn + g.bytes.length ≤ u64Max)
    (hfuel : (stream Frame.bytes rest).length ≤ fuel) :
    WalReceiver.decodeFrom C (p.last.getD 0) p.next fuel (linkAfter cfg.walLsnMode pre)
      (stream Frame.bytes rest) = .ok (rest.map (·.entry)) := by
  induction rest generalizing pre fuel with
  | nil => cases fuel <;> rfl
  | cons f rest ih =>
    obtain ⟨hne, hdecode, hrest⟩ := decodes_stream_cons f rest []
    rw [append_nil] at hne hdecode hrest
    have hlong := f.long
    rw [stream_cons, length_append] at hfuel
    obtain ⟨fuel, rfl⟩ : ∃ n, fuel = n + 1 := ⟨fuel - 1, by omega⟩
    rw [append_cons] at h hbound
    have haccept := accept_incoming (h.of_prefix (prefix_append _ _))
      fun g hg => hbound g (mem_append_left _ (mem_append_left _ hg))
    rw [append_nil] at hrest
    have hmore := ih h hbound (show (stream Frame.bytes rest).length ≤ fuel by omega)
    simp only [WalReceiver.decodeFrom, hne, if_false, hdecode, bind, Except.bind, haccept, hrest,
      hmore]
    rfl

theorem decodeIncomingWalBatch_stream (h : Linked cfg.walLsnMode p batch)
    (hbound : ∀ g ∈ batch, g.entry.lsn + g.bytes.length ≤ u64Max)
    (hfirst : batch.head? = some first) (hlast : batch.getLast? = some last) :
    WalReceiver.decodeIncomingWalBatch C (stream Frame.bytes batch) (p.last.getD 0) p.next =
      .ok ⟨first.entry.lsn, last.entry.lsn, batch.map (·.entry)⟩ := by
  have hdecode :=
    decodeFrom_stream (show Linked cfg.walLsnMode p ([] ++ batch) from h) hbound le_rfl
  have hnil : linkAfter cfg.walLsnMode ([] : List (Frame C)) = {} := rfl
  rw [hnil] at hdecode
  simp only [WalReceiver.decodeIncomingWalBatch, hdecode, bind, Except.bind, head?_map, hfirst,
    getLast?_map, hlast, Option.map_some]
  rfl

theorem ReceiverAt.receive (h : ReceiverAt cfg rcv done) (hmade : ∀ f ∈ batch, f.Made cfg)
    (hlinked : Linked cfg.walLsnMode .start (done ++ batch))
    (hsize : segmentHeaderSize + (stream Frame.bytes (done ++ batch)).length ≤ u64Max)
    (hfirst : batch.head? = some first) (hlast : batch.getLast? = some last) :
    ∃ lsn rcv', WalReceiver.receiveMessage C cfg
        ⟨first.entry.lsn, last.entry.lsn, stream Frame.bytes batch⟩ rcv = (.ok lsn, rcv') ∧
      ReceiverAt cfg rcv' (done ++ batch) := by
  obtain ⟨l, hw, hview, hwrite, hcalm, -⟩ := h
  have hframes : l.view.frames = done := by rw [hview, frames_layout]
  have hbatch : Linked cfg.walLsnMode l.position batch := by
    rw [← l.after_frames, hframes]
    exact (Linked.append_iff.mp hlinked).2
  have hbound : ∀ g ∈ batch, g.entry.lsn + g.bytes.length ≤ u64Max := fun g hg =>
    hlinked.lsn_add_length_le (by rw [segmentHeaderSize] at hsize; omega) (mem_append_right _ hg)
  have hdecode := decodeIncomingWalBatch_stream hbatch hbound hfirst hlast
  obtain ⟨l1, happly, hview1, hcalm1⟩ := l.applyEntries_frames hcalm hmade (by rwa [hframes])
    (by rwa [hframes])
  obtain ⟨l2, hflush, hview2, hbuffer, hcalm2, hlast2⟩ := l1.flush_calm hcalm1
  have hall : WalReceiver.applyEntries C cfg (batch.map (·.entry)) l.writer = (.ok (), l2.writer) := by
    unfold WalReceiver.applyEntries
    rw [bind_apply_of_ok happly]
    exact hflush
  have hlayout : l2.view = layout cfg (done ++ batch) := by
    rw [hview2, hview1, hview, layout, layout, foldl_append]
  have hlastLsn : l2.last = last.entry.lsn := by
    have hpos := l2.after_frames
    obtain ⟨gs, rfl⟩ := getLast?_eq_some_iff.mp hlast
    rw [hlayout, frames_layout, ← append_assoc, Position.after_concat] at hpos
    have := congrArg Position.last hpos
    simp only [Frame.position, OpenLog.position] at this
    rw [OpenLog.last, ← this]
    rfl
  refine ⟨last.entry.lsn, ⟨l2.writer, last.entry.lsn⟩, ?_,
    l2, rfl, hlayout, hlastLsn.symm, hcalm2, hbuffer⟩
  have hdecode' : WalReceiver.decodeIncomingWalBatch C (stream Frame.bytes batch) rcv.writeLsn
      rcv.writer.nextLsn = .ok ⟨first.entry.lsn, last.entry.lsn, batch.map (·.entry)⟩ := by
    rw [hwrite, ← hw]
    exact hdecode
  have hrun : WalReceiver.receiveMessage C cfg
      ⟨first.entry.lsn, last.entry.lsn, stream Frame.bytes batch⟩ rcv =
      WalReceiver.applyReceivedWalBatch C cfg
        ⟨first.entry.lsn, last.entry.lsn, batch.map (·.entry)⟩ rcv := by
    unfold WalReceiver.receiveMessage
    rw [get_bind_apply, hdecode']
    show (if _ then _ else if _ then _ else _ : Eff WalReceiver DbError Nat) rcv = _
    rw [if_neg (not_not.mpr rfl), if_neg (not_not.mpr rfl)]
  rw [hrun]
  simp only [WalReceiver.applyReceivedWalBatch, ← hw, hall]

/-! ## The whole log -/

variable {dir : List SegFile} {segs : List (List (Frame C))}

theorem replicateFrom_eq (hdir : Sendable cfg dir segs)
    (hsize : segmentHeaderSize + (stream Frame.bytes segs.flatten).length ≤ u64Max) {s : WalSender}
    (hs : SenderAt cfg dir segs s done rest) (hrcv : ReceiverAt cfg rcv done)
    (hcut : CutFree maxEntriesPerBatch 0 (sizes rest)) (hfuel : rest.length < fuel) :
    ∃ rcv', replicateFrom C cfg dir fuel s rcv = .ok rcv' ∧ ReceiverAt cfg rcv' segs.flatten := by
  induction fuel generalizing s rcv done rest with
  | zero => omega
  | succ fuel ih =>
    cases rest with
    | nil =>
      obtain ⟨s', hs'⟩ := hs.nextBatch_nil hdir
      have hall := hs.all
      rw [append_nil] at hall
      refine ⟨rcv, ?_, hall ▸ hrcv⟩
      simp only [replicateFrom, hs', bind, Except.bind]
      rfl
    | cons f rest =>
      obtain ⟨first, last, taken, rest', s', hsplit, hfirst, hlast, hcut', hbatch, hs'⟩ :=
        hs.nextBatch_cons hdir hcut
      have hall := hs.all
      rw [hsplit, ← append_assoc] at hall
      have hlinked := hdir.readable.linked
      rw [← hall] at hlinked hsize
      obtain ⟨lsn, rcv', hreceive, hrcv'⟩ := hrcv.receive
        (fun g hg => hdir.made g (by rw [← hall]; simp [hg]))
        (hlinked.of_prefix (prefix_append _ _))
        (by rw [stream_append, length_append] at hsize; omega) hfirst hlast
      have hshorter : rest'.length < fuel := by
        have hpos : 0 < taken.length := length_pos_iff.mpr (by rintro rfl; cases hfirst)
        have hlen := congrArg List.length hsplit
        rw [length_append, length_cons] at hlen
        rw [length_cons] at hfuel
        omega
      rw [hall] at hsize
      obtain ⟨rcv'', hrest, hrcv''⟩ := ih hs' hrcv' hcut' hshorter
      refine ⟨rcv'', ?_, hrcv''⟩
      simp only [replicateFrom, hbatch, bind, Except.bind, hreceive]
      exact hrest

/-! ## The log of the primary -/

def OpenLog.fresh (cfg : WalConfig) (C : RecordCodec R) : OpenLog cfg C where
  writer := WalWriter.fresh cfg
  view := ⟨[], []⟩
  closed := []
  cur := SegFile.new.withHeader cfg.walLsnMode cfg.identity
  holds := {
    lays := ⟨rfl, rfl, .nil, by simp [SegFile.withHeader, SegFile.new, WalWriter.fresh]⟩
    mode := rfl
    size := rfl
    linked := trivial
    position := rfl
    lsn_le := show 1 ≤ u64Max by decide }

def WalCall.ReadBack (C : RecordCodec R) (cfg : WalConfig) (call : WalCall R) : Prop :=
  ∀ record ∈ call.records, ∀ p,
    prepareRecordWithCompression C record cfg.walCompression = .ok p → p.ReadBack

theorem spec_perform (l : OpenLog cfg C) (hl : l.Written) {call : WalCall R}
    (hcall : call.ReadBack C cfg) :
    Spec (WalCall.perform C cfg call) l.writer
      (fun _ w' => ∃ l' : OpenLog cfg C, l'.writer = w' ∧ l'.Written) fun _ => True := by
  cases call with
  | append record =>
    refine spec_bind (Q := fun _ w' => ∃ l' : OpenLog cfg C, l'.writer = w' ∧ l'.Written) ?_
      fun _ _ h => spec_pure h
    refine spec_liftExcept_bind (fun p hprepare => ?_) fun _ _ => trivial
    have hread := hcall record (by simp [WalCall.records]) p hprepare
    refine spec_mono (l.spec_appendPrepared (prepareRecordWithCompression_of C hprepare) hread) ?_
      fun _ _ => trivial
    rintro lsn w' ⟨l', f, rfl, -, hview, -, hentry, henc, -⟩
    refine ⟨l', rfl, hl.add hview ⟨by rw [hentry], p, by rw [hentry]; exact hprepare, hread, ?_⟩⟩
    rw [hentry]
    exact henc
  | appendBatch records =>
    refine spec_liftExcept_bind (fun prepared hprepared => ?_) fun _ _ => trivial
    refine spec_bind (Q := fun _ w' => ∃ l' : OpenLog cfg C, l'.writer = w' ∧ l'.Written) ?_
      fun _ _ h => spec_pure h
    refine spec_mono (l.spec_appendPreparedBatch fun p hp => ?_)
      (fun _ w' ⟨l', hw, _, h⟩ => ⟨l', hw, h hl⟩) fun _ _ => trivial
    obtain ⟨record, hmem, hprepare⟩ := mem_of_mapM_eq_ok hprepared hp
    exact ⟨record, hprepare, hcall record hmem p hprepare⟩
  | flush =>
    refine spec_mono l.spec_flush ?_ fun _ _ => trivial
    rintro _ w' ⟨l', rfl, -, hview, -⟩
    exact ⟨l', rfl, by rw [hview]; exact hl.made, by rw [hview]; exact hl.laid⟩
  | flushDurable =>
    refine spec_mono l.spec_flushDurable ?_ fun _ _ => trivial
    rintro _ w' ⟨l', rfl, -, hview, -⟩
    exact ⟨l', rfl, by rw [hview]; exact hl.made, by rw [hview]; exact hl.laid⟩

theorem exists_log_of_writeLog {calls : List (WalCall R)} {w : WalWriter}
    (hread : ∀ call ∈ calls, call.ReadBack C cfg) (h : writeLog C cfg calls = .ok w) :
    ∃ l : OpenLog cfg C, l.writer = w ∧ l.Written ∧ l.writer.buffer = [] := by
  have hspec : Spec (do calls.forM (WalCall.perform C cfg); WalWriter.flush : Eff WalWriter DbError Unit)
      (WalWriter.fresh cfg)
      (fun _ w' => ∃ l : OpenLog cfg C, l.writer = w' ∧ l.Written ∧ l.writer.buffer = [])
      fun _ => True := by
    refine spec_bind (spec_forM (I := fun w' => ∃ l : OpenLog cfg C, l.writer = w' ∧ l.Written) calls
      ?_ ⟨.fresh cfg C, rfl, nofun, rfl⟩) ?_
    · rintro call hcall _ ⟨l, rfl, hl⟩
      exact spec_perform l hl (hread call hcall)
    · rintro _ _ ⟨l, rfl, hl⟩
      refine spec_mono l.spec_flush ?_ fun _ _ => trivial
      rintro _ w' ⟨l', rfl, -, hview, hbuffer, -⟩
      exact ⟨l', rfl, ⟨by rw [hview]; exact hl.made, by rw [hview]; exact hl.laid⟩, hbuffer⟩
  unfold writeLog at h
  unfold Spec at hspec
  split at h
  · rename_i w' hw'
    rw [hw'] at hspec
    cases h
    exact hspec
  · cases h

/-! ## The copy -/

def LogView.segments (v : LogView C) : List (List (Frame C)) := v.closed ++ [v.seg]

@[simp] theorem LogView.flatten_segments (v : LogView C) : v.segments.flatten = v.frames := by
  simp [segments, frames]

theorem OpenLog.stores (l : OpenLog cfg C) (hbuffer : l.writer.buffer = []) :
    List.Forall₂ (fun fs f => f.Stores cfg fs []) l.view.segments l.writer.files := by
  rw [l.holds.lays.files]
  refine rel_append (l.holds.lays.closed.imp fun _ _ h => h.1) (.cons (.inl ?_) .nil)
  rw [l.bytes_of_buffer hbuffer, append_nil]

variable {segs : List (List (Frame C))}

theorem length_stream_le_totalBytes {dir : List SegFile}
    (h : List.Forall₂ (fun fs f => f.Stores cfg fs []) segs dir) :
    (stream Frame.bytes segs.flatten).length ≤ WalReader.totalBytes dir := by
  induction h with
  | nil => exact le_rfl
  | @cons fs f segs dir hf _ ih =>
    have hfile : (stream Frame.bytes fs).length ≤ f.bytes.length := by
      rcases hf with hf | ⟨-, rfl, -⟩
      · rw [hf, append_nil, length_append]
        omega
      · exact Nat.zero_le _
    rw [flatten_cons, stream_append, length_append, WalReader.totalBytes, map_cons, sum_cons]
    simp only [WalReader.totalBytes] at ih
    omega

theorem length_file_le {dir : List SegFile}
    (h : List.Forall₂ (fun fs f => f.Stores cfg fs []) segs dir) :
    ∀ f ∈ dir, f.bytes.length ≤ segmentHeaderSize + (stream Frame.bytes segs.flatten).length := by
  induction h with
  | nil => exact nofun
  | @cons fs f segs dir hf _ ih =>
    intro g hg
    rw [flatten_cons, stream_append, length_append]
    rcases mem_cons.mp hg with rfl | hg
    · rcases hf with hf | ⟨hf, -, -⟩
      · rw [hf, append_nil, length_append, length_segmentHeaderBytes]
        omega
      · rw [hf]
        exact Nat.zero_le _
    · have := ih g hg
      omega

theorem cap_of_stores {dir dir' : List SegFile}
    (h : List.Forall₂ (fun fs f => f.Stores cfg fs []) segs dir)
    (h' : List.Forall₂ (fun fs f => f.Stores cfg fs []) segs dir')
    (hcap : ∀ f ∈ dir, f.bytes.length ≤ maxSegmentReadBytes) :
    ∀ f ∈ dir', f.bytes.length ≤ maxSegmentReadBytes := by
  induction h generalizing dir' with
  | nil => cases h'; exact nofun
  | @cons fs f segs dir hf _ ih =>
    cases h' with
    | @cons _ f' _ dir' hf' hrest =>
      intro g hg
      rcases mem_cons.mp hg with rfl | hg
      · have hle := hcap f (mem_cons_self ..)
        rcases hf' with hf' | ⟨hf', -, -⟩
        · rcases hf with hf | ⟨-, rfl, -⟩
          · rwa [hf', ← hf]
          · rw [hf', stream_nil, append_nil, append_nil, length_segmentHeaderBytes]
            decide
        · rw [hf']
          exact Nat.zero_le _
      · exact ih hrest (fun f hf => hcap f (mem_cons_of_mem _ hf)) g hg

/-- What the reader takes: files that are not too long, of less than `2 ^ 64` bytes in all. -/
def WithinLimits (dir : List SegFile) : Prop :=
  (∀ f ∈ dir, f.bytes.length ≤ maxSegmentReadBytes) ∧ WalReader.totalBytes dir ≤ u64Max
deriving Decidable

theorem OpenLog.size_le (l : OpenLog cfg C) (hbuffer : l.writer.buffer = [])
    (hlimits : WithinLimits l.writer.files) :
    segmentHeaderSize + (stream Frame.bytes l.view.frames).length ≤ u64Max := by
  have hclosed : (stream Frame.bytes l.view.closed.flatten).length ≤ WalReader.totalBytes l.closed :=
    length_stream_le_totalBytes (l.holds.lays.closed.imp fun _ _ h => h.1)
  have htotal := hlimits.2
  rw [l.holds.lays.files] at htotal
  have hcur := congrArg List.length (l.bytes_of_buffer hbuffer)
  rw [length_append, length_segmentHeaderBytes] at hcur
  simp only [WalReader.totalBytes, map_append, sum_append, map_cons, map_nil,
    sum_cons, sum_nil] at htotal hclosed
  rw [LogView.frames, stream_append, length_append]
  omega

theorem OpenLog.readable (l : OpenLog cfg C) (hbuffer : l.writer.buffer = [])
    (hcap : ∀ f ∈ l.writer.files, f.bytes.length ≤ maxSegmentReadBytes)
    (hsize : segmentHeaderSize + (stream Frame.bytes l.view.frames).length ≤ u64Max) :
    Readable cfg l.writer.files l.view.segments where
  stores := l.stores hbuffer
  linked := by rw [LogView.flatten_segments]; exact l.holds.linked
  cap := hcap
  size := by
    rw [LogView.flatten_segments]
    rw [segmentHeaderSize] at hsize
    omega

theorem ReceiverAt.collectAll {fs : List (Frame C)} (h : ReceiverAt cfg rcv fs)
    (hcap : ∀ f ∈ rcv.writer.files, f.bytes.length ≤ maxSegmentReadBytes)
    (hsize : segmentHeaderSize + (stream Frame.bytes fs).length ≤ u64Max) :
    WalReader.collectAll C rcv.writer.files 1 = .ok (fs.map Frame.read) := by
  obtain ⟨l, hw, hview, -, -, hbuffer⟩ := h
  have hframes : l.view.frames = fs := by rw [hview, frames_layout]
  rw [← hw] at hcap ⊢
  rw [collectAll_eq (l.readable hbuffer hcap (by rwa [hframes])), LogView.flatten_segments, hframes]

theorem receiverAt_fresh : ReceiverAt cfg ⟨WalWriter.fresh cfg, 0⟩ ([] : List (Frame C)) :=
  ⟨.fresh cfg C, rfl, rfl, rfl, rfl, rfl⟩

def zeros : RecordCodec Nat where
  writeRecordPayload n := .ok (1 :: List.replicate n 0)
  readRecordPayload b := .ok (b.length - 1)
  lz4 := ⟨.ok, fun c _ => .ok c, fun h => by cases h; rfl⟩
  zstd := ⟨.ok, fun c _ => .ok c, fun h => by cases h; rfl⟩
  read_write h := by cases h; simp
  tag_ne_marker h := by cases h; exact ⟨1, _, rfl, by decide⟩

def zerosConfig : WalConfig :=
  { segmentMaxBytes := 16 * 1024 * 1024, walCompression := .none, walLsnMode := .logical
    identity := ⟨none, none⟩ }

namespace Zeros

def prepared (n : Nat) : PreparedWalRecord :=
  { payloadBytes := 1 :: List.replicate n 0, compressedPayload := none
    compressionTag := entryCompressionNone }

theorem prepare_eq (n : Nat) :
    prepareRecordWithCompression zeros n zerosConfig.walCompression = .ok (prepared n) := rfl

theorem readBack {n : Nat} (h : n < maxCompressedPayloadBytes) : (prepared n).ReadBack := by
  refine ⟨?_, ?_⟩
  · simp only [prepared, length_cons, length_replicate]
    exact h
  · simp [FramedHeader.overRatio, PreparedWalRecord.encoded, prepared]

theorem call_readBack {call : WalCall Nat} (h : ∀ n ∈ call.records, n < maxCompressedPayloadBytes) :
    call.ReadBack zeros zerosConfig := by
  rintro n hn p hp
  cases (prepare_eq n).symm.trans hp
  exact readBack (h n hn)

end Zeros

def threeCalls : List (WalCall Nat) := [.append 3, .appendBatch [1, 2], .flushDurable]

def threeLog : WalWriter :=
  (writeLog zeros zerosConfig threeCalls).toOption.getD (WalWriter.fresh zerosConfig)

/-- Two entries that do not fit one message: the second is taken from the reader
and not sent, and the sender says that it has caught up. -/
theorem replicate_cut {l : OpenLog cfg C} (hl : l.Written) (hbuffer : l.writer.buffer = [])
    (hlimits : WithinLimits l.writer.files) {f g : Frame C} (hframes : l.view.frames = [f, g])
    (hfit : f.bytes.length < maxBatchBytes)
    (hover : maxBatchBytes < f.bytes.length + g.bytes.length) :
    ∃ rcv, replicate C cfg l.writer.files = .ok rcv ∧ ReceiverAt cfg rcv [f] := by
  have hsize := l.size_le hbuffer hlimits
  have hdir : Sendable cfg l.writer.files l.view.segments :=
    ⟨l.readable hbuffer hlimits.1 hsize, by rw [LogView.flatten_segments]; exact hl.made⟩
  have hflat : l.view.segments.flatten = [f, g] := by rw [LogView.flatten_segments, hframes]
  have hlong := f.long
  have hsplit : splitBatch maxEntriesPerBatch 0 [f, g] = ⟨[f], [g], [], false⟩ := by
    have hpositive : ¬(0 + f.bytes.length = 0) := by omega
    rw [show maxEntriesPerBatch = 1022 + 1 + 1 from rfl, splitBatch_take (by decide) (by simp),
      splitBatch_cut (by omega) ⟨hpositive, by omega⟩]
  have hs : SenderAt cfg l.writer.files l.view.segments (.new 1 1 cfg.walCompression) [] [f, g] := by
    rw [← hflat]
    exact senderAt_new hdir 1
  obtain ⟨hat, hstart⟩ := hs.source.resolve_right fun hnone => by cases hnone.2.1
  obtain ⟨b, next, hb, hended, -, hbatch⟩ :=
    nextBatch_cons hdir hs.next hs.compression hs.sent hat hstart
  rw [hsplit] at hb hended
  have hfirst : b.firstLsn = f.entry.lsn := hb.firstLsn
  have hlast : b.lastLsn = f.entry.lsn := (Prod.mk.injEq .. ▸ hb.last).1
  have hdata : b.entriesData = stream Frame.bytes [f] := hb.data
  -- the receiver gets the first frame
  have hlinked := hdir.readable.linked
  rw [hflat] at hlinked
  have hempty : ReceiverAt cfg ⟨WalWriter.fresh cfg, 0⟩ ([] : List (Frame C)) := receiverAt_fresh
  have hmade : ∀ h ∈ [f], h.Made cfg := fun h hh => hl.made h (by
    rw [hframes, mem_singleton.mp hh]
    exact mem_cons_self ..)
  have hsize' : segmentHeaderSize + (stream Frame.bytes ([] ++ [f])).length ≤ u64Max := by
    rw [hframes, stream_cons, length_append] at hsize
    rw [nil_append, stream_cons, stream_nil, append_nil]
    omega
  obtain ⟨lsn, rcv, hreceive, hrcv⟩ := hempty.receive hmade (hlinked.of_prefix ⟨[g], rfl⟩) hsize'
    (show [f].head? = some f from rfl) (show [f].getLast? = some f from rfl)
  -- the next message is read from behind the second one
  have hsource : (WalSender.behind (.new 1 1 cfg.walCompression) b next).source l.writer.files =
      b.reader := by
    simp [WalSender.source, WalSender.behind, hended]
  obtain ⟨r', hr', -⟩ := nextEntryWithLen_nil hdir.readable hb.reader
  have hnone := nextBatch_of_none (C := C) (by rw [hsource]; exact hr')
  refine ⟨rcv, ?_, hrcv⟩
  show replicateFrom C cfg l.writer.files _ (.new 1 1 cfg.walCompression) ⟨WalWriter.fresh cfg, 0⟩ = _
  simp only [replicateFrom, hbatch, bind, Except.bind, hfirst, hlast, hdata, hreceive, hnone]
  rfl

namespace Zeros

theorem encode_first {n : Nat} (h : n < maxCompressedPayloadBytes) :
    encodePreparedEntry 1 0 legacyDatabaseId (prepared n) =
      .ok (entryBytes 1 (prepared n).payloadBytes) := by
  have hplain : ¬((0 : Nat) ≠ 0 ∨ (prepared n).compressedPayload.isSome ∨
      legacyDatabaseId ≠ legacyDatabaseId) := by simp [prepared]
  rw [encodePreparedEntry, if_neg hplain]
  refine writeEntryWithChecksum_eq_ok.mpr ⟨?_, rfl⟩
  simp only [prepared, length_cons, length_replicate]
  simp only [maxCompressedPayloadBytes] at h
  simp only [u32Max]
  omega

theorem length_framedPayload (n : Nat) :
    (framedPayload (prepared n) 1 legacyDatabaseId).length = 20 + n := by
  simp only [framedPayload, length_cons, length_append, length_toLeBytes,
    PreparedWalRecord.encoded, prepared, length_replicate]
  omega

theorem encode_second {n : Nat} (h : n < maxCompressedPayloadBytes) :
    encodePreparedEntry 2 1 legacyDatabaseId (prepared n) =
      .ok (entryBytes 2 (framedPayload (prepared n) 1 legacyDatabaseId)) := by
  have hlen : ¬u32Max < (prepared n).payloadBytes.length := by
    simp only [prepared, length_cons, length_replicate, u32Max]
    simp only [maxCompressedPayloadBytes] at h
    omega
  rw [encodePreparedEntry, if_pos (.inl Nat.one_ne_zero)]
  refine bind_eq_ok.mpr ⟨framedPayload (prepared n) 1 legacyDatabaseId, if_neg hlen,
    writeEntryWithChecksum_eq_ok.mpr ⟨?_, rfl⟩⟩
  rw [length_framedPayload]
  simp only [maxCompressedPayloadBytes] at h
  simp only [u32Max]
  omega

theorem exists_log {n : Nat} (h : n < 2 ^ 20) :
    ∃ (l : OpenLog zerosConfig zeros) (f g : Frame zeros),
      writeLog zeros zerosConfig [.append n, .append n] = .ok l.writer ∧ l.Written ∧
      l.writer.buffer = [] ∧ l.view = ⟨[], [f, g]⟩ ∧ f.bytes.length = 17 + n ∧
      g.bytes.length = 36 + n := by
  have hn : n < maxCompressedPayloadBytes := lt_trans h (by decide)
  have hof := prepareRecordWithCompression_of zeros (prepare_eq n)
  let f : Frame zeros := OpenLog.frameOf hof (readBack hn) (by decide) (by decide) (encode_first hn)
  let g : Frame zeros := OpenLog.frameOf hof (readBack hn) (by decide) (by decide) (encode_second hn)
  have hflen : f.bytes.length = 17 + n := by
    show (entryBytes 1 _).length = _
    rw [length_entryBytes]
    simp only [prepared, length_cons, length_replicate]
    omega
  have hglen : g.bytes.length = 36 + n := by
    show (entryBytes 2 _).length = _
    rw [length_entryBytes, length_framedPayload]
    omega
  have hf : f.Made zerosConfig := ⟨rfl, prepared n, prepare_eq n, readBack hn, encode_first hn⟩
  have hg : g.Made zerosConfig := ⟨rfl, prepared n, prepare_eq n, readBack hn, encode_second hn⟩
  have hbound : segmentHeaderSize + (stream Frame.bytes [f, g]).length ≤ u64Max := by
    simp only [stream_cons, stream_nil, append_nil, length_append, hflen, hglen,
      segmentHeaderSize, u64Max]
    omega
  obtain ⟨l1, happend1, hview1, hcalm1⟩ := (OpenLog.fresh zerosConfig zeros).append_frame rfl hf
    ⟨rfl, rfl, trivial⟩ (by
      show segmentHeaderSize + (stream Frame.bytes [f]).length ≤ u64Max
      rw [stream_cons, length_append] at hbound
      rw [stream_cons, stream_nil, append_nil]
      omega)
  have hframes1 : l1.view.frames = [f] := by rw [hview1, frames_add]; rfl
  obtain ⟨l2, happend2, hview2, hcalm2⟩ := l1.append_frame hcalm1 hg
    (by rw [hframes1]; exact ⟨rfl, rfl, rfl, rfl, trivial⟩) (by rw [hframes1]; exact hbound)
  obtain ⟨l3, hflush, hview3, hbuffer, -, -⟩ := l2.flush_calm hcalm2
  have hwritten : l3.Written := by
    have hfresh : (OpenLog.fresh zerosConfig zeros).Written := ⟨List.forall_mem_nil _, rfl⟩
    have h2 := (hfresh.add hview1 hf).add hview2 hg
    exact ⟨by rw [hview3]; exact h2.made, by rw [hview3]; exact h2.laid⟩
  refine ⟨l3, f, g, ?_, hwritten, hbuffer, ?_, hflen, hglen⟩
  · have hfirst : WalCall.perform zeros zerosConfig (.append n) (WalWriter.fresh zerosConfig) =
        (.ok (), l1.writer) := bind_apply_of_ok happend1
    have hsecond : WalCall.perform zeros zerosConfig (.append n) l1.writer = (.ok (), l2.writer) :=
      bind_apply_of_ok happend2
    have hcalls : [WalCall.append n, .append n].forM (WalCall.perform zeros zerosConfig)
        (WalWriter.fresh zerosConfig) = (.ok (), l2.writer) :=
      (bind_apply_of_ok hfirst).trans (bind_apply_of_ok hsecond)
    have hrun : ([WalCall.append n, .append n].forM (WalCall.perform zeros zerosConfig) >>=
        fun _ => WalWriter.flush) (WalWriter.fresh zerosConfig) = (.ok (), l3.writer) :=
      (bind_apply_of_ok hcalls).trans hflush
    simp only [writeLog, hrun]
  · have hroom : ∀ {v : LogView zeros} {m : Nat},
        segmentHeaderSize + (stream Frame.bytes v.seg).length + m ≤ zerosConfig.segmentMaxBytes →
          v.roomFor zerosConfig m = v := fun hle => if_neg (not_lt.mpr hle)
    have hone : (⟨[], []⟩ : LogView zeros).add zerosConfig f = ⟨[], [f]⟩ := by
      rw [LogView.add, hroom]
      · rfl
      · simp only [stream_nil, length_nil, hflen, segmentHeaderSize, zerosConfig]
        omega
    have htwo : (⟨[], [f]⟩ : LogView zeros).add zerosConfig g = ⟨[], [f, g]⟩ := by
      rw [LogView.add, hroom]
      · rfl
      · simp only [stream_cons, stream_nil, append_nil, hflen, hglen, segmentHeaderSize,
          zerosConfig]
        omega
    rw [hview3, hview2, hview1]
    exact (congrArg (·.add zerosConfig g) hone).trans htwo

end Zeros

end AionDb
