import AionDb.WalAppendSpec
import AionDb.WalReplication

/-!
# Replication copies the log

The sender cuts the frames of the log into batches (`splitBatch`). When a batch
is full by its size, the frame that did not fit is lost; in a log where this does
not happen (`CutFree`), the receiver appends every frame of the primary, and so
lays out the same log.
-/

namespace AionDb

open Frames List Option WalReader

variable {R : Type} {C : RecordCodec R} {cfg : WalConfig}

/-! ## Batches -/

structure Split (C : RecordCodec R) where
  taken : List (Frame C)
  lost : List (Frame C)
  rest : List (Frame C)
  ended : Bool

/-- One batch: `k` frames may still be added to the `len` bytes it has. -/
def splitBatch : Nat → Nat → List (Frame C) → Split C
  | 0, _, fs => ⟨[], [], fs, false⟩
  | k + 1, len, fs =>
    if maxBatchBytes ≤ len then ⟨[], [], fs, false⟩
    else match fs with
      | [] => ⟨[], [], [], true⟩
      | f :: fs =>
        if len ≠ 0 ∧ maxBatchBytes < len + f.bytes.length then ⟨[], [f], fs, false⟩
        else
          let s := splitBatch k (len + f.bytes.length) fs
          { s with taken := f :: s.taken }

variable {f : Frame C}

section

variable {k len : Nat}

theorem splitBatch_full (h : maxBatchBytes ≤ len) (fs : List (Frame C)) :
    splitBatch (k + 1) len fs = ⟨[], [], fs, false⟩ := by
  unfold splitBatch
  exact if_pos h

theorem splitBatch_nil (h : ¬maxBatchBytes ≤ len) :
    splitBatch (k + 1) len ([] : List (Frame C)) = ⟨[], [], [], true⟩ := by
  unfold splitBatch
  exact if_neg h

theorem splitBatch_cut (h : ¬maxBatchBytes ≤ len)
    (hcut : len ≠ 0 ∧ maxBatchBytes < len + f.bytes.length) (fs : List (Frame C)) :
    splitBatch (k + 1) len (f :: fs) = ⟨[], [f], fs, false⟩ := by
  unfold splitBatch
  rw [if_neg h]
  exact if_pos hcut

theorem splitBatch_take (h : ¬maxBatchBytes ≤ len)
    (hcut : ¬(len ≠ 0 ∧ maxBatchBytes < len + f.bytes.length)) (fs : List (Frame C)) :
    splitBatch (k + 1) len (f :: fs) =
      { splitBatch k (len + f.bytes.length) fs with
        taken := f :: (splitBatch k (len + f.bytes.length) fs).taken } := by
  exact (if_neg h).trans (if_neg hcut)

end

/-- No entry is read into a batch that it would take over the limit: `k` entries
may still be added to the `len` bytes of the batch, and then a new one begins. -/
def CutFree : Nat → Nat → List Nat → Prop
  | _, _, [] => True
  | 0, _, n :: ns => CutFree (maxEntriesPerBatch - 1) n ns
  | k + 1, len, n :: ns =>
    if maxBatchBytes ≤ len then CutFree (maxEntriesPerBatch - 1) n ns
    else (len = 0 ∨ len + n ≤ maxBatchBytes) ∧ CutFree k (len + n) ns

instance CutFree.decidable : ∀ k len ns, Decidable (CutFree k len ns)
  | _, _, [] => .isTrue trivial
  | 0, _, n :: ns => CutFree.decidable (maxEntriesPerBatch - 1) n ns
  | k + 1, len, n :: ns =>
    have := CutFree.decidable (maxEntriesPerBatch - 1) n ns
    have := CutFree.decidable k (len + n) ns
    inferInstanceAs (Decidable (if maxBatchBytes ≤ len then _ else _))

abbrev sizes (fs : List (Frame C)) : List Nat := fs.map (·.bytes.length)

theorem cutFree_new {fs : List (Frame C)} {n : Nat} {ns : List Nat}
    (h : CutFree (maxEntriesPerBatch - 1) n ns) (hfs : sizes fs = n :: ns) :
    CutFree maxEntriesPerBatch 0 (sizes fs) := by
  rw [hfs]
  exact ⟨.inl rfl, by rw [Nat.zero_add]; exact h⟩

theorem splitBatch_of_cutFree {k len : Nat} {fs : List (Frame C)} (h : CutFree k len (sizes fs)) :
    (splitBatch k len fs).lost = [] ∧
      CutFree maxEntriesPerBatch 0 (sizes (splitBatch k len fs).rest) := by
  induction k generalizing len fs with
  | zero =>
    cases fs with
    | nil => exact ⟨rfl, trivial⟩
    | cons f fs => exact ⟨rfl, cutFree_new h rfl⟩
  | succ k ih =>
    by_cases hfull : maxBatchBytes ≤ len
    · rw [splitBatch_full hfull]
      cases fs with
      | nil => exact ⟨rfl, trivial⟩
      | cons f fs =>
        simp only [sizes, map_cons, CutFree, hfull, if_true] at h
        exact ⟨rfl, cutFree_new h rfl⟩
    · cases fs with
      | nil => rw [splitBatch_nil hfull]; exact ⟨rfl, trivial⟩
      | cons f fs =>
        simp only [sizes, map_cons, CutFree, hfull, if_false] at h
        have hfits : ¬(len ≠ 0 ∧ maxBatchBytes < len + f.bytes.length) := by
          have := h.1
          omega
        rw [splitBatch_take hfull hfits]
        exact ih h.2

theorem splitBatch_append (k len : Nat) (fs : List (Frame C)) :
    (splitBatch k len fs).taken ++ ((splitBatch k len fs).lost ++ (splitBatch k len fs).rest) = fs ∧
      ((splitBatch k len fs).ended = true → (splitBatch k len fs).rest = []) := by
  induction k generalizing len fs with
  | zero => exact ⟨rfl, nofun⟩
  | succ k ih =>
    by_cases hfull : maxBatchBytes ≤ len
    · rw [splitBatch_full hfull]
      exact ⟨rfl, nofun⟩
    cases fs with
    | nil => rw [splitBatch_nil hfull]; exact ⟨rfl, fun _ => rfl⟩
    | cons f fs =>
      by_cases hcut : len ≠ 0 ∧ maxBatchBytes < len + f.bytes.length
      · rw [splitBatch_cut hfull hcut]
        exact ⟨rfl, nofun⟩
      · rw [splitBatch_take hfull hcut]
        exact ⟨congrArg (f :: ·) (ih _ fs).1, (ih _ fs).2⟩

theorem splitBatch_taken_ne_nil (f : Frame C) (fs : List (Frame C)) :
    (splitBatch maxEntriesPerBatch 0 (f :: fs)).taken ≠ [] := by
  rw [show maxEntriesPerBatch = 1023 + 1 from rfl, splitBatch_take (by decide) (by simp)]
  exact cons_ne_nil _ _

/-! ## The sender -/

variable {dir : List SegFile} {segs : List (List (Frame C))}

/-- Where the loop of `next_batch` stands: behind `done` it has put the frames
`batch` into the message and dropped `lost`. -/
structure BatchAt (cfg : WalConfig) (dir : List SegFile) (segs : List (List (Frame C)))
    (done : List (Frame C)) (b : SendBatch) (batch lost rest : List (Frame C)) : Prop where
  data : b.entriesData = stream Frame.bytes batch
  firstLsn : b.firstLsn = (batch.head?.map (·.entry.lsn)).getD 0
  last : (b.lastLsn, b.lastEntryBytes) =
    (batch.getLast?.map fun f => (f.entry.lsn, f.bytes.length)).getD (0, 0)
  count : b.count = batch.length
  previous : b.previous = { linkAfter cfg.walLsnMode (done ++ batch) with
    mode := (linkAfter cfg.walLsnMode (done ++ (batch ++ lost))).mode }
  reader : WalReader.At cfg dir segs b.reader (done ++ (batch ++ lost)) rest
  start : ∀ f ∈ rest, b.reader.startLsn ≤ f.entry.lsn

/-- The log the sender reads: frames the encoder made, within the limits of the reader. -/
structure Sendable (cfg : WalConfig) (dir : List SegFile) (segs : List (List (Frame C))) : Prop where
  readable : Readable cfg dir segs
  made : ∀ f ∈ segs.flatten, f.Made cfg

theorem WalReader.At.all {r : WalReader} {done rest : List (Frame C)}
    (h : WalReader.At cfg dir segs r done rest) : done ++ rest = segs.flatten := by
  obtain ⟨here, later, hstands, rfl⟩ := h
  exact hstands.all

theorem Sendable.lsn_pos (hdir : Sendable cfg dir segs) (hf : f ∈ segs.flatten) :
    1 ≤ f.entry.lsn := (hdir.readable.linked.lsn_lt_next hf).1

theorem accept_frame (hdir : Sendable cfg dir segs) {s : WalSender} (hs : 1 ≤ s.nextSendLsn)
    {done batch rest : List (Frame C)} {b : SendBatch}
    (h : BatchAt cfg dir segs done b batch [] (f :: rest)) :
    s.accept b f.entry f.bytes.length = .ok (linkAfter cfg.walLsnMode (done ++ (batch ++ [f]))) := by
  have hall := h.reader.all
  rw [append_nil, append_cons] at hall
  have hlinked := hdir.readable.linked
  have hsize := hdir.readable.size
  rw [← hall] at hlinked hsize
  have hprefix := hlinked.of_prefix (prefix_append _ _)
  have hprevious : b.previous = linkAfter cfg.walLsnMode (done ++ batch) := by
    rw [h.previous, append_nil]
  have haccept := accept_linkAfter hprefix (by
    simp only [stream_append, length_append] at hsize ⊢
    omega)
  have hretained : ¬(b.firstLsn = 0 ∧ b.previous.previousLsn = none ∧
      s.nextSendLsn < f.entry.lsn) := by
    rintro ⟨-, hnone, hlt⟩
    rw [hprevious] at hnone
    have hempty : done ++ batch = [] :=
      getLast?_eq_none_iff.mp (map_eq_none_iff.mp hnone)
    rw [hempty] at hprefix
    have hone : f.entry.lsn = 1 := hprefix.1
    omega
  rw [WalSender.accept, if_neg hretained, hprevious, haccept, append_assoc]

section

variable {s : WalSender} {done batch lost rest : List (Frame C)} {b : SendBatch} {f : Frame C} {k : Nat}

theorem BatchAt.firstLsn_concat (hdir : Sendable cfg dir segs)
    (h : BatchAt cfg dir segs done b batch lost rest) (f : Frame C) :
    (if b.firstLsn = 0 then f.entry.lsn else b.firstLsn) =
      ((batch ++ [f]).head?.map (·.entry.lsn)).getD 0 := by
  cases batch with
  | nil =>
    have hfirst : b.firstLsn = 0 := h.firstLsn
    rw [if_pos hfirst]
    rfl
  | cons g batch =>
    have hfirst : b.firstLsn = g.entry.lsn := h.firstLsn
    have hpos := hdir.lsn_pos (f := g) (by rw [← h.reader.all]; simp)
    rw [if_neg (by omega)]
    exact hfirst

def SendBatch.added (cfg : WalConfig) (b : SendBatch) (reader : WalReader) (seen : List (Frame C))
    (f : Frame C) : SendBatch :=
  { b with
    reader, firstLsn := if b.firstLsn = 0 then f.entry.lsn else b.firstLsn
    lastLsn := f.entry.lsn, lastEntryBytes := f.bytes.length
    previous := linkAfter cfg.walLsnMode (seen ++ [f])
    entriesData := b.entriesData ++ f.bytes, count := b.count + 1 }

def SendBatch.cut (cfg : WalConfig) (b : SendBatch) (reader : WalReader) (seen : List (Frame C))
    (f : Frame C) : SendBatch :=
  { b with
    reader, firstLsn := if b.firstLsn = 0 then f.entry.lsn else b.firstLsn
    previous := { b.previous with mode := (linkAfter cfg.walLsnMode (seen ++ [f])).mode } }

section

variable (hdir : Sendable cfg dir segs) (hs : 1 ≤ s.nextSendLsn)
  (hcompression : s.walCompression = cfg.walCompression)
include hdir hs hcompression

theorem fill_cons (h : BatchAt cfg dir segs done b batch [] (f :: rest))
    (hroom : ¬maxBatchBytes ≤ (stream Frame.bytes batch).length) :
    ∃ r', WalReader.At cfg dir segs r' (done ++ (batch ++ [f])) rest ∧
      (∀ g ∈ rest, r'.startLsn ≤ g.entry.lsn) ∧
      s.fill C dir (k + 1) b =
        if (stream Frame.bytes batch).length ≠ 0 ∧
            maxBatchBytes < (stream Frame.bytes batch).length + f.bytes.length then
          .ok (b.cut cfg r' (done ++ batch) f)
        else s.fill C dir k (b.added cfg r' (done ++ batch) f) := by
  obtain ⟨r', hr', hstart, hat⟩ := nextEntryWithLen_cons hdir.readable h.reader
    (h.start f (mem_cons_self ..))
  have hmem : f ∈ segs.flatten := by rw [← h.reader.all]; simp
  have haccept := accept_frame hdir hs h
  have henc := (hdir.made f hmem).encode
  have hempty : (stream Frame.bytes batch).length ≠ 0 ↔ stream Frame.bytes batch ≠ [] :=
    not_congr length_eq_zero_iff
  rw [append_nil, append_assoc] at hat
  refine ⟨r', hat, fun g hg => hstart ▸ h.start g (mem_cons_of_mem _ hg), ?_⟩
  simp only [WalSender.fill, h.data, hroom, if_false, hr', bind, Except.bind, Frame.read, haccept,
    hcompression, henc, hempty, SendBatch.cut, SendBatch.added, append_assoc]
  rfl

theorem fill_eq (h : BatchAt cfg dir segs done b batch [] rest)
    (hended : b.reachedEndOfStream = false) {len : Nat}
    (hlen : (stream Frame.bytes batch).length = len) :
    let split := splitBatch k len rest
    ∃ b', s.fill C dir k b = .ok b' ∧ b'.reachedEndOfStream = split.ended ∧
      BatchAt cfg dir segs done b' (batch ++ split.taken) split.lost split.rest := by
  induction k generalizing b batch rest len with
  | zero => exact ⟨b, rfl, hended, by simpa [splitBatch] using h⟩
  | succ k ih =>
    subst hlen
    by_cases hfull : maxBatchBytes ≤ (stream Frame.bytes batch).length
    · rw [splitBatch_full hfull]
      refine ⟨b, ?_, hended, by simpa using h⟩
      rw [WalSender.fill, h.data, if_pos hfull]
    · cases rest with
      | nil =>
        obtain ⟨r', hr', hat⟩ := nextEntryWithLen_nil hdir.readable h.reader
        rw [splitBatch_nil hfull]
        refine ⟨{ b with reader := r', reachedEndOfStream := true }, ?_, rfl, ?_⟩
        · simp only [WalSender.fill, h.data, hfull, if_false, hr', bind, Except.bind]
          rfl
        · rw [append_nil]
          exact ⟨h.data, h.firstLsn, h.last, h.count, h.previous, hat, nofun⟩
      | cons f rest =>
        obtain ⟨r', hat, hstart, hfill⟩ := fill_cons (k := k) hdir hs hcompression h hfull
        have hfirst := h.firstLsn_concat hdir f
        rw [hfill]
        by_cases hcut : (stream Frame.bytes batch).length ≠ 0 ∧
            maxBatchBytes < (stream Frame.bytes batch).length + f.bytes.length
        · have hbatch : batch ≠ [] := by rintro rfl; exact hcut.1 rfl
          rw [head?_append_of_ne_nil _ hbatch] at hfirst
          rw [splitBatch_cut hfull hcut, if_pos hcut]
          refine ⟨_, rfl, hended, ?_⟩
          rw [append_nil]
          refine ⟨h.data, hfirst, h.last, h.count, ?_, hat, hstart⟩
          simp only [SendBatch.cut, h.previous, append_assoc]
        · rw [splitBatch_take hfull hcut, if_neg hcut]
          have hnext : BatchAt cfg dir segs done (b.added cfg r' (done ++ batch) f)
              (batch ++ [f]) [] rest :=
            ⟨by simp [SendBatch.added, h.data], hfirst, by simp [SendBatch.added],
              by simp [SendBatch.added, h.count], by simp [SendBatch.added],
              by rwa [append_nil], hstart⟩
          obtain ⟨b', hb', hended', hat'⟩ := ih hnext hended (show _ =
            (stream Frame.bytes batch).length + f.bytes.length by simp)
          exact ⟨b', hb', hended', by rwa [append_assoc] at hat'⟩

end

def WalSender.behind (s : WalSender) (b : SendBatch) (nextSendLsn : Nat) : WalSender :=
  { s with
    nextSendLsn
    sent := { previousLsn := some b.lastLsn, previousEntryBytes := some b.lastEntryBytes
              mode := b.previous.mode }
    reader := if b.reachedEndOfStream then none else some b.reader }

theorem BatchAt.exists_last (h : BatchAt cfg dir segs done b batch lost rest) (hne : batch ≠ []) :
    ∃ g ∈ batch, batch.getLast? = some g ∧ b.lastLsn = g.entry.lsn ∧
      b.lastEntryBytes = g.bytes.length := by
  obtain ⟨gs, g, rfl⟩ := (eq_nil_or_concat batch).resolve_left hne
  rw [concat_eq_append] at h ⊢
  have hlast := h.last
  simp only [getLast?_append, getLast?_singleton, some_or, map_some,
    getD_some, Prod.mk.injEq] at hlast
  exact ⟨g, by simp, by simp, hlast.1, hlast.2⟩

theorem nextBatch_cons (hdir : Sendable cfg dir segs) (hs : 1 ≤ s.nextSendLsn)
    (hcompression : s.walCompression = cfg.walCompression)
    (hsent : s.sent = linkAfter cfg.walLsnMode done)
    (hreader : WalReader.At cfg dir segs (s.source dir) done (f :: rest))
    (hstart : ∀ g ∈ f :: rest, (s.source dir).startLsn ≤ g.entry.lsn) :
    let split := splitBatch maxEntriesPerBatch 0 (f :: rest)
    ∃ b next, BatchAt cfg dir segs done b split.taken split.lost split.rest ∧
      b.reachedEndOfStream = split.ended ∧ b.lastLsn < next ∧
      s.nextBatch C dir = .ok (some ⟨b.firstLsn, b.lastLsn, b.entriesData⟩, s.behind b next) := by
  have hbegin : BatchAt cfg dir segs done
      { previous := s.sent, reader := s.source dir } [] [] (f :: rest) :=
    ⟨rfl, rfl, rfl, rfl, by rw [hsent]; simp, by simpa using hreader, hstart⟩
  obtain ⟨b, hb, hended, hat⟩ := fill_eq (k := maxEntriesPerBatch) hdir hs hcompression hbegin rfl
    (show (stream Frame.bytes ([] : List (Frame C))).length = 0 from rfl)
  rw [nil_append] at hat
  have hne := splitBatch_taken_ne_nil f rest
  obtain ⟨g, hg, -, hlsn, hbytes⟩ := hat.exists_last hne
  have hmem : g ∈ segs.flatten := by
    rw [← hat.reader.all]
    exact mem_append_left _ (mem_append_right _ (mem_append_left _ hg))
  have hbound := hdir.readable.linked.lsn_add_length_le hdir.readable.size hmem
  have hlong := g.long
  have hadvance : ∃ next, WalSender.advanced b = .ok next ∧ b.lastLsn < next := by
    have hone : checkedAdd b.lastLsn 1 = some (b.lastLsn + 1) :=
      checkedAdd_eq_some.mpr ⟨by omega, rfl⟩
    have hlen : checkedAdd b.lastLsn b.lastEntryBytes = some (b.lastLsn + b.lastEntryBytes) :=
      checkedAdd_eq_some.mpr ⟨by omega, rfl⟩
    unfold WalSender.advanced advanceLsnChecked
    rw [hone, hlen]
    cases b.previous.mode with
    | none => exact ⟨_, rfl, by omega⟩
    | some mode => cases mode <;> exact ⟨_, rfl, by omega⟩
  obtain ⟨next, hnext, hlt⟩ := hadvance
  have hcount : b.count ≠ 0 := by
    rw [hat.count]
    exact fun h0 => hne (length_eq_zero_iff.mp h0)
  refine ⟨b, next, hat, hended, hlt, ?_⟩
  simp only [WalSender.nextBatch, hb, bind, Except.bind, hcount, if_false, hnext]
  rfl

theorem nextBatch_of_none {r' : WalReader}
    (hr' : (s.source dir).nextEntryWithLen C dir = .ok (none, r')) :
    s.nextBatch C dir = .ok (none, { s with reader := none }) := by
  have hfill : s.fill C dir maxEntriesPerBatch { previous := s.sent, reader := s.source dir } =
      .ok { previous := s.sent, reader := r', reachedEndOfStream := true } := by
    have hroom : ¬maxBatchBytes ≤ ([] : Bytes).length := by decide
    rw [show maxEntriesPerBatch = 1023 + 1 from rfl, WalSender.fill, if_neg hroom]
    simp only [hr', bind, Except.bind]
    rfl
  simp only [WalSender.nextBatch, hfill, bind, Except.bind]
  rfl

end

/-- The sender has sent `done`; what it reads next is `rest`, or it has let go of
its reader and will open one behind all entries. -/
structure SenderAt (cfg : WalConfig) (dir : List SegFile) (segs : List (List (Frame C)))
    (s : WalSender) (done rest : List (Frame C)) : Prop where
  compression : s.walCompression = cfg.walCompression
  next : 1 ≤ s.nextSendLsn
  sent : s.sent = linkAfter cfg.walLsnMode done
  source : WalReader.At cfg dir segs (s.source dir) done rest ∧
      (∀ f ∈ rest, (s.source dir).startLsn ≤ f.entry.lsn) ∨
    s.reader = none ∧ rest = [] ∧ done = segs.flatten ∧ ∀ f ∈ done, f.entry.lsn < s.nextSendLsn

section

variable {s : WalSender} {done rest : List (Frame C)}

theorem senderAt_new (hdir : Sendable cfg dir segs) (replicaId : Nat) :
    SenderAt cfg dir segs (.new 1 replicaId cfg.walCompression) [] segs.flatten :=
  ⟨rfl, le_rfl, rfl, .inl ⟨at_openAt 1, fun _ hf => hdir.lsn_pos hf⟩⟩

theorem SenderAt.nextBatch_cons (hdir : Sendable cfg dir segs)
    (h : SenderAt cfg dir segs s done (f :: rest))
    (hcut : CutFree maxEntriesPerBatch 0 (sizes (f :: rest))) :
    ∃ first last taken rest' s', f :: rest = taken ++ rest' ∧ taken.head? = some first ∧
      taken.getLast? = some last ∧ CutFree maxEntriesPerBatch 0 (sizes rest') ∧
      s.nextBatch C dir = .ok (some ⟨first.entry.lsn, last.entry.lsn, stream Frame.bytes taken⟩, s') ∧
      SenderAt cfg dir segs s' (done ++ taken) rest' := by
  obtain ⟨hat, hstart⟩ := h.source.resolve_right fun hnone => by cases hnone.2.1
  obtain ⟨b, next, hb, hended, hlt, hbatch⟩ :=
    AionDb.nextBatch_cons hdir h.next h.compression h.sent hat hstart
  obtain ⟨hlost, hfree⟩ := splitBatch_of_cutFree hcut
  obtain ⟨happend, hend⟩ := splitBatch_append maxEntriesPerBatch 0 (f :: rest)
  have hne := splitBatch_taken_ne_nil f rest
  obtain ⟨first, hfirst⟩ := ne_none_iff_exists'.mp (mt head?_eq_none_iff.mp hne)
  obtain ⟨last, -, hlast, hlsn, hbytes⟩ := hb.exists_last hne
  generalize splitBatch maxEntriesPerBatch 0 (f :: rest) = split at *
  rw [hlost, nil_append] at happend
  rw [hlost] at hb
  have hfirstLsn := hb.firstLsn
  rw [hfirst] at hfirstLsn
  have hat' := hb.reader
  rw [append_nil] at hat'
  refine ⟨first, last, split.taken, split.rest, s.behind b next, happend.symm, hfirst, hlast, hfree,
    ?_, h.compression, by show 1 ≤ next; omega, ?_, ?_⟩
  · rw [hbatch, hfirstLsn, hlsn, hb.data]
    rfl
  · simp only [WalSender.behind, hlsn, hbytes, hb.previous, append_nil]
    simp [linkAfter, hlast]
  · cases hreached : b.reachedEndOfStream with
    | false =>
      left
      have hsource : (s.behind b next).source dir = b.reader := by
        simp [WalSender.source, WalSender.behind, hreached]
      rw [hsource]
      exact ⟨hat', hb.start⟩
    | true =>
      right
      have hrest := hend (hended ▸ hreached)
      have hall := hat'.all
      rw [hrest, append_nil] at hall
      refine ⟨by simp [WalSender.behind, hreached], hrest, hall, fun g hg => ?_⟩
      -- the last frame that was sent has the highest LSN
      have hlinked := hdir.readable.linked
      obtain ⟨gs, hgs⟩ := getLast?_eq_some_iff.mp hlast
      rw [← hall, hgs, ← append_assoc] at hlinked
      rw [hgs, ← append_assoc] at hg
      show g.entry.lsn < next
      rcases mem_append.mp hg with hg | hg
      · have hpre := (hlinked.of_prefix (prefix_append _ _)).lsn_lt_next hg
        have hlast' := (Linked.concat_iff.mp hlinked).2.1
        omega
      · rw [mem_singleton.mp hg]
        omega

theorem SenderAt.nextBatch_nil (hdir : Sendable cfg dir segs) (h : SenderAt cfg dir segs s done []) :
    ∃ s', s.nextBatch C dir = .ok (none, s') := by
  rcases h.source with ⟨hat, -⟩ | ⟨hnone, -, hall, hlt⟩
  · obtain ⟨r', hr', -⟩ := nextEntryWithLen_nil hdir.readable hat
    exact ⟨_, nextBatch_of_none hr'⟩
  have hsource : s.source dir = .openAt dir s.nextSendLsn := by rw [WalSender.source, hnone]; rfl
  have hat : WalReader.At cfg dir segs (.openAt dir s.nextSendLsn) [] segs.flatten :=
    at_openAt s.nextSendLsn
  obtain ⟨r', hr', -⟩ := nextEntryWithLen_skip hdir.readable hat (by rw [← hall]; exact hlt)
  exact ⟨_, nextBatch_of_none (by rw [hsource]; exact hr')⟩

theorem SenderAt.all (h : SenderAt cfg dir segs s done rest) : done ++ rest = segs.flatten := by
  rcases h.source with ⟨hat, -⟩ | ⟨-, rfl, rfl, -⟩
  · exact hat.all
  · exact append_nil _

end

end AionDb
