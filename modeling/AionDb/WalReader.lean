import AionDb.WalOpenSpec

/-!
# Reading the log

`WalReader` goes over the entries of all segments and keeps its place between
two calls. `At` says where it stands: the frames it has gone over and those in
front of it, the rest of its segment first.
-/

namespace AionDb

open Frames List

variable {R : Type} (C : RecordCodec R)

structure WalReader where
  segments : Nat
  segmentIndex : Nat := 0
  currentSegment : Option Nat := none
  currentData : Bytes := []
  offset : Nat := 0
  startLsn : Nat
  link : LinkState := {}

namespace WalReader

variable (dir : List SegFile)

def openAt (startLsn : Nat) : WalReader := { segments := dir.length, startLsn }

def currentSegmentIsLast (r : WalReader) : Bool := r.currentSegment.any (· + 1 = r.segments)

def loadNextSegment (r : WalReader) : DbResult (Option WalReader) :=
  if r.segments ≤ r.segmentIndex then .ok none
  else match dir[r.segmentIndex]? with
    | none => .error (.internalMsg "WAL I/O error: segment is missing")
    | some f => do
      let currentData ←
        readSegmentBytesBounded (r.segmentIndex + 1) maxSegmentReadBytes "reader segment load" f
      let offset ← entryDataOffset currentData
      pure (some { r with
        segmentIndex := r.segmentIndex + 1, currentSegment := some r.segmentIndex
        currentData, offset })

/-- The next entry of the segment that is loaded. An entry takes at least a
byte, so `fuel` is the length of the segment. -/
def nextInSegment : Nat → WalReader → DbResult (Option (WalEntry R × Nat) × WalReader)
  | 0, r => .ok (none, r)
  | fuel + 1, r =>
    if r.offset < r.currentData.length then
      match decodeEntry C (r.currentData.drop r.offset) with
      | .error _ =>
        match r.currentSegment with
        | none => .error (.internalMsg
            "WAL reader encountered corrupt data without an active segment")
        | some segment =>
          if r.currentSegmentIsLast then .ok (none, { r with offset := r.currentData.length })
          else .error (.internalMsg
            s!"WAL corruption in archived segment {segment + 1} at offset {r.offset}")
      | .ok (entry, consumed) =>
        match r.link.accept entry consumed with
        | .error fault => .error fault.reading
        | .ok link =>
          let r := { r with offset := r.offset + consumed, link }
          if r.startLsn ≤ entry.lsn then .ok (some (entry, consumed), r)
          else nextInSegment fuel r
    else .ok (none, r)

/-- The loop of `next_entry_with_len`, with the number of segments to load. -/
def nextFrom : Nat → WalReader → DbResult (Option (WalEntry R × Nat) × WalReader)
  | 0, r => nextInSegment C r.currentData.length r
  | k + 1, r => do
    let (found, r) ← nextInSegment C r.currentData.length r
    match found with
    | some e => pure (some e, r)
    | none =>
      match ← loadNextSegment dir r with
      | none => pure (none, r)
      | some r => nextFrom k r

def nextEntryWithLen (r : WalReader) : DbResult (Option (WalEntry R × Nat) × WalReader) :=
  nextFrom C dir (r.segments - r.segmentIndex) r

def collectFrom : Nat → WalReader → DbResult (List (WalEntry R × Nat))
  | 0, _ => .ok []
  | fuel + 1, r => do
    let (found, r) ← nextEntryWithLen C dir r
    match found with
    | none => pure []
    | some e => do
      let more ← collectFrom fuel r
      pure (e :: more)

def totalBytes : Nat := (dir.map (·.bytes.length)).sum

def collectAll (startLsn : Nat) : DbResult (List (WalEntry R × Nat)) :=
  collectFrom C dir (totalBytes dir + 1) (openAt dir startLsn)

end WalReader

/-! ## Where a reader stands -/

def Frame.read {C : RecordCodec R} (f : Frame C) : WalEntry R × Nat := (f.entry, f.bytes.length)

theorem length_le_stream {C : RecordCodec R} (fs : List (Frame C)) :
    fs.length ≤ (stream Frame.bytes fs).length := by
  induction fs with
  | nil => exact le_rfl
  | cons f fs ih =>
    have := f.long
    rw [stream_cons, length_append, length_cons]
    omega

theorem SegFile.Stores.length_le {C : RecordCodec R} {cfg : WalConfig} {f : SegFile}
    {fs : List (Frame C)} (h : f.Stores cfg fs []) : fs.length ≤ f.bytes.length := by
  rcases h with h | ⟨-, rfl, -⟩
  · have := length_le_stream fs
    rw [h, append_nil, length_append]
    omega
  · exact Nat.zero_le _

/-- The segments hold frames and nothing else, and the reader takes them. -/
structure Readable (cfg : WalConfig) {C : RecordCodec R} (dir : List SegFile)
    (segs : List (List (Frame C))) : Prop where
  stores : List.Forall₂ (fun fs f => f.Stores cfg fs []) segs dir
  linked : Linked cfg.walLsnMode .start segs.flatten
  cap : ∀ f ∈ dir, f.bytes.length ≤ maxSegmentReadBytes
  size : (stream Frame.bytes segs.flatten).length < u64Max

namespace WalReader

variable {C} {cfg : WalConfig} {dir : List SegFile} {segs : List (List (Frame C))}

/-- The reader has gone over `done`; `here` is left of its segment, `later` are
the segments it has not loaded. -/
structure Stands (cfg : WalConfig) (dir : List SegFile) (segs : List (List (Frame C)))
    (r : WalReader) (done here : List (Frame C)) (later : List (List (Frame C))) : Prop where
  all : done ++ (here ++ later.flatten) = segs.flatten
  data : r.currentData.drop r.offset = stream Frame.bytes here
  segments : r.segments = dir.length
  later : later = segs.drop r.segmentIndex
  link : r.link = linkAfter cfg.walLsnMode done

def At (cfg : WalConfig) (dir : List SegFile) (segs : List (List (Frame C))) (r : WalReader)
    (done rest : List (Frame C)) : Prop :=
  ∃ here later, Stands cfg dir segs r done here later ∧ rest = here ++ later.flatten

theorem at_openAt (startLsn : Nat) : At cfg dir segs (openAt dir startLsn) [] segs.flatten :=
  ⟨[], segs, ⟨rfl, rfl, rfl, rfl, rfl⟩, rfl⟩

variable {r : WalReader} {done here : List (Frame C)} {later : List (List (Frame C))} {fuel : Nat}

theorem nextInSegment_nil (h : Stands cfg dir segs r done [] later) :
    nextInSegment C fuel r = .ok (none, r) := by
  have hle : r.currentData.length ≤ r.offset := by
    have hlen := congrArg List.length h.data
    rw [length_drop] at hlen
    simp only [stream_nil, length_nil] at hlen
    omega
  cases fuel with
  | zero => rfl
  | succ fuel => rw [nextInSegment, if_neg (not_lt.mpr hle)]

/-- The reader when it has gone over `g`, behind `done`. -/
def past (cfg : WalConfig) (r : WalReader) (done : List (Frame C)) (g : Frame C) : WalReader :=
  { r with offset := r.offset + g.bytes.length, link := linkAfter cfg.walLsnMode (done ++ [g]) }

variable {rest : List (Frame C)} {g : Frame C}

theorem Stands.step (h : Stands cfg dir segs r done (g :: here) later) :
    Stands cfg dir segs (r.past cfg done g) (done ++ [g]) here later where
  all := by rw [← h.all]; simp
  data := by
    show r.currentData.drop (r.offset + g.bytes.length) = _
    rw [← drop_drop, h.data, stream_cons, drop_left]
  segments := h.segments
  later := h.later
  link := rfl

section

variable (hdir : Readable cfg dir segs)
include hdir

theorem nextInSegment_cons (h : Stands cfg dir segs r done (g :: here) later) :
    nextInSegment C (fuel + 1) r =
      if r.startLsn ≤ g.entry.lsn then .ok (some g.read, r.past cfg done g)
      else nextInSegment C fuel (r.past cfg done g) := by
  have hlt : r.offset < r.currentData.length := by
    have hlen := congrArg List.length h.data
    rw [length_drop, stream_cons, length_append] at hlen
    have := g.long
    omega
  have hdecode : decodeEntry C (r.currentData.drop r.offset) = .ok (g.entry, g.bytes.length) := by
    rw [h.data, stream_cons]
    exact g.decodes _
  have hlinked := hdir.linked
  have hsize := hdir.size
  rw [← h.all, cons_append, append_cons] at hlinked hsize
  have haccept := accept_linkAfter (hlinked.of_prefix (prefix_append _ _)) (by
    simp only [stream_append, length_append] at hsize
    omega)
  simp only [nextInSegment, hlt, if_true, hdecode, h.link, haccept]
  rfl

theorem nextInSegment_found (h : Stands cfg dir segs r done (g :: here) later)
    (hstart : r.startLsn ≤ g.entry.lsn) :
    nextInSegment C r.currentData.length r = .ok (some g.read, r.past cfg done g) := by
  have hlen := congrArg List.length h.data
  rw [length_drop, stream_cons, length_append] at hlen
  obtain ⟨n, hn⟩ : ∃ n, r.currentData.length = n + 1 := Nat.exists_eq_succ_of_ne_zero (by
    have := g.long
    omega)
  rw [hn, nextInSegment_cons hdir h, if_pos hstart]

theorem nextInSegment_skip (h : Stands cfg dir segs r done here later)
    (hskip : ∀ f ∈ here, f.entry.lsn < r.startLsn) (hfuel : here.length ≤ fuel) :
    ∃ r', nextInSegment C fuel r = .ok (none, r') ∧ r'.startLsn = r.startLsn ∧
      Stands cfg dir segs r' (done ++ here) [] later := by
  induction here generalizing r done fuel with
  | nil => exact ⟨r, nextInSegment_nil h, rfl, by rwa [append_nil]⟩
  | cons g here ih =>
    obtain ⟨fuel, rfl⟩ : ∃ n, fuel = n + 1 := ⟨fuel - 1, by rw [length_cons] at hfuel; omega⟩
    have hg : ¬r.startLsn ≤ g.entry.lsn := not_le.mpr (hskip g (mem_cons_self ..))
    rw [nextInSegment_cons hdir h, if_neg hg]
    obtain ⟨r', hr', hstart, hstands⟩ := ih h.step
      (fun f hf => hskip f (mem_cons_of_mem _ hf)) (Nat.le_of_succ_le_succ hfuel)
    exact ⟨r', hr', hstart, by rwa [← append_cons] at hstands⟩

theorem loadNextSegment_cons {fs : List (Frame C)}
    (h : Stands cfg dir segs r done [] (fs :: later)) :
    ∃ r', loadNextSegment dir r = .ok (some r') ∧ r'.startLsn = r.startLsn ∧
      Stands cfg dir segs r' done fs later := by
  have hlen := hdir.stores.length_eq
  have hidx : r.segmentIndex < segs.length := by
    have := congrArg List.length h.later
    rw [length_cons, length_drop] at this
    omega
  have hcons : segs.drop r.segmentIndex = segs[r.segmentIndex] :: segs.drop (r.segmentIndex + 1) :=
    drop_eq_getElem_cons hidx
  obtain ⟨rfl, hlater⟩ := cons_eq_cons.mp (h.later.trans hcons)
  have hidx' : r.segmentIndex < dir.length := hlen ▸ hidx
  have hstores : dir[r.segmentIndex].Stores cfg segs[r.segmentIndex] [] :=
    hdir.stores.get hidx hidx'
  have hcap := hdir.cap _ (getElem_mem hidx')
  obtain ⟨info, hinfo, hdrop, -, -⟩ := parseSegmentHeader_stores hstores
  have hfile : dir[r.segmentIndex]? = some dir[r.segmentIndex] := getElem?_eq_getElem _
  have hread : readSegmentBytesBounded (r.segmentIndex + 1) maxSegmentReadBytes
      "reader segment load" dir[r.segmentIndex] = .ok dir[r.segmentIndex].bytes :=
    if_neg (not_lt.mpr hcap)
  have hsegments : ¬r.segments ≤ r.segmentIndex := by rw [h.segments, ← hlen]; omega
  refine ⟨{ r with
      segmentIndex := r.segmentIndex + 1, currentSegment := some r.segmentIndex
      currentData := dir[r.segmentIndex].bytes, offset := info.entryOffset }, ?_, rfl, ?_, ?_,
    h.segments, hlater, h.link⟩
  · simp only [loadNextSegment, hsegments, if_false, hfile, hread, entryDataOffset, hinfo, bind,
      Except.bind, Functor.map, Except.map]
    rfl
  · rw [← h.all]; simp
  · rw [append_nil] at hdrop
    exact hdrop

end

theorem length_here_le (h : Stands cfg dir segs r done here later) :
    here.length ≤ r.currentData.length := by
  have hlen := congrArg List.length h.data
  rw [length_drop] at hlen
  have := length_le_stream here
  omega

section

variable (hdir : Readable cfg dir segs)
include hdir

theorem Stands.loads (h : Stands cfg dir segs r done here later) :
    r.segments - r.segmentIndex = later.length := by
  rw [h.later, length_drop, h.segments, hdir.stores.length_eq]

theorem nextFrom_cons (h : Stands cfg dir segs r done here later)
    (hrest : here ++ later.flatten = g :: rest) (hstart : r.startLsn ≤ g.entry.lsn) :
    ∃ r', nextFrom C dir later.length r = .ok (some g.read, r') ∧ r'.startLsn = r.startLsn ∧
      At cfg dir segs r' (done ++ [g]) rest := by
  induction later generalizing r here with
  | nil =>
    rw [flatten_nil, append_nil] at hrest
    subst hrest
    exact ⟨r.past cfg done g, nextInSegment_found hdir h hstart, rfl, rest, [], h.step, by simp⟩
  | cons fs later ih =>
    cases here with
    | nil =>
      obtain ⟨r1, hload, hstart1, hstands⟩ := loadNextSegment_cons hdir h
      obtain ⟨r', hr', hstart', hat⟩ := ih hstands (by rw [← hrest]; rfl) (hstart1 ▸ hstart)
      refine ⟨r', ?_, hstart'.trans hstart1, hat⟩
      rw [length_cons, nextFrom, nextInSegment_nil h]
      simp only [bind, Except.bind, hload]
      exact hr'
    | cons f here =>
      obtain ⟨rfl, rfl⟩ := cons_eq_cons.mp hrest
      refine ⟨r.past cfg done f, ?_, rfl, here, fs :: later, h.step, rfl⟩
      rw [length_cons, nextFrom, nextInSegment_found hdir h hstart]
      rfl

theorem nextEntryWithLen_cons (h : At cfg dir segs r done (g :: rest))
    (hstart : r.startLsn ≤ g.entry.lsn) :
    ∃ r', nextEntryWithLen C dir r = .ok (some g.read, r') ∧ r'.startLsn = r.startLsn ∧
      At cfg dir segs r' (done ++ [g]) rest := by
  obtain ⟨here, later, hstands, hrest⟩ := h
  rw [nextEntryWithLen, hstands.loads hdir]
  exact nextFrom_cons hdir hstands hrest.symm hstart

theorem nextFrom_skip (h : Stands cfg dir segs r done here later)
    (hskip : ∀ f ∈ here ++ later.flatten, f.entry.lsn < r.startLsn) :
    ∃ r', nextFrom C dir later.length r = .ok (none, r') ∧
      At cfg dir segs r' (done ++ (here ++ later.flatten)) [] := by
  obtain ⟨r1, hr1, hstart1, hstands1⟩ := nextInSegment_skip hdir h
    (fun f hf => hskip f (mem_append_left _ hf)) (length_here_le h)
  induction later generalizing r r1 done here with
  | nil =>
    rw [flatten_nil, append_nil]
    exact ⟨r1, hr1, [], [], hstands1, rfl⟩
  | cons fs later ih =>
    obtain ⟨r2, hload, hstart2, hstands2⟩ := loadNextSegment_cons hdir hstands1
    have hskip2 : ∀ f ∈ fs ++ later.flatten, f.entry.lsn < r2.startLsn := fun f hf => by
      rw [hstart2, hstart1]
      exact hskip f (mem_append_right _ hf)
    obtain ⟨r3, hr3, hstart3, hstands3⟩ := nextInSegment_skip hdir hstands2
      (fun f hf => hskip2 f (mem_append_left _ hf)) (length_here_le hstands2)
    obtain ⟨r', hr', hat⟩ := ih hstands2 hskip2 r3 hr3 hstart3 hstands3
    refine ⟨r', ?_, by rw [flatten_cons, ← append_assoc done]; exact hat⟩
    rw [length_cons, nextFrom, hr1]
    simp only [bind, Except.bind, hload]
    exact hr'

theorem nextEntryWithLen_skip (h : At cfg dir segs r done rest)
    (hskip : ∀ f ∈ rest, f.entry.lsn < r.startLsn) :
    ∃ r', nextEntryWithLen C dir r = .ok (none, r') ∧ At cfg dir segs r' (done ++ rest) [] := by
  obtain ⟨here, later, hstands, rfl⟩ := h
  rw [nextEntryWithLen, hstands.loads hdir]
  exact nextFrom_skip hdir hstands hskip

theorem nextEntryWithLen_nil (h : At cfg dir segs r done []) :
    ∃ r', nextEntryWithLen C dir r = .ok (none, r') ∧ At cfg dir segs r' done [] := by
  simpa using nextEntryWithLen_skip hdir h nofun

theorem collectFrom_at (h : At cfg dir segs r done rest)
    (hstart : ∀ f ∈ rest, r.startLsn ≤ f.entry.lsn) (hfuel : rest.length < fuel) :
    collectFrom C dir fuel r = .ok (rest.map Frame.read) := by
  induction rest generalizing r done fuel with
  | nil =>
    obtain ⟨fuel, rfl⟩ : ∃ n, fuel = n + 1 := ⟨fuel - 1, by omega⟩
    obtain ⟨r', hr', -⟩ := nextEntryWithLen_nil hdir h
    rw [collectFrom, hr']
    rfl
  | cons g rest ih =>
    obtain ⟨fuel, rfl⟩ : ∃ n, fuel = n + 1 := ⟨fuel - 1, by omega⟩
    obtain ⟨r', hr', hstart', hat⟩ := nextEntryWithLen_cons hdir h (hstart g (mem_cons_self ..))
    have hmore := ih hat (fun f hf => hstart' ▸ hstart f (mem_cons_of_mem _ hf))
      (Nat.lt_of_succ_lt_succ hfuel)
    rw [collectFrom, hr']
    simp only [bind, Except.bind, hmore]
    rfl

theorem collectAll_eq : collectAll C dir 1 = .ok (segs.flatten.map Frame.read) := by
  refine collectFrom_at hdir (at_openAt 1) (fun f hf => (hdir.linked.lsn_lt_next hf).1) ?_
  have hlen : segs.flatten.length ≤ totalBytes dir := by
    have hstores := hdir.stores
    clear hdir
    induction hstores with
    | nil => exact Nat.zero_le _
    | @cons fs f segs dir hf _ ih =>
      have hfile := hf.length_le
      rw [flatten_cons, length_append, totalBytes, map_cons, sum_cons]
      simp only [totalBytes] at ih
      omega
  omega

end

end WalReader

end AionDb
