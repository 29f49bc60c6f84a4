import AionDb.WalSegment

/-!
# The writer of the log

`WalWriter` appends entries to the current segment through a buffer of 8 KiB and
starts a new segment when the current one is full. Every write, flush and sync
may fail after a part of its effect: `faults` says how the next ones go.

`discarded` is not in the source: it says that a failed append has thrown away
bytes of entries that had been appended before.
-/

namespace AionDb

open Effect

/-- A write that fails after `done` bytes, or a sync that fails with that much on disk. -/
structure IoFault where
  done : Nat
  error : String

structure WalWriter where
  files : List SegFile
  currentSegment : Nat
  buffer : Bytes
  currentSize : Nat
  nextLsn : Nat
  lastLsn : Option Nat
  lsnStepMode : LsnStepMode
  faults : List (Option IoFault) := []
  discarded : Bool := false

def bufCapacity : Nat := 8 * 1024

namespace WalWriter

variable (cfg : WalConfig)

def onFile (w : WalWriter) (i : Nat) (f : SegFile → SegFile) : WalWriter :=
  { w with files := w.files.modify i f }

def segmentSize (w : WalWriter) (i : Nat) : Nat := (w.files[i]?.map (·.bytes.length)).getD 0

def nextFault {ε : Type} : Eff WalWriter ε (Option IoFault) :=
  modifyGet fun w => (w.faults.head?.join, { w with faults := w.faults.tail })

/-! ## The buffered file -/

def rawWrite (i : Nat) (data : Bytes) : Eff WalWriter String Unit := do
  match ← nextFault with
  | none => modify (·.onFile i (·.append data))
  | some fault =>
    modify (·.onFile i (·.append (data.take fault.done)))
    throw fault.error

def drain (w : WalWriter) (n : Nat) : WalWriter :=
  { w.onFile w.currentSegment (·.append (w.buffer.take n)) with buffer := w.buffer.drop n }

/-- `BufWriter::flush_buf`: after an error the rest stays in the buffer. -/
def flushBuf : Eff WalWriter String Unit := do
  let w ← get
  if w.buffer = [] then pure ()
  else match ← nextFault with
    | none => modify fun w => w.drain w.buffer.length
    | some fault =>
      modify (·.drain fault.done)
      throw fault.error

def keep (w : WalWriter) (data : Bytes) : WalWriter := { w with buffer := w.buffer ++ data }

def makeRoom (spare : Nat) (data : Bytes) : Eff WalWriter String Unit :=
  if spare < data.length then flushBuf else pure ()

def writeAll (data : Bytes) : Eff WalWriter String Unit := do
  let w ← get
  let spare := bufCapacity - w.buffer.length
  if data.length < spare then modify (·.keep data)
  else do
    makeRoom spare data
    if bufCapacity ≤ data.length then rawWrite w.currentSegment data
    else modify (·.keep data)

def orFail {α : Type} (context : String) (m : Eff WalWriter String α) : Eff WalWriter DbError α :=
  ExceptT.adapt (fun e => .internalMsg s!"{context}: {e}") m

def flush : Eff WalWriter DbError Unit := orFail "WAL flush failed" flushBuf

def syncCurrentFile : Eff WalWriter String Unit := do
  match ← nextFault with
  | none => modify fun w => w.onFile w.currentSegment (·.syncAll)
  | some fault =>
    modify fun w => w.onFile w.currentSegment (·.sync fault.done)
    throw fault.error

/-! ## Syncing -/

/-- A clone of the current file: the segment, how much was in it, and the last LSN. -/
structure PreparedSync where
  segment : Nat
  length : Nat
  durableLsn : Nat

def prepareDurableSync : Eff WalWriter DbError (Option PreparedSync) := do
  flush
  let w ← get
  pure (w.lastLsn.map fun lsn =>
    { segment := w.currentSegment, length := w.segmentSize w.currentSegment, durableLsn := lsn })

def flushDurable : Eff WalWriter DbError Unit := do
  match ← prepareDurableSync with
  | none => pure ()
  | some _ => orFail "WAL sync failed" syncCurrentFile

/-! ## Segments -/

def syncDir : Eff WalWriter String Unit := do
  match ← nextFault with
  | none => pure ()
  | some fault => throw fault.error

def writeHeader (i : Nat) (mode : LsnStepMode) : Eff WalWriter DbError Unit := do
  let w ← get
  if w.segmentSize i = 0 then
    orFail "WAL I/O error: writing segment header"
      (rawWrite i (segmentHeaderBytes mode cfg.identity))
  else pure ()

def openSegmentForAppend (i : Nat) (mode : LsnStepMode) : Eff WalWriter DbError Unit := do
  modify fun w => { w with files := if i < w.files.length then w.files else w.files ++ [.new] }
  writeHeader cfg i mode
  orFail "WAL I/O error: syncing directory" syncDir

/-- The old segment is made durable: later syncs are of the new one only. -/
def rotate : Eff WalWriter DbError Unit := do
  flushDurable
  let w ← get
  let newSeg := w.currentSegment + 1
  openSegmentForAppend cfg newSeg w.lsnStepMode
  modify fun w => { w with
    currentSegment := newSeg, buffer := [], currentSize := w.segmentSize newSeg }

/-- Throws the buffer away and cuts the file to the size that counts every entry,
also those that were still in the buffer. -/
def recoverFailedAppend (w : WalWriter) : WalWriter :=
  { w.onFile w.currentSegment (·.setLen w.currentSize) with
    buffer := [], discarded := w.discarded || w.buffer ≠ [] }

def writeOrRecover (encoded : Bytes) : Eff WalWriter DbError Unit := fun w =>
  match writeAll encoded w with
  | (.ok (), w') => (.ok (), w')
  | (.error e, w') =>
    (.error (.internalMsg s!"WAL write failed and the partial tail was truncated: {e}"),
      w'.recoverFailedAppend)

/-! ## Appending -/

def addOrFail (message : String) (a b : Nat) : DbResult Nat :=
  match checkedAdd a b with
  | none => .error (.internalMsg message)
  | some c => .ok c

def nextLsnFrom (w : WalWriter) (lsn entryBytes : Nat) : DbResult Nat :=
  let step := w.lsnStepMode.stepBytes entryBytes
  addOrFail s!"WAL LSN overflow while advancing from {lsn} by {step}" lsn step

def rotateIfFull (projected : Nat) : Eff WalWriter DbError Unit := do
  let w ← get
  if 0 < w.currentSize ∧ cfg.segmentMaxBytes < projected then rotate cfg else pure ()

def appendPrepared (prepared : PreparedWalRecord) : Eff WalWriter DbError Nat := do
  let w ← get
  let lsn := w.nextLsn
  let encoded ← encodePreparedEntry lsn (w.lastLsn.getD 0) legacyDatabaseId prepared
  let nextLsn ← w.nextLsnFrom lsn encoded.length
  let projected ← addOrFail "WAL: current_size + encoded_len overflows u64" w.currentSize
    encoded.length
  rotateIfFull cfg projected
  writeOrRecover encoded
  let w ← get
  let currentSize ← addOrFail "WAL: current_size overflows u64" w.currentSize encoded.length
  modify ({ · with currentSize, lastLsn := some lsn, nextLsn })
  pure lsn

def append {R : Type} (C : RecordCodec R) (record : R) : Eff WalWriter DbError Nat := do
  let prepared ← prepareRecordWithCompression C record cfg.walCompression
  appendPrepared cfg prepared

def writeEncodedChunk (encoded : Bytes) : Eff WalWriter DbError Unit :=
  if encoded = [] then pure () else do
    let w ← get
    let nextSize ← addOrFail "WAL: current_size overflows u64" w.currentSize encoded.length
    writeOrRecover encoded
    modify ({ · with currentSize := nextSize })

structure Chunk where
  chunk : Bytes
  chunkSize : Nat
  chunkLastLsn : Option Nat
  chunkNextLsn : Nat
  batchLastLsn : Nat

def writeChunk (c : Chunk) : Eff WalWriter DbError Unit := do
  writeEncodedChunk c.chunk
  modify ({ · with lastLsn := c.chunkLastLsn, nextLsn := c.chunkNextLsn })

/-- One record of a batch; a full segment is written and closed first. -/
def addToChunk (c : Chunk) (prepared : PreparedWalRecord) : Eff WalWriter DbError Chunk := do
  let w ← get
  let encoded ← encodePreparedEntry c.chunkNextLsn (c.chunkLastLsn.getD 0) legacyDatabaseId prepared
  let projected ← addOrFail "WAL: chunk_size + encoded_len overflows u64" c.chunkSize encoded.length
  if 0 < c.chunkSize ∧ cfg.segmentMaxBytes < projected then do
    writeChunk c
    rotate cfg
    let w ← get
    let lsn := w.nextLsn
    let encoded ← encodePreparedEntry lsn (w.lastLsn.getD 0) legacyDatabaseId prepared
    let chunkSize ← addOrFail "WAL: chunk_size overflows u64" w.currentSize encoded.length
    let chunkNextLsn ← w.nextLsnFrom lsn encoded.length
    pure { chunk := encoded, chunkSize, chunkLastLsn := some lsn, chunkNextLsn, batchLastLsn := lsn }
  else do
    let lsn := c.chunkNextLsn
    let chunkNextLsn ← w.nextLsnFrom lsn encoded.length
    pure { chunk := c.chunk ++ encoded, chunkSize := projected, chunkLastLsn := some lsn,
           chunkNextLsn, batchLastLsn := lsn }

def appendPreparedBatch (records : List PreparedWalRecord) : Eff WalWriter DbError (Option Nat) :=
  if records = [] then pure none else do
    let w ← get
    let c ← records.foldlM (addToChunk cfg)
      { chunk := [], chunkSize := w.currentSize, chunkLastLsn := w.lastLsn
        chunkNextLsn := w.nextLsn, batchLastLsn := 0 }
    writeChunk c
    pure (some c.batchLastLsn)

end WalWriter

end AionDb
