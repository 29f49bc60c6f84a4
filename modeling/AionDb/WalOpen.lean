import AionDb.WalWriter

/-!
# Opening the log

`WalWriter::open` scans every segment: the entries have to decode and to follow
each other. In the last segment the scan stops at the first entry that does
not, and the segment is cut there; in an earlier one that is an error.
-/

namespace AionDb

variable {R : Type} (C : RecordCodec R) (cfg : WalConfig)

/-! ## How an entry follows the one before it -/

structure LinkState where
  previousLsn : Option Nat := none
  previousEntryBytes : Option Nat := none
  mode : Option LsnStepMode := none

inductive LinkFault where
  | backwardChain (expected found : Nat)
  | overflow (after : Nat)
  | logical (expected found : Nat)
  | byteOffset (expected found : Nat)
  | either (logical byteOffset found : Nat)

def LinkFault.isOverflow : LinkFault → Bool
  | .overflow _ => true
  | _ => false

def LinkFault.archived (segId offset : Nat) : LinkFault → DbError
  | .backwardChain expected found => .internalMsg
      s!"WAL corruption in archived segment {segId} at offset {offset}: backward-chain mismatch expected prev_lsn {expected}, found {found}"
  | .overflow after => .internalMsg
      s!"WAL LSN overflow in archived segment {segId} at offset {offset} after {after}"
  | .logical expected found => .internalMsg
      s!"WAL corruption in archived segment {segId} at offset {offset}: expected logical LSN {expected}, found {found}"
  | .byteOffset expected found => .internalMsg
      s!"WAL corruption in archived segment {segId} at offset {offset}: expected byte-offset LSN {expected}, found {found}"
  | .either one other found => .internalMsg
      s!"WAL corruption in archived segment {segId} at offset {offset}: expected LSN {one} (logical) or {other} (byte-offset), found {found}"

def LinkFault.reading : LinkFault → DbError
  | .backwardChain expected found => .internalMsg
      s!"WAL backward-chain mismatch while reading: expected prev_lsn {expected}, found {found}"
  | .overflow after => .internalMsg s!"WAL LSN overflow while reading after {after}"
  | .logical expected found => .internalMsg
      s!"WAL gap detected while reading: expected logical LSN {expected}, found {found}"
  | .byteOffset expected found => .internalMsg
      s!"WAL gap detected while reading: expected byte-offset LSN {expected}, found {found}"
  | .either one other found => .internalMsg
      s!"WAL gap detected while reading: expected LSN {one} (logical) or {other} (byte-offset), found {found}"

/-- The mode of the log, once an entry fits one of the two. -/
def stepModeOf (mode : Option LsnStepMode) (logical byteOffset lsn : Nat) :
    Except LinkFault LsnStepMode :=
  match mode with
  | some .logical => if lsn ≠ logical then .error (.logical logical lsn) else .ok .logical
  | some .byteOffset =>
    if lsn ≠ byteOffset then .error (.byteOffset byteOffset lsn) else .ok .byteOffset
  | none =>
    if lsn = logical then .ok .logical
    else if lsn = byteOffset then .ok .byteOffset
    else .error (.either logical byteOffset lsn)

def LinkState.accept (st : LinkState) (entry : WalEntry R) (consumed : Nat) :
    Except LinkFault LinkState :=
  match st.previousLsn with
  | none => .ok { st with previousLsn := some entry.lsn, previousEntryBytes := some consumed }
  | some prev =>
    if entry.prevLsn ≠ 0 ∧ entry.prevLsn ≠ prev then
      .error (.backwardChain prev entry.prevLsn)
    else match checkedAdd prev 1, checkedAdd prev (st.previousEntryBytes.getD 1) with
      | some logical, some byteOffset => do
        let mode ← stepModeOf st.mode logical byteOffset entry.lsn
        pure { previousLsn := some entry.lsn, previousEntryBytes := some consumed
               mode := some mode }
      | _, _ => .error (.overflow prev)

/-! ## The scan of `WalWriter::open` -/

/-- The entries of one segment: where the scan stops, and what it has seen. -/
def scanEntries (isLast : Bool) (segId : Nat) :
    Nat → LinkState → Nat → Bytes → DbResult (LinkState × Nat)
  | 0, st, offset, _ => .ok (st, offset)
  | fuel + 1, st, offset, rest =>
    if rest = [] then .ok (st, offset)
    else match decodeEntry C rest with
      | .error _ => .ok (st, offset)
      | .ok (entry, consumed) =>
        match st.accept entry consumed with
        | .ok st => scanEntries isLast segId fuel st (offset + consumed) (rest.drop consumed)
        | .error fault =>
          if isLast ∧ fault.isOverflow = false then .ok (st, offset)
          else .error (fault.archived segId offset)

structure ScanState where
  link : LinkState := {}
  headerMode : Option LsnStepMode := none
  headerSystemIdentifier : Option UInt64 := none
  headerTimelineId : Option UInt32 := none
  totalScanBytes : Nat := 0

/-- A value of the header has to be the one the segments before have. -/
def sameInHeaders {α : Type} [DecidableEq α] (what : String) (segId : Nat)
    (previous found : Option α) : DbResult (Option α) :=
  match found, previous with
  | none, _ => .ok previous
  | some value, none => .ok (some value)
  | some value, some before =>
    if before ≠ value then
      .error (.internalMsg s!"WAL segment header {what} mismatch: segment {segId}")
    else .ok previous

def maxSegmentReadBytes : Nat := 64 * 1024 * 1024
def walSegmentScanHardLimitBytes : Nat := 256 * 1024 * 1024
def maxTotalRecoveryScanBytes : Nat := 4 * 1024 * 1024 * 1024

def effectiveSegmentScanCap : Nat :=
  min (max maxSegmentReadBytes (cfg.segmentMaxBytes * 2)) walSegmentScanHardLimitBytes

def readSegmentBytesBounded (segId maxBytes : Nat) (context : String) (f : SegFile) :
    DbResult Bytes :=
  if maxBytes < f.bytes.length then
    .error (.internalMsg
      s!"WAL {context}: segment {segId} is {f.bytes.length} bytes, exceeds safety limit of {maxBytes} bytes")
  else .ok f.bytes

def scanSegment (isLast : Bool) (segId : Nat) (st : ScanState) (f : SegFile) :
    DbResult (ScanState × Nat) := do
  let data ← readSegmentBytesBounded segId (effectiveSegmentScanCap cfg) "startup scan" f
  let totalScanBytes := st.totalScanBytes + data.length
  if maxTotalRecoveryScanBytes < totalScanBytes then
    .error (.internalMsg
      s!"WAL: cumulative recovery scan exceeded {maxTotalRecoveryScanBytes} bytes")
  else do
    let header ← parseSegmentHeader data
    let headerMode ← sameInHeaders "mode" segId st.headerMode header.lsnMode
    let headerSystemIdentifier ←
      sameInHeaders "system identifier" segId st.headerSystemIdentifier header.systemIdentifier
    let headerTimelineId ← sameInHeaders "timeline" segId st.headerTimelineId header.timelineId
    let (link, offset) ← scanEntries C isLast segId data.length st.link header.entryOffset
      (data.drop header.entryOffset)
    if isLast = false ∧ offset < data.length then
      .error (.internalMsg s!"WAL corruption in archived segment {segId} at offset {offset}")
    else
      pure ({ link, headerMode, headerSystemIdentifier, headerTimelineId, totalScanBytes }, offset)

/-- All segments; the offset is the one where the scan of the last one stops. -/
def scanSegments (segId : Nat) (st : ScanState) : List SegFile → DbResult (ScanState × Nat)
  | [] => .error (.internalMsg "WAL segment list unexpectedly empty after initial scan")
  | [f] => scanSegment C cfg true segId st f
  | f :: fs => do
    let (st, _) ← scanSegment C cfg false segId st f
    scanSegments (segId + 1) st fs

/-! ## `WalWriter::open` -/

/-- The header has to fit what is asked for, if both say something. -/
def fitsHeader {α : Type} [DecidableEq α] (message : String) (found expected : Option α) :
    DbResult Unit :=
  match found, expected with
  | some value, some wanted => if value ≠ wanted then .error (.internalMsg message) else .ok ()
  | _, _ => .ok ()

def SegFile.withHeader (f : SegFile) (mode : LsnStepMode) (identity : SegmentClusterIdentity) :
    SegFile :=
  if f.bytes = [] then f.append (segmentHeaderBytes mode identity) else f

def WalWriter.fresh : WalWriter :=
  { files := [SegFile.new.withHeader cfg.walLsnMode cfg.identity], currentSegment := 0
    buffer := [], currentSize := segmentHeaderSize, nextLsn := 1, lastLsn := none
    lsnStepMode := cfg.walLsnMode }

def resumeLsn (mode : LsnStepMode) (link : LinkState) : DbResult Nat :=
  match link.previousLsn with
  | none => .ok 1
  | some lsn => WalWriter.addOrFail s!"WAL LSN overflow while resuming after {lsn}" lsn
      (mode.stepBytes (link.previousEntryBytes.getD 1))

def WalWriter.resume (closed : List SegFile) (last : SegFile) : DbResult WalWriter := do
  let (st, offset) ← scanSegments C cfg 1 {} (closed ++ [last])
  let last := if offset < last.bytes.length then last.setLen offset else last
  let size := last.bytes.length
  fitsHeader "WAL LSN mode mismatch" st.headerMode (some cfg.walLsnMode)
  fitsHeader "WAL system identifier mismatch" st.headerSystemIdentifier cfg.identity.systemIdentifier
  fitsHeader "WAL timeline mismatch" st.headerTimelineId cfg.identity.timelineId
  let last := last.withHeader (st.link.mode.getD cfg.walLsnMode) cfg.identity
  -- The size was taken before the header of an empty segment was written.
  let _ ← readSegmentBytesBounded (closed.length + 1) size "resume auth init" last
  let lsnStepMode := (st.headerMode.or st.link.mode).getD cfg.walLsnMode
  let nextLsn ← resumeLsn lsnStepMode st.link
  pure { files := closed ++ [last], currentSegment := closed.length, buffer := []
         currentSize := size, nextLsn, lastLsn := st.link.previousLsn, lsnStepMode }

def WalWriter.openDir (files : List SegFile) : DbResult WalWriter :=
  match files.getLast? with
  | none => .ok (WalWriter.fresh cfg)
  | some last => WalWriter.resume C cfg files.dropLast last

end AionDb
