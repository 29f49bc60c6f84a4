import AionDb.WalReader

/-!
# Streaming replication

`WalSender` reads the log of the primary and cuts it into messages, by the
number of entries and by their encoded size. `WalReceiver` checks that the
entries of a message follow its own log and appends them to it.
-/

namespace AionDb

open Effect

variable {R : Type} (C : RecordCodec R) (cfg : WalConfig)

structure WalData where
  startLsn : Nat
  endLsn : Nat
  data : Bytes

def advanceLsnChecked (lsn step : Nat) (context : String) : DbResult Nat :=
  match checkedAdd lsn step with
  | none => .error (.internalMsg s!"WAL replication LSN overflow in {context}: {lsn} + {step}")
  | some next => .ok next

/-! ## The sender -/

def maxEntriesPerBatch : Nat := 1024
def maxBatchBytes : Nat := 1024 * 1024

structure WalSender where
  nextSendLsn : Nat
  replicaId : Nat
  walCompression : WalCompression
  sent : LinkState := {}
  reader : Option WalReader := none

/-- The sum that does not fit: one is added first. -/
def overflowStep (after previousEntryBytes : Nat) : Nat :=
  if u64Max < after + 1 then 1 else previousEntryBytes

def LinkFault.batchStart (nextSendLsn lsn previousEntryBytes : Nat) : LinkFault → DbError
  | .backwardChain _ _ => .internalMsg
      s!"requested WAL starting at {nextSendLsn} is no longer retained; backward-chain mismatch at LSN {lsn}"
  | .overflow after => .internalMsg
      s!"WAL replication LSN overflow in sender batch start: {after} + {overflowStep after previousEntryBytes}"
  | .logical _ _ | .byteOffset _ _ | .either _ _ _ => .internalMsg
      s!"requested WAL starting at {nextSendLsn} is no longer retained; earliest available LSN is {lsn}"

def LinkFault.continuity (replicaId previousEntryBytes : Nat) : LinkFault → DbError
  | .backwardChain expected found => .internalMsg
      s!"WAL stream continuity error for replica replica-{replicaId}: backward-chain mismatch expected prev_lsn {expected}, found {found}"
  | .overflow after => .internalMsg
      s!"WAL replication LSN overflow in sender batch continuity: {after} + {overflowStep after previousEntryBytes}"
  | .logical expected found => .internalMsg
      s!"WAL stream continuity error for replica replica-{replicaId}: expected logical LSN {expected}, found {found}"
  | .byteOffset expected found => .internalMsg
      s!"WAL stream continuity error for replica replica-{replicaId}: expected byte-offset LSN {expected}, found {found}"
  | .either one other found => .internalMsg
      s!"WAL stream continuity error for replica replica-{replicaId}: expected LSN {one} (logical) or {other} (byte-offset), found {found}"

structure SendBatch where
  entriesData : Bytes := []
  firstLsn : Nat := 0
  lastLsn : Nat := 0
  lastEntryBytes : Nat := 0
  count : Nat := 0
  previous : LinkState
  reader : WalReader
  reachedEndOfStream : Bool := false

namespace WalSender

def new (startLsn replicaId : Nat) (walCompression : WalCompression) : WalSender :=
  { nextSendLsn := startLsn, replicaId, walCompression }

def accept (s : WalSender) (b : SendBatch) (entry : WalEntry R) (entryBytes : Nat) :
    DbResult LinkState :=
  if b.firstLsn = 0 ∧ b.previous.previousLsn = none ∧ s.nextSendLsn < entry.lsn then
    .error (.internalMsg
      s!"requested WAL starting at {s.nextSendLsn} is no longer retained; earliest available LSN is {entry.lsn}")
  else match b.previous.accept entry entryBytes with
    | .ok link => .ok link
    | .error fault =>
      let previousEntryBytes := b.previous.previousEntryBytes.getD 1
      .error (if b.firstLsn = 0 then fault.batchStart s.nextSendLsn entry.lsn previousEntryBytes
        else fault.continuity s.replicaId previousEntryBytes)

/-- The loop of `next_batch`; `k` is the number of entries that may still be
added. An entry that does not fit has been taken from the reader when the loop
ends. -/
def fill (dir : List SegFile) (s : WalSender) : Nat → SendBatch → DbResult SendBatch
  | 0, b => .ok b
  | k + 1, b =>
    if maxBatchBytes ≤ b.entriesData.length then .ok b
    else do
      let (found, reader) ← b.reader.nextEntryWithLen C dir
      match found with
      | none => pure { b with reader, reachedEndOfStream := true }
      | some (entry, entryBytes) => do
        let link ← s.accept b entry entryBytes
        let firstLsn := if b.firstLsn = 0 then entry.lsn else b.firstLsn
        let encoded ← encodeEntryWithCompression C entry s.walCompression
        if b.entriesData ≠ [] ∧ maxBatchBytes < b.entriesData.length + encoded.length then
          pure { b with reader, firstLsn, previous := { b.previous with mode := link.mode } }
        else
          fill dir s k { b with
            reader, firstLsn, lastLsn := entry.lsn, lastEntryBytes := entryBytes
            previous := link, entriesData := b.entriesData ++ encoded, count := b.count + 1 }

def advanced (b : SendBatch) : DbResult Nat :=
  match b.previous.mode with
  | some .byteOffset => advanceLsnChecked b.lastLsn b.lastEntryBytes "sender next_send_lsn"
  | some .logical | none => advanceLsnChecked b.lastLsn 1 "sender next_send_lsn"

def source (dir : List SegFile) (s : WalSender) : WalReader :=
  s.reader.getD (.openAt dir s.nextSendLsn)

def nextBatch (dir : List SegFile) (s : WalSender) : DbResult (Option WalData × WalSender) := do
  let b ← fill C dir s maxEntriesPerBatch { previous := s.sent, reader := s.source dir }
  if b.count = 0 then pure (none, { s with reader := none })
  else do
    let nextSendLsn ← advanced b
    pure (some { startLsn := b.firstLsn, endLsn := b.lastLsn, data := b.entriesData },
      { s with
        nextSendLsn
        sent := { previousLsn := some b.lastLsn, previousEntryBytes := some b.lastEntryBytes
                  mode := b.previous.mode }
        reader := if b.reachedEndOfStream then none else some b.reader })

end WalSender

/-! ## The receiver -/

structure WalReceiver where
  writer : WalWriter
  writeLsn : Nat

structure ReceivedWalBatch (R : Type) where
  firstLsn : Nat
  lastLsn : Nat
  entries : List (WalEntry R)

def LinkFault.receiving : LinkFault → DbError
  | .backwardChain expected found => .internalMsg
      s!"WAL receiver backward-chain mismatch: expected prev_lsn {expected}, got {found}"
  | .overflow after => .internalMsg s!"WAL receiver LSN overflow after {after}"
  | .logical expected found => .internalMsg
      s!"WAL receiver out-of-order LSN: expected logical {expected}, got {found}"
  | .byteOffset expected found => .internalMsg
      s!"WAL receiver out-of-order LSN: expected byte-offset {expected}, got {found}"
  | .either one other found => .internalMsg
      s!"WAL receiver out-of-order LSN: expected {one} (logical) or {other} (byte-offset), got {found}"

namespace WalReceiver

def openDir (dir : List SegFile) : DbResult WalReceiver := do
  let writer ← WalWriter.openDir C cfg dir
  pure { writer, writeLsn := writer.lastLsn.getD 0 }

/-- The first entry of a message follows the local log, a later one the one before it. -/
def accept (writeLsn expectedStartLsn : Nat) (st : LinkState) (entry : WalEntry R)
    (consumed : Nat) : DbResult LinkState :=
  match st.previousLsn with
  | some _ =>
    match st.accept entry consumed with
    | .ok st => .ok st
    | .error fault => .error fault.receiving
  | none =>
    if entry.prevLsn ≠ 0 ∧ entry.prevLsn ≠ writeLsn then
      .error (.internalMsg
        s!"WAL receiver backward-chain mismatch at batch start: expected prev_lsn {writeLsn}, got {entry.prevLsn}")
    else if entry.lsn ≠ expectedStartLsn then
      .error (.internalMsg
        s!"WAL receiver out-of-order LSN: expected {expectedStartLsn}, got {entry.lsn}")
    else .ok { st with previousLsn := some entry.lsn, previousEntryBytes := some consumed }

/-- The loop of `decode_incoming_wal_batch`; an entry takes at least a byte. -/
def decodeFrom (writeLsn expectedStartLsn : Nat) :
    Nat → LinkState → Bytes → DbResult (List (WalEntry R))
  | 0, _, _ => .ok []
  | fuel + 1, st, data =>
    if data = [] then .ok []
    else do
      let (entry, consumed) ← decodeEntry C data
      let st ← accept writeLsn expectedStartLsn st entry consumed
      let more ← decodeFrom writeLsn expectedStartLsn fuel st (data.drop consumed)
      pure (entry :: more)

def decodeIncomingWalBatch (data : Bytes) (writeLsn expectedStartLsn : Nat) :
    DbResult (ReceivedWalBatch R) := do
  let entries ← decodeFrom C writeLsn expectedStartLsn data.length {} data
  match entries.head?, entries.getLast? with
  | some first, some last => pure { firstLsn := first.lsn, lastLsn := last.lsn, entries }
  | _, _ => .error (.internalMsg "WAL receiver got empty WalData payload")

/-- One entry is appended; it has to get the LSN it has on the primary. -/
def applyEntry (entry : WalEntry R) : Eff WalWriter DbError Unit := do
  let assigned ← WalWriter.append cfg C entry.record
  if assigned ≠ entry.lsn then
    throw (.internalMsg
      s!"WAL receiver local LSN mismatch: expected {entry.lsn}, assigned {assigned}")
  else pure ()

def applyEntries (entries : List (WalEntry R)) : Eff WalWriter DbError Unit := do
  entries.forM (applyEntry C cfg)
  WalWriter.flush

/-- `apply_received_wal_batch`. After a failure the log is opened anew; the
bytes in the buffer of the old writer are written when it is dropped. -/
def applyReceivedWalBatch (batch : ReceivedWalBatch R) : Eff WalReceiver DbError Nat := fun rcv =>
  match applyEntries C cfg batch.entries rcv.writer with
  | (.ok (), w) => (.ok batch.lastLsn, { writer := w, writeLsn := batch.lastLsn })
  | (.error e, w) =>
    match WalWriter.openDir C cfg w.files with
    | .error _ =>
      (.error (.internalMsg "WAL receiver apply failed and resync failed"),
        { rcv with writer := w })
    | .ok w' =>
      (.error e, { writer := w'.onFile w.currentSegment (·.append w.buffer)
                   writeLsn := w'.lastLsn.getD 0 })

def receiveMessage (message : WalData) : Eff WalReceiver DbError Nat := do
  let rcv ← get
  let batch ← decodeIncomingWalBatch C message.data rcv.writeLsn rcv.writer.nextLsn
  if batch.firstLsn ≠ message.startLsn then
    throw (.internalMsg
      s!"WAL receiver batch start_lsn mismatch: message says {message.startLsn}, payload starts at {batch.firstLsn}")
  else if batch.lastLsn ≠ message.endLsn then
    throw (.internalMsg
      s!"WAL receiver batch end_lsn mismatch: message says {message.endLsn}, payload ends at {batch.lastLsn}")
  else applyReceivedWalBatch C cfg batch

end WalReceiver

/-! ## Replication of a whole log -/

/-- Every message of the sender is given to the receiver, until there is none. -/
def replicateFrom (dir : List SegFile) : Nat → WalSender → WalReceiver → DbResult WalReceiver
  | 0, _, _ => .error (.internalMsg "replication has not caught up")
  | fuel + 1, s, rcv => do
    let (message, s) ← s.nextBatch C dir
    match message with
    | none => pure rcv
    | some message =>
      match WalReceiver.receiveMessage C cfg message rcv with
      | (.ok _, rcv) => replicateFrom dir fuel s rcv
      | (.error e, _) => .error e

/-- A log is sent from LSN 1 on to a receiver that has none. -/
def replicate (dir : List SegFile) : DbResult WalReceiver := do
  let rcv ← WalReceiver.openDir C cfg []
  replicateFrom C cfg dir (WalReader.totalBytes dir + 2) (.new 1 1 cfg.walCompression) rcv

/-! ## The log of the primary -/

inductive WalCall (R : Type) where
  | append (record : R)
  | appendBatch (records : List R)
  | flush
  | flushDurable

def WalCall.records : WalCall R → List R
  | .append record => [record]
  | .appendBatch records => records
  | .flush | .flushDurable => []

def WalCall.perform : WalCall R → Eff WalWriter DbError Unit
  | .append record => do
    let _ ← WalWriter.append cfg C record
  | .appendBatch records => do
    let prepared ← (records.mapM fun record =>
      prepareRecordWithCompression C record cfg.walCompression : DbResult (List PreparedWalRecord))
    let _ ← WalWriter.appendPreparedBatch cfg prepared
  | .flush => WalWriter.flush
  | .flushDurable => WalWriter.flushDurable

/-- The writer of a new log after the calls, all of which went well. -/
def writeLog (calls : List (WalCall R)) : DbResult WalWriter :=
  match (do calls.forM (WalCall.perform C cfg); WalWriter.flush : Eff WalWriter DbError Unit)
      (WalWriter.fresh cfg) with
  | (.ok _, w) => .ok w
  | (.error e, _) => .error e

end AionDb
