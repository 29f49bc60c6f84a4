import AionDb.Core
import AionDb.LibEffect
import Mathlib.Data.List.MinMax
import Mathlib.Data.List.Sort

/-!
# The checkpoint store of the LSM backend

`layout.rs`: a checkpoint is an SSTable in the directory of level 0 that holds
the snapshot in numbered chunks; the manifest names the runs that count; when
four runs have gathered in level 0 they are merged with the run of level 1.

An SSTable is its checkpoint entry and its chunks, in key order. The chunk keys
of a run go up from 0 without a gap, so the chunks are a list. A file appears
under its name in one step, because it is written under a temporary name and
renamed; temporary files and the runs of the older JSON format are left out.

The process may die before any file operation: `budget` is the number of
operations that still go through.
-/

namespace AionDb

open Std (ExtTreeMap)
open Effect

abbrev SnapshotBytes := List UInt8

structure CheckpointInfo where
  checkpointLsn : Nat
  dirtyPagesFlushed : Nat
deriving DecidableEq

structure LsmRun where
  checkpoint : CheckpointInfo
  chunks : List SnapshotBytes

structure LsmRunManifestEntry where
  id : Nat
  level : Nat
  checkpoint : CheckpointInfo
deriving DecidableEq

structure LsmManifest where
  nextSstableId : Nat
  lastCheckpointLsn : Option Nat
  levelZeroRuns : List LsmRunManifestEntry
  levelOneRuns : List LsmRunManifestEntry

def LsmManifest.runs (m : LsmManifest) : List LsmRunManifestEntry :=
  m.levelZeroRuns ++ m.levelOneRuns

structure LsmStore where
  levelZero : ExtTreeMap Nat LsmRun := ∅
  levelOne : ExtTreeMap Nat LsmRun := ∅
  manifest : Option LsmManifest := none
  budget : Option Nat := none
  crashed : Bool := false
  alive : Bool := false
  /-- Ghost: the snapshot of the first run that was completely written. -/
  firstRun : Option SnapshotBytes := none
  /-- Ghost: the snapshot of the last checkpoint whose manifest was published. -/
  published : Option SnapshotBytes := none

abbrev LsmEff := Eff LsmStore DbError

def fileOp (f : LsmStore → LsmStore) : LsmEff Unit := do
  match (← get).budget with
  | some 0 =>
    modify fun s => { s with crashed := true }
    throw (.internalMsg "the process died")
  | some (n + 1) => modify fun s => { f s with budget := some n }
  | none => modify f

/-- `if let Err(error) = … { warn!(…) }`: what was done stays, the error is dropped. -/
def orWarn (m : LsmEff Unit) : LsmEff Unit := fun s => (.ok (), (m s).2)

/-! ## SSTables -/

def maxSstableBlockCount : Nat := 1000000
def maxSstableValueBytes : Nat := 16 * 1024 * 1024

/-- The sizes of the entries of a run: two length fields, the key (`checkpoint`, or `snapshot/` with
twenty digits) and the value. -/
def LsmRun.entrySizes (run : LsmRun) : List Nat :=
  (2 + 10 + 4 + 16) :: run.chunks.map fun chunk => 2 + 29 + 4 + chunk.length

/-- `SSTableWriter::add` and `flush_block`: the blocks after the entries, when the current block
holds `current` bytes. -/
def blockCount (blockSize : Nat) : Nat → List Nat → Nat
  | current, [] => if current = 0 then 0 else 1
  | current, size :: sizes =>
    if blockSize ≤ current + size then 1 + blockCount blockSize 0 sizes
    else blockCount blockSize (current + size) sizes

def readRun (blockSize : Nat) (run : LsmRun) : DbResult LsmRun :=
  let blocks := blockCount blockSize 0 run.entrySizes
  if maxSstableBlockCount < blocks then
    .error (.internalMsg s!"sstable block_count {blocks} exceeds limit {maxSstableBlockCount}")
  else .ok run

def sliceChunks (n : Nat) : Nat → SnapshotBytes → List SnapshotBytes
  | 0, _ => []
  | _ + 1, [] => []
  | fuel + 1, b :: bs => (b :: bs).take n :: sliceChunks n fuel ((b :: bs).drop n)

def checkpointRun (blockSize : Nat) (checkpoint : CheckpointInfo) (bytes : SnapshotBytes) :
    LsmRun :=
  ⟨checkpoint, if bytes.isEmpty then [[]] else sliceChunks (max blockSize 1) bytes.length bytes⟩

def publishSstableAtomically (level id : Nat) (run : LsmRun)
    (note : LsmStore → LsmStore) : LsmEff Unit := do
  let s ← get
  if (if level = 0 then s.levelZero else s.levelOne).contains id then
    throw (.internalMsg s!"refusing to overwrite existing lsm run {id}")
  if run.chunks.any fun chunk => maxSstableValueBytes < chunk.length then
    throw (.internalMsg "sstable value too large")
  fileOp fun s => note
    (if level = 0 then { s with levelZero := s.levelZero.insert id run }
     else { s with levelOne := s.levelOne.insert id run })

/-! ## The manifest -/

section

variable (blockSize : Nat)

def discoverRunsInLevel (files : ExtTreeMap Nat LsmRun) (level : Nat) :
    DbResult (List LsmRunManifestEntry) :=
  files.toList.reverse.mapM fun file => do
    let run ← readRun blockSize file.2
    return ⟨file.1, level, run.checkpoint⟩

def sortByIdDesc (runs : List LsmRunManifestEntry) : List LsmRunManifestEntry :=
  runs.insertionSort fun a b => b.id ≤ a.id

def discoveredNextSstableId (runs : List LsmRunManifestEntry) : Nat :=
  ((runs.map (·.id)).max?.bind (checkedAdd · 1)).getD 1

def newestRunEntry (m : LsmManifest) : Option LsmRunManifestEntry :=
  m.runs.argmax (·.id)

/-- The end of `canonicalize_discovered_lsm_manifest` and `canonicalize_existing_lsm_manifest`. -/
def canonicalize (m : LsmManifest) (discovered : List LsmRunManifestEntry) : LsmManifest :=
  let m := { m with
    levelZeroRuns := sortByIdDesc m.levelZeroRuns
    levelOneRuns := sortByIdDesc m.levelOneRuns
    nextSstableId := max (max m.nextSstableId (discoveredNextSstableId discovered)) 1 }
  { m with
    lastCheckpointLsn :=
      m.lastCheckpointLsn.or ((newestRunEntry m).map (·.checkpoint.checkpointLsn)) }

def LsmStore.file (s : LsmStore) (entry : LsmRunManifestEntry) : Option LsmRun :=
  if entry.level = 0 then s.levelZero[entry.id]? else s.levelOne[entry.id]?

def defaultLsmManifest : LsmManifest := ⟨1, none, [], []⟩

def LsmManifest.isBlank (m : LsmManifest) : Bool :=
  m.levelZeroRuns.isEmpty && m.levelOneRuns.isEmpty && m.lastCheckpointLsn.isNone

def loadCanonicalLsmManifest (s : LsmStore) : DbResult LsmManifest := do
  let discoveredZero ← discoverRunsInLevel blockSize s.levelZero 0
  let discoveredOne ← discoverRunsInLevel blockSize s.levelOne 1
  let m := s.manifest.getD defaultLsmManifest
  if m.isBlank then
    return canonicalize { m with levelZeroRuns := discoveredZero, levelOneRuns := discoveredOne }
      (discoveredZero ++ discoveredOne)
  else if m.runs.all fun run => (s.file run).isSome then
    return canonicalize m (discoveredZero ++ discoveredOne)
  else throw (.internalMsg "lsm manifest references missing run")

def writeLsmManifest (m : LsmManifest) (note : LsmStore → LsmStore) : LsmEff Unit :=
  fileOp fun s => note { s with manifest := some m }

def cleanupUnreferencedRuns (m : LsmManifest) : LsmEff Unit := do
  let s ← get
  (s.levelZero.keys.filter fun id => !m.runs.any fun run => run.level = 0 ∧ run.id = id).forM
    fun id => fileOp fun s => { s with levelZero := s.levelZero.erase id }
  (s.levelOne.keys.filter fun id => !m.runs.any fun run => run.level = 1 ∧ run.id = id).forM
    fun id => fileOp fun s => { s with levelOne := s.levelOne.erase id }

/-! ## Compaction -/

def lsmLevelZeroCompactionThreshold : Nat := 4

/-- `merged_entries.entry(key).or_insert(value)` for every chunk: the keys that are there keep their
values. -/
def orInsertChunks (merged chunks : List SnapshotBytes) : List SnapshotBytes :=
  merged ++ chunks.drop merged.length

def readRunEntries (s : LsmStore) (entry : LsmRunManifestEntry) : DbResult LsmRun :=
  match s.file entry with
  | some run => readRun blockSize run
  | none => .error (.internalMsg "sstable open")

def compactLevelZeroRuns (m : LsmManifest) : LsmEff LsmManifest := do
  match m.levelZeroRuns with
  | [] => return m
  | newest :: older =>
    if m.levelZeroRuns.length < lsmLevelZeroCompactionThreshold then return m
    let s ← get
    let newestRun ← (readRunEntries blockSize s newest : DbResult LsmRun)
    let olderRuns ← ((older ++ m.levelOneRuns).mapM (readRunEntries blockSize s) :
      DbResult (List LsmRun))
    let chunks := olderRuns.foldl (fun merged run => orInsertChunks merged run.chunks)
      newestRun.chunks
    publishSstableAtomically 1 m.nextSstableId ⟨newestRun.checkpoint, chunks⟩ id
    let next ← ((checkedAdd m.nextSstableId 1).elim
      (.error (.internalMsg "lsm next_sstable_id overflowed u64")) .ok : DbResult Nat)
    return ⟨next, some newest.checkpoint.checkpointLsn, [],
      [⟨m.nextSstableId, 1, newest.checkpoint⟩]⟩

/-! ## The interface -/

def recordLsmCheckpoint (checkpoint : CheckpointInfo) (bytes : SnapshotBytes) : LsmEff Unit := do
  let s ← get
  let m ← (loadCanonicalLsmManifest blockSize s : DbResult LsmManifest)
  let runId := m.nextSstableId
  publishSstableAtomically 0 runId (checkpointRun blockSize checkpoint bytes) fun s =>
    { s with firstRun := s.firstRun.or (some bytes) }
  let next ← ((checkedAdd runId 1).elim
    (.error (.internalMsg "lsm next_sstable_id overflowed u64")) .ok : DbResult Nat)
  let m ← compactLevelZeroRuns blockSize { m with
    levelZeroRuns := sortByIdDesc (⟨runId, 0, checkpoint⟩ :: m.levelZeroRuns)
    nextSstableId := next }
  let m := { m with lastCheckpointLsn := some checkpoint.checkpointLsn }
  writeLsmManifest m fun s => { s with published := some bytes }
  orWarn (cleanupUnreferencedRuns m)

def prepareLsmLayout : LsmEff Unit := do
  let s ← get
  let m ← (loadCanonicalLsmManifest blockSize s : DbResult LsmManifest)
  writeLsmManifest m id
  orWarn (cleanupUnreferencedRuns m)

def readRunSnapshotBytes (s : LsmStore) (entry : LsmRunManifestEntry) :
    DbResult (Option SnapshotBytes) := do
  let run ← readRunEntries blockSize s entry
  return if run.chunks.isEmpty then none else some run.chunks.flatten

def latestSnapshotBytes (s : LsmStore) : DbResult (Option SnapshotBytes) := do
  let m ← loadCanonicalLsmManifest blockSize s
  match newestRunEntry m with
  | none => return none
  | some run => readRunSnapshotBytes blockSize s run

/-! ## Calls and crashes -/

/-- A call on the store; with a budget, the process dies after that many file operations. -/
inductive LsmAction where
  | prepare (budget : Option Nat)
  | record (checkpoint : CheckpointInfo) (bytes : SnapshotBytes) (budget : Option Nat)

/-- One call. Checkpoints are recorded on a prepared layout only. -/
def LsmStore.step (s : LsmStore) : LsmAction → Option LsmStore
  | .prepare budget =>
    let (result, s') := prepareLsmLayout blockSize { s with budget, crashed := false }
    some { s' with alive := result.isOk && !s'.crashed }
  | .record checkpoint bytes budget =>
    if s.alive then
      let (_, s') := recordLsmCheckpoint blockSize checkpoint bytes
        { s with budget, crashed := false }
      some { s' with alive := !s'.crashed }
    else none

end

end AionDb
