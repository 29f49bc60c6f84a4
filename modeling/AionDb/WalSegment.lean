import AionDb.WalCodec

/-!
# Segment files

The log is a sequence of segment files. A segment starts with a header that
names the format, how LSNs advance, and the cluster; the entries follow. A file
holds bytes of which a beginning is known to be on disk.
-/

namespace AionDb

/-! ## Headers -/

inductive LsnStepMode where
  | logical
  | byteOffset
deriving DecidableEq

def LsnStepMode.toByte : LsnStepMode → UInt8
  | .logical => 1
  | .byteOffset => 2

def LsnStepMode.fromByte : UInt8 → Option LsnStepMode
  | 1 => some .logical
  | 2 => some .byteOffset
  | _ => none

@[simp] theorem LsnStepMode.fromByte_toByte (mode : LsnStepMode) :
    fromByte mode.toByte = some mode := by
  cases mode <;> rfl

def LsnStepMode.stepBytes (entryBytes : Nat) : LsnStepMode → Nat
  | .logical => 1
  | .byteOffset => entryBytes

structure SegmentClusterIdentity where
  systemIdentifier : Option UInt64
  timelineId : Option UInt32

structure WalConfig where
  segmentMaxBytes : Nat
  walCompression : WalCompression
  walLsnMode : LsnStepMode
  /-- What the replication directory says; it does not change. -/
  identity : SegmentClusterIdentity

def segmentMagic : Bytes := [65, 73, 79, 78, 87, 65, 76, 49]

def legacySegmentMagic : Bytes := [65, 73, 79, 78, 87, 65, 76, 0]

def segmentHeaderSizeV1 : Nat := 9
def segmentHeaderSizeV2 : Nat := 10
def segmentHeaderSize : Nat := 22

def segmentHeaderBytes (mode : LsnStepMode) (identity : SegmentClusterIdentity) : Bytes :=
  segmentMagic ++ ([3, mode.toByte] ++
    (toLeBytes 8 (identity.systemIdentifier.getD 0).toNat ++
      toLeBytes 4 (identity.timelineId.getD 0).toNat))

def hasSegmentMagic (data : Bytes) : Bool :=
  8 ≤ data.length ∧ (data.take 8 = segmentMagic ∨ data.take 8 = legacySegmentMagic)

structure SegmentHeaderInfo where
  formatVersion : Option UInt8 := none
  entryOffset : Nat := 0
  lsnMode : Option LsnStepMode := none
  systemIdentifier : Option UInt64 := none
  timelineId : Option UInt32 := none

def headerV1 : SegmentHeaderInfo := { formatVersion := some 1, entryOffset := segmentHeaderSizeV1 }

def headerWithMode (data : Bytes) (rest : LsnStepMode → SegmentHeaderInfo) :
    DbResult SegmentHeaderInfo :=
  match LsnStepMode.fromByte (data.getD 9 0) with
  | none => .error (.internalMsg "WAL segment header contains an unknown LSN mode")
  | some mode => .ok (rest mode)

def headerV2 (data : Bytes) : DbResult SegmentHeaderInfo :=
  headerWithMode data fun mode =>
    { formatVersion := some 2, entryOffset := segmentHeaderSizeV2, lsnMode := some mode }

def headerV3 (data : Bytes) : DbResult SegmentHeaderInfo :=
  headerWithMode data fun mode =>
    { formatVersion := some 3, entryOffset := segmentHeaderSize, lsnMode := some mode
      systemIdentifier := some (.ofNat (fromLeBytes (slice data 10 8))) |>.filter (· ≠ 0)
      timelineId := some (.ofNat (fromLeBytes (slice data 18 4))) |>.filter (· ≠ 0) }

/-- `parse_segment_header`: what is shorter than a header but has the magic
bytes is refused; what does not have them is a segment without a header. -/
def parseSegmentHeader (data : Bytes) : DbResult SegmentHeaderInfo :=
  let version := data.getD 8 0
  if hasSegmentMagic data = false then .ok {}
  else if segmentHeaderSize ≤ data.length then
    match version with
    | 1 => .ok headerV1
    | 2 => headerV2 data
    | 3 => headerV3 data
    | _ => .error (.internalMsg
        s!"WAL segment format version {version.toNat} is not supported (expected 1, 2 or 3)")
  else if data.length < segmentHeaderSizeV1 then
    .error (.internalMsg "WAL segment header is truncated")
  else match version with
    | 1 => .ok headerV1
    | 2 =>
      if segmentHeaderSizeV2 ≤ data.length then headerV2 data
      else .error (.internalMsg "WAL segment header is truncated")
    | 3 => .error (.internalMsg "WAL segment header is truncated")
    | _ => .ok {}

def entryDataOffset (data : Bytes) : DbResult Nat :=
  (·.entryOffset) <$> parseSegmentHeader data

@[simp] theorem length_segmentHeaderBytes (mode : LsnStepMode) (identity : SegmentClusterIdentity) :
    (segmentHeaderBytes mode identity).length = segmentHeaderSize := by
  simp [segmentHeaderBytes, segmentMagic, segmentHeaderSize]

theorem parseSegmentHeader_append (mode : LsnStepMode) (identity : SegmentClusterIdentity)
    (rest : Bytes) :
    parseSegmentHeader (segmentHeaderBytes mode identity ++ rest) = .ok {
      formatVersion := some 3, entryOffset := segmentHeaderSize, lsnMode := some mode
      systemIdentifier := identity.systemIdentifier.filter (· ≠ 0)
      timelineId := identity.timelineId.filter (· ≠ 0) } := by
  have hmagic : hasSegmentMagic (segmentHeaderBytes mode identity ++ rest) = true := by
    simp [hasSegmentMagic, segmentHeaderBytes, segmentMagic]
  have hlen : segmentHeaderSize ≤ (segmentHeaderBytes mode identity ++ rest).length := by
    rw [List.length_append, length_segmentHeaderBytes]
    omega
  have hversion : (segmentHeaderBytes mode identity ++ rest).getD 8 0 = 3 := rfl
  have hmode : (segmentHeaderBytes mode identity ++ rest).getD 9 0 = mode.toByte := rfl
  have hsystem : UInt64.ofNat (fromLeBytes (slice (segmentHeaderBytes mode identity ++ rest) 10 8)) =
      identity.systemIdentifier.getD 0 := by
    have hslice : slice (segmentHeaderBytes mode identity ++ rest) 10 8 =
        toLeBytes 8 (identity.systemIdentifier.getD 0).toNat := by
      show ((toLeBytes 8 _ ++ toLeBytes 4 _) ++ rest).take 8 = _
      rw [List.append_assoc]
      exact List.take_left' (length_toLeBytes ..)
    rw [hslice, fromLeBytes_toLeBytes (lt_of_lt_of_le (UInt64.toNat_lt _) (by decide)),
      UInt64.ofNat_toNat]
  have htimeline : UInt32.ofNat (fromLeBytes (slice (segmentHeaderBytes mode identity ++ rest) 18 4)) =
      identity.timelineId.getD 0 := by
    have hslice : slice (segmentHeaderBytes mode identity ++ rest) 18 4 =
        toLeBytes 4 (identity.timelineId.getD 0).toNat := by
      show (((toLeBytes 8 (identity.systemIdentifier.getD 0).toNat ++ toLeBytes 4 _) ++ rest).drop 8).take 4 = _
      rw [List.append_assoc, List.drop_left' (length_toLeBytes ..)]
      exact List.take_left' (length_toLeBytes ..)
    rw [hslice, fromLeBytes_toLeBytes (lt_of_lt_of_le (UInt32.toNat_lt _) (by decide)),
      UInt32.ofNat_toNat]
  have hnonzero : ∀ {α : Type} [DecidableEq α] [Zero α] (o : Option α),
      (some (o.getD 0)).filter (· ≠ 0) = o.filter (· ≠ 0) := by
    intro α _ _ o
    cases o <;> simp
  simp only [parseSegmentHeader, hmagic, hlen, hversion, if_true, headerV3, headerWithMode, hmode,
    LsnStepMode.fromByte_toByte, hsystem, htimeline, Bool.true_eq_false, if_false]
  exact congrArg _ (by rw [← hnonzero identity.systemIdentifier, ← hnonzero identity.timelineId])

/-! ## Files -/

/-- A segment file: what is in it, and how much of that is known to be on disk. -/
structure SegFile where
  bytes : Bytes
  synced : Nat
  synced_le : synced ≤ bytes.length

namespace SegFile

def new : SegFile := ⟨[], 0, Nat.le_refl 0⟩

variable (f : SegFile)

def append (data : Bytes) : SegFile :=
  ⟨f.bytes ++ data, f.synced, by rw [List.length_append]; exact Nat.le_add_right_of_le f.synced_le⟩

/-- The first `n` bytes reach the disk, beside those that are there. -/
def sync (n : Nat) : SegFile :=
  ⟨f.bytes, max f.synced (min n f.bytes.length), Nat.max_le.mpr ⟨f.synced_le, Nat.min_le_right _ _⟩⟩

def syncAll : SegFile := f.sync f.bytes.length

def setLen (n : Nat) : SegFile :=
  ⟨f.bytes.take n ++ List.replicate (n - f.bytes.length) 0, n, by
    rw [List.length_append, List.length_take, List.length_replicate]; omega⟩

@[simp] theorem append_bytes (data : Bytes) : (f.append data).bytes = f.bytes ++ data := rfl

@[simp] theorem sync_bytes (n : Nat) : (f.sync n).bytes = f.bytes := rfl

theorem le_synced_sync (n : Nat) : f.synced ≤ (f.sync n).synced := Nat.le_max_left _ _

@[simp] theorem syncAll_bytes : f.syncAll.bytes = f.bytes := rfl

@[simp] theorem syncAll_synced : f.syncAll.synced = f.bytes.length := by
  have := f.synced_le
  show max f.synced (min f.bytes.length f.bytes.length) = _
  omega

end SegFile

end AionDb
