import AionDb.Core
import AionDb.LibEffect
import AionDb.LibFrames

/-!
# Entries of the log on disk

An entry stands in a segment file as its length, its LSN, a payload and a
checksum of the two. The payload is the encoded record as it is, or a framed
one that starts with a marker byte and carries the LSN of the entry before it,
the database and the compression.

How a record becomes bytes and how the two compression libraries work is a
parameter (`RecordCodec`); of them only that they invert themselves is used.
-/

namespace AionDb

open Effect List

abbrev Bytes := List UInt8

/-! ## Integers -/

def toLeBytes : Nat → Nat → Bytes
  | 0, _ => []
  | k + 1, v => UInt8.ofNat v :: toLeBytes k (v / 256)

def fromLeBytes : Bytes → Nat
  | [] => 0
  | b :: bs => b.toNat + 256 * fromLeBytes bs

@[simp] theorem length_toLeBytes (k v : Nat) : (toLeBytes k v).length = k := by
  induction k generalizing v with
  | zero => rfl
  | succ k ih => simp [toLeBytes, ih]

theorem fromLeBytes_toLeBytes {k v : Nat} (h : v < 256 ^ k) : fromLeBytes (toLeBytes k v) = v := by
  induction k generalizing v with
  | zero => simp only [Nat.pow_zero, Nat.lt_one_iff] at h; subst h; rfl
  | succ k ih =>
    have hdiv : v / 256 < 256 ^ k := Nat.div_lt_of_lt_mul (by rwa [Nat.pow_succ'] at h)
    simp only [toLeBytes, fromLeBytes, ih hdiv, UInt8.toNat_ofNat', Nat.reducePow]
    omega

def slice (data : Bytes) (i n : Nat) : Bytes := (data.drop i).take n

/-! ## Checksums -/

/-- One bit of the reversed Castagnoli polynomial. -/
def crc32cBit (crc : Nat) : Nat :=
  if crc &&& 1 ≠ 0 then (crc >>> 1) ^^^ 0x82f63b78 else crc >>> 1

def computeCrc32c (data : Bytes) : Nat :=
  0xffffffff ^^^ data.foldl (fun crc byte => crc32cBit^[8] (crc ^^^ byte.toNat)) 0xffffffff

/-- Entries of the first releases carry this one. -/
def computeLegacyFnv1a (data : Bytes) : Nat :=
  data.foldl (fun hash byte => (hash ^^^ byte.toNat) * 0x01000193 % 2 ^ 32) 0x811c9dc5

theorem crc32cBit_lt {crc : Nat} (h : crc < 2 ^ 32) : crc32cBit crc < 2 ^ 32 := by
  have hhalf : crc >>> 1 < 2 ^ 32 := by rw [Nat.shiftRight_eq_div_pow]; omega
  unfold crc32cBit
  split
  · exact Nat.xor_lt_two_pow hhalf (by decide)
  · exact hhalf

theorem computeCrc32c_lt (data : Bytes) : computeCrc32c data < 256 ^ 4 := by
  have hfold : ∀ (l : Bytes) (crc : Nat), crc < 2 ^ 32 →
      l.foldl (fun crc byte => crc32cBit^[8] (crc ^^^ byte.toNat)) crc < 2 ^ 32 := by
    intro l
    induction l with
    | nil => exact fun crc h => h
    | cons b l ih =>
      intro crc h
      have hb : b.toNat < 2 ^ 32 := lt_trans b.toNat_lt (by decide)
      have hbits : ∀ n x, x < 2 ^ 32 → crc32cBit^[n] x < 2 ^ 32 := by
        intro n
        induction n with
        | zero => exact fun x hx => hx
        | succ n ihn => exact fun x hx => ihn _ (crc32cBit_lt hx)
      exact ih _ (hbits 8 _ (Nat.xor_lt_two_pow h hb))
  exact Nat.xor_lt_two_pow (n := 32) (by decide) (hfold data _ (by decide))

/-! ## Records -/

structure Compressor where
  compress : Bytes → DbResult Bytes
  decompress : Bytes → Nat → DbResult Bytes
  decompress_compress : ∀ {p c}, compress p = .ok c → decompress c p.length = .ok p

def entryV2Marker : UInt8 := 0xFF

/-- `write_record_payload` and `read_record_payload`; a read takes the whole
payload. The first byte of a payload is the tag of the record. -/
structure RecordCodec (R : Type) where
  writeRecordPayload : R → DbResult Bytes
  readRecordPayload : Bytes → DbResult R
  lz4 : Compressor
  zstd : Compressor
  read_write : ∀ {r b}, writeRecordPayload r = .ok b → readRecordPayload b = .ok r
  tag_ne_marker : ∀ {r b}, writeRecordPayload r = .ok b → ∃ tag body,
    b = tag :: body ∧ tag ≠ entryV2Marker

inductive WalCompression where
  | none
  | lz4
  | zstd

/-- The database of an entry that does not say which. -/
def legacyDatabaseId : Nat := 1

structure WalEntry (R : Type) where
  lsn : Nat
  prevLsn : Nat
  databaseId : Nat
  record : R

structure PreparedWalRecord where
  payloadBytes : Bytes
  compressedPayload : Option Bytes
  compressionTag : UInt8

def entryCompressionNone : UInt8 := 0
def entryCompressionLz4 : UInt8 := 1
def entryCompressionZstd : UInt8 := 2

def compressionTag : WalCompression → UInt8
  | .none => entryCompressionNone
  | .lz4 => entryCompressionLz4
  | .zstd => entryCompressionZstd

def maxCompressedPayloadBytes : Nat := 64 * 1024 * 1024
def maxWalDecompressionRatio : Nat := 4096

variable {R : Type} (C : RecordCodec R)

/-! ## Encoding -/

/-- A compressed payload that does not save the bytes of its frame is dropped. -/
def compressRecordPayload (payload : Bytes) (compression : WalCompression) :
    DbResult (Option Bytes) := do
  let keep (compressed : Bytes) : Option Bytes :=
    if payload.length ≤ compressed.length + 7 then none else some compressed
  match compression with
  | .none => pure none
  | .lz4 => keep <$> C.lz4.compress payload
  | .zstd => keep <$> C.zstd.compress payload

def prepareRecordWithCompression (record : R) (compression : WalCompression) :
    DbResult PreparedWalRecord := do
  let payloadBytes ← C.writeRecordPayload record
  let compressedPayload ← compressRecordPayload C payloadBytes compression
  pure { payloadBytes, compressedPayload, compressionTag := compressionTag compression }

def writeEntryWithChecksum (lsn : Nat) (payload : Bytes) : DbResult Bytes :=
  let totalLen := 8 + payload.length + 4
  if u32Max < totalLen then
    .error (.internalMsg s!"WAL entry payload too large: {totalLen} bytes exceeds u32::MAX")
  else
    .ok (toLeBytes 4 totalLen ++ (toLeBytes 8 lsn ++ payload ++
      toLeBytes 4 (computeCrc32c (toLeBytes 8 lsn ++ payload))))

def encodeFramedPayloadV3 (originalPayload : Bytes) (tag : UInt8) (encodedPayload : Bytes)
    (prevLsn : Nat) (databaseId : Nat) : DbResult Bytes :=
  if u32Max < originalPayload.length then
    .error (.internalMsg s!"WAL payload too large: {originalPayload.length} bytes exceeds u32::MAX")
  else
    .ok (entryV2Marker :: 3 :: tag :: (toLeBytes 8 prevLsn ++ (toLeBytes 4 databaseId ++
      (toLeBytes 4 originalPayload.length ++ encodedPayload))))

def PreparedWalRecord.encoded (prepared : PreparedWalRecord) : UInt8 × Bytes :=
  match prepared.compressedPayload with
  | some payload =>
    if payload.length < prepared.payloadBytes.length then (prepared.compressionTag, payload)
    else (entryCompressionNone, prepared.payloadBytes)
  | none => (entryCompressionNone, prepared.payloadBytes)

def encodePreparedEntry (lsn prevLsn : Nat) (databaseId : Nat) (prepared : PreparedWalRecord) :
    DbResult Bytes :=
  if prevLsn ≠ 0 ∨ prepared.compressedPayload.isSome ∨ databaseId ≠ legacyDatabaseId then do
    let framed ← encodeFramedPayloadV3 prepared.payloadBytes prepared.encoded.1
      prepared.encoded.2 prevLsn databaseId
    writeEntryWithChecksum lsn framed
  else writeEntryWithChecksum lsn prepared.payloadBytes

def encodeEntryWithCompression (entry : WalEntry R) (compression : WalCompression) :
    DbResult Bytes := do
  let prepared ← prepareRecordWithCompression C entry.record compression
  encodePreparedEntry entry.lsn entry.prevLsn entry.databaseId prepared

/-! ## Decoding -/

def decodeUnframedRecord (lsn : Nat) (payload : Bytes) : DbResult (WalEntry R) := do
  let record ← C.readRecordPayload payload
  pure { lsn, prevLsn := 0, databaseId := legacyDatabaseId, record }

/-- What stands in front of the encoded record in a framed payload. -/
structure FramedHeader where
  compressionTag : UInt8
  prevLsn : Nat
  databaseId : Nat
  originalPayloadLen : Nat
  encodedPayload : Bytes

def parseFramedHeader (payload : Bytes) : DbResult FramedHeader :=
  let compressionTag := payload.getD 2 0
  match payload.getD 1 0 with
  | 1 => .ok {
      compressionTag, prevLsn := 0, databaseId := legacyDatabaseId
      originalPayloadLen := fromLeBytes (slice payload 3 4)
      encodedPayload := payload.drop 7 }
  | 2 =>
    if payload.length < 15 then .error (.internalMsg "WAL: v2 payload header is truncated")
    else .ok {
      compressionTag, prevLsn := fromLeBytes (slice payload 3 8)
      databaseId := legacyDatabaseId
      originalPayloadLen := fromLeBytes (slice payload 11 4)
      encodedPayload := payload.drop 15 }
  | 3 =>
    if payload.length < 19 then .error (.internalMsg "WAL: v3 payload header is truncated")
    else .ok {
      compressionTag, prevLsn := fromLeBytes (slice payload 3 8)
      databaseId := fromLeBytes (slice payload 11 4)
      originalPayloadLen := fromLeBytes (slice payload 15 4)
      encodedPayload := payload.drop 19 }
  | version => .error (.internalMsg s!"WAL: unsupported v2 payload format version {version.toNat}")

def decodePayload (h : FramedHeader) : DbResult Bytes :=
  match h.compressionTag with
  | 0 =>
    if h.encodedPayload.length ≠ h.originalPayloadLen then
      .error (.internalMsg
        s!"WAL: v2 payload length mismatch: expected {h.originalPayloadLen}, got {h.encodedPayload.length}")
    else .ok h.encodedPayload
  | 1 => C.lz4.decompress h.encodedPayload h.originalPayloadLen
  | 2 => C.zstd.decompress h.encodedPayload h.originalPayloadLen
  | tag => .error (.internalMsg s!"WAL: unsupported v2 compression tag {tag.toNat}")

/-- A small payload that claims to unpack to a very large one is refused. -/
def FramedHeader.overRatio (tag : UInt8) (encodedLen originalLen : Nat) : Bool :=
  0 < encodedLen ∧ maxWalDecompressionRatio < originalLen / encodedLen ∧
    tag ≠ entryCompressionNone ∧ encodedLen < 4096

def decodeFramedRecord (lsn : Nat) (h : FramedHeader) : DbResult (WalEntry R) :=
  if maxCompressedPayloadBytes < h.originalPayloadLen then
    .error (.internalMsg
      s!"WAL: v2 original payload length {h.originalPayloadLen} exceeds limit {maxCompressedPayloadBytes}")
  else if FramedHeader.overRatio h.compressionTag h.encodedPayload.length h.originalPayloadLen then
    .error (.internalMsg
      s!"WAL: v2 decompression ratio {h.encodedPayload.length} -> {h.originalPayloadLen} exceeds limit {maxWalDecompressionRatio}")
  else do
    let decoded ← decodePayload C h
    let entry ← decodeUnframedRecord C lsn decoded
    pure { entry with prevLsn := h.prevLsn, databaseId := h.databaseId }

def decodeV2Record (lsn : Nat) (payload : Bytes) : DbResult (WalEntry R) :=
  if payload.length < 7 then .error (.internalMsg "WAL: v2 payload header is truncated")
  else if payload.head? ≠ some entryV2Marker then
    .error (.internalMsg "WAL: invalid v2 payload marker")
  else parseFramedHeader payload >>= decodeFramedRecord C lsn

def decodeInner (inner : Bytes) : DbResult (WalEntry R) :=
  let region := inner.take (inner.length - 4)
  let stored := fromLeBytes (inner.drop (inner.length - 4))
  let lsn := fromLeBytes (region.take 8)
  if inner.length < 12 then .error (.internalMsg "WAL: entry too small")
  else if stored ≠ computeCrc32c region ∧ stored ≠ computeLegacyFnv1a region then
    .error (.internalMsg "WAL: checksum mismatch")
  else match region.drop 8 with
    | [] => .error (.internalMsg "WAL: empty entry payload")
    | marker :: rest =>
      if marker = entryV2Marker then decodeV2Record C lsn (marker :: rest)
      else decodeUnframedRecord C lsn (marker :: rest)

def decodeEntry (data : Bytes) : DbResult (WalEntry R × Nat) :=
  let payloadLen := fromLeBytes (data.take 4)
  if data.length < 4 then .error (.internalMsg "WAL: not enough data for header")
  else if data.length < 4 + payloadLen then .error (.internalMsg "WAL: truncated entry")
  else (·, 4 + payloadLen) <$> decodeInner C (slice data 4 payloadLen)

/-! ## What is written can be read -/

def entryBytes (lsn : Nat) (payload : Bytes) : Bytes :=
  toLeBytes 4 (8 + payload.length + 4) ++ (toLeBytes 8 lsn ++ payload ++
    toLeBytes 4 (computeCrc32c (toLeBytes 8 lsn ++ payload)))

variable {body bytes payload : Bytes} {databaseId lsn prevLsn : Nat} {tag : UInt8}

theorem writeEntryWithChecksum_eq_ok :
    writeEntryWithChecksum lsn payload = .ok bytes ↔
      8 + payload.length + 4 ≤ u32Max ∧ bytes = entryBytes lsn payload := by
  simp only [writeEntryWithChecksum]
  split
  · rename_i h
    simp only [reduceCtorEq, false_iff, not_and]
    intro hle
    omega
  · rename_i h
    simp only [Except.ok.injEq, entryBytes, not_lt] at h ⊢
    exact ⟨fun he => ⟨h, he.symm⟩, fun he => he.2.symm⟩

theorem length_entryBytes (lsn : Nat) (payload : Bytes) :
    (entryBytes lsn payload).length = 16 + payload.length := by
  simp only [entryBytes, length_append, length_toLeBytes]
  omega

theorem length_encodePreparedEntry_le {p : PreparedWalRecord} (h : encodePreparedEntry lsn prevLsn databaseId p = .ok bytes) :
    bytes.length ≤ 4 + u32Max := by
  have hwritten : ∃ payload, writeEntryWithChecksum lsn payload = .ok bytes := by
    unfold encodePreparedEntry at h
    split at h
    · obtain ⟨framed, -, hw⟩ := bind_eq_ok.mp h
      exact ⟨framed, hw⟩
    · exact ⟨_, h⟩
  obtain ⟨payload, hw⟩ := hwritten
  obtain ⟨hlen, rfl⟩ := writeEntryWithChecksum_eq_ok.mp hw
  rw [length_entryBytes]
  omega

theorem fromLeBytes_take_entryBytes (lsn : Nat) (rest : Bytes)
    (h : 8 + payload.length + 4 ≤ u32Max) :
    fromLeBytes ((entryBytes lsn payload ++ rest).take 4) = 8 + payload.length + 4 := by
  have hlt : 8 + payload.length + 4 < 256 ^ 4 := by simp only [u32Max] at h; omega
  rw [entryBytes, append_assoc, take_left' (length_toLeBytes ..), fromLeBytes_toLeBytes hlt]

theorem decodeInner_append (hlsn : lsn ≤ u64Max) :
    decodeInner C (toLeBytes 8 lsn ++ (tag :: body) ++
        toLeBytes 4 (computeCrc32c (toLeBytes 8 lsn ++ (tag :: body)))) =
      if tag = entryV2Marker then decodeV2Record C lsn (tag :: body)
      else decodeUnframedRecord C lsn (tag :: body) := by
  have hlsn' : fromLeBytes (toLeBytes 8 lsn) = lsn :=
    fromLeBytes_toLeBytes (by simp only [u64Max] at hlsn; omega)
  have hcrc := fromLeBytes_toLeBytes (computeCrc32c_lt (toLeBytes 8 lsn ++ (tag :: body)))
  have hlen : ∀ crc, (toLeBytes 8 lsn ++ (tag :: body) ++ toLeBytes 4 crc).length - 4 =
      (toLeBytes 8 lsn ++ (tag :: body)).length := by
    intro crc
    simp only [length_append, length_toLeBytes]
    omega
  have hmin : ∀ crc, ¬(toLeBytes 8 lsn ++ (tag :: body) ++ toLeBytes 4 crc).length < 12 := by
    intro crc
    simp only [length_append, length_toLeBytes]
    omega
  simp only [decodeInner, hlen, hmin, take_left, drop_left, hcrc, ne_eq,
    not_true_eq_false, false_and, if_false, take_left' (length_toLeBytes 8 lsn),
    drop_left' (length_toLeBytes 8 lsn), hlsn']

theorem decodeEntry_entryBytes (rest : Bytes) (hlsn : lsn ≤ u64Max)
    (hlen : 8 + (tag :: body).length + 4 ≤ u32Max) {entry : WalEntry R}
    (h : (if tag = entryV2Marker then decodeV2Record C lsn (tag :: body)
      else decodeUnframedRecord C lsn (tag :: body)) = .ok entry) :
    decodeEntry C (entryBytes lsn (tag :: body) ++ rest) =
      .ok (entry, (entryBytes lsn (tag :: body)).length) := by
  have htotal := fromLeBytes_take_entryBytes lsn rest hlen
  have hall := length_entryBytes lsn (tag :: body)
  have hinner : slice (entryBytes lsn (tag :: body) ++ rest) 4 (8 + (tag :: body).length + 4) =
      toLeBytes 8 lsn ++ (tag :: body) ++
        toLeBytes 4 (computeCrc32c (toLeBytes 8 lsn ++ (tag :: body))) := by
    rw [slice, entryBytes, append_assoc, drop_left' (length_toLeBytes ..)]
    exact take_left' (by simp only [length_append, length_toLeBytes])
  have hfour : ¬(entryBytes lsn (tag :: body) ++ rest).length < 4 := by
    rw [length_append, hall]; omega
  have hwhole : ¬(entryBytes lsn (tag :: body) ++ rest).length <
      (entryBytes lsn (tag :: body)).length := by
    rw [length_append]; omega
  have hsum : 4 + (8 + (tag :: body).length + 4) = (entryBytes lsn (tag :: body)).length := by
    rw [hall]; omega
  simp only [decodeEntry, htotal, hinner, hsum, hfour, hwhole, if_false,
    decodeInner_append C hlsn, h]
  rfl

theorem decodeEntry_torn {tail : Bytes} (hlen : 8 + payload.length + 4 ≤ u32Max)
    (htorn : Frames.Torn (entryBytes lsn payload) tail) :
    ∃ e, decodeEntry C tail = .error e := by
  obtain ⟨⟨more, hmore⟩, hlt⟩ := htorn
  by_cases hfour : tail.length < 4
  · exact ⟨.internalMsg "WAL: not enough data for header", by
      simp only [decodeEntry, hfour, if_true]⟩
  have htotal := fromLeBytes_take_entryBytes lsn [] hlen
  rw [append_nil, ← hmore, take_append_of_le_length (by omega)] at htotal
  rw [length_entryBytes] at hlt
  refine ⟨.internalMsg "WAL: truncated entry", ?_⟩
  have hshort : tail.length < 4 + (8 + payload.length + 4) := by omega
  simp only [decodeEntry, htotal, hfour, hshort, if_false, if_true]

/-- The record comes back out of its frame: it is not over the limits the reader
sets and the writer does not. -/
def PreparedWalRecord.ReadBack (p : PreparedWalRecord) : Prop :=
  p.payloadBytes.length ≤ maxCompressedPayloadBytes ∧
    FramedHeader.overRatio p.encoded.1 p.encoded.2.length p.payloadBytes.length = false

/-- What `prepare_record_with_compression` leaves of a record. -/
structure PreparedWalRecord.Of (p : PreparedWalRecord) (record : R) : Prop where
  payload : C.writeRecordPayload record = .ok p.payloadBytes
  compressed : ∀ c ∈ p.compressedPayload,
    p.compressionTag = entryCompressionLz4 ∧ C.lz4.compress p.payloadBytes = .ok c ∨
      p.compressionTag = entryCompressionZstd ∧ C.zstd.compress p.payloadBytes = .ok c

theorem prepareRecordWithCompression_of {record : R} {compression : WalCompression}
    {p : PreparedWalRecord} (h : prepareRecordWithCompression C record compression = .ok p) :
    p.Of C record := by
  obtain ⟨payload, hpayload, h⟩ := bind_eq_ok.mp h
  obtain ⟨compressed, hcompressed, h⟩ := bind_eq_ok.mp h
  cases h
  refine ⟨hpayload, fun c hc => ?_⟩
  cases compression with
  | none => cases hcompressed; cases hc
  | lz4 =>
    refine .inl ⟨rfl, ?_⟩
    cases hz : C.lz4.compress payload <;> simp_all [compressRecordPayload]
  | zstd =>
    refine .inr ⟨rfl, ?_⟩
    cases hz : C.zstd.compress payload <;> simp_all [compressRecordPayload]

variable {C} {record : R} {p : PreparedWalRecord}

theorem decodePayload_encoded (hp : p.Of C record) {h : FramedHeader}
    (htag : h.compressionTag = p.encoded.1) (henc : h.encodedPayload = p.encoded.2)
    (hlen : h.originalPayloadLen = p.payloadBytes.length) :
    decodePayload C h = .ok p.payloadBytes := by
  have hplain : ∀ {h : FramedHeader}, h.compressionTag = entryCompressionNone →
      h.encodedPayload = p.payloadBytes → h.originalPayloadLen = p.payloadBytes.length →
        decodePayload C h = .ok p.payloadBytes := by
    intro h htag henc hlen
    simp [decodePayload, htag, henc, hlen, entryCompressionNone]
  cases hc : p.compressedPayload with
  | none =>
    simp only [PreparedWalRecord.encoded, hc] at htag henc
    exact hplain htag henc hlen
  | some c =>
    simp only [PreparedWalRecord.encoded, hc] at htag henc
    by_cases hlt : c.length < p.payloadBytes.length
    · rw [if_pos hlt] at htag henc
      rcases hp.compressed c hc with ⟨ht, hz⟩ | ⟨ht, hz⟩
      · simpa [decodePayload, htag, ht, henc, hlen, entryCompressionLz4] using
          C.lz4.decompress_compress hz
      · simpa [decodePayload, htag, ht, henc, hlen, entryCompressionZstd] using
          C.zstd.decompress_compress hz
    · rw [if_neg hlt] at htag henc
      exact hplain htag henc hlen

def framedPayload (p : PreparedWalRecord) (prevLsn databaseId : Nat) : Bytes :=
  entryV2Marker :: 3 :: p.encoded.1 :: (toLeBytes 8 prevLsn ++ (toLeBytes 4 databaseId ++
    (toLeBytes 4 p.payloadBytes.length ++ p.encoded.2)))

theorem parseFramedHeader_framedPayload (hprev : prevLsn ≤ u64Max) (hdb : databaseId ≤ u32Max)
    (hlen : p.payloadBytes.length ≤ u32Max) :
    parseFramedHeader (framedPayload p prevLsn databaseId) = .ok {
      compressionTag := p.encoded.1, prevLsn, databaseId
      originalPayloadLen := p.payloadBytes.length, encodedPayload := p.encoded.2 } := by
  have hprev' := fromLeBytes_toLeBytes (k := 8) (v := prevLsn) (by simp only [u64Max] at hprev; omega)
  have hdb' := fromLeBytes_toLeBytes (k := 4) (v := databaseId) (by simp only [u32Max] at hdb; omega)
  have hlen' := fromLeBytes_toLeBytes (k := 4) (v := p.payloadBytes.length)
    (by simp only [u32Max] at hlen; omega)
  have hmin : ¬(framedPayload p prevLsn databaseId).length < 19 := by
    simp only [framedPayload, length_cons, length_append, length_toLeBytes]
    omega
  have hdrop : ∀ {n m : Nat} {a b : Bytes}, a.length = n → (a ++ b).drop (n + m) = b.drop m := by
    rintro n m a b rfl
    rw [drop_append, drop_eq_nil_of_le (by omega), nil_append, Nat.add_sub_cancel_left]
  have hslice : slice (framedPayload p prevLsn databaseId) 3 8 = toLeBytes 8 prevLsn :=
    take_left' (length_toLeBytes ..)
  have hslice' : slice (framedPayload p prevLsn databaseId) 11 4 = toLeBytes 4 databaseId := by
    show ((toLeBytes 8 prevLsn ++ _).drop (8 + 0)).take 4 = _
    rw [hdrop (length_toLeBytes ..)]
    exact take_left' (length_toLeBytes ..)
  have hslice'' : slice (framedPayload p prevLsn databaseId) 15 4 =
      toLeBytes 4 p.payloadBytes.length := by
    show ((toLeBytes 8 prevLsn ++ _).drop (8 + (4 + 0))).take 4 = _
    rw [hdrop (length_toLeBytes ..), hdrop (length_toLeBytes ..)]
    exact take_left' (length_toLeBytes ..)
  have hrest : (framedPayload p prevLsn databaseId).drop 19 = p.encoded.2 := by
    show (toLeBytes 8 prevLsn ++ _).drop (8 + (4 + (4 + 0))) = _
    rw [hdrop (length_toLeBytes ..), hdrop (length_toLeBytes ..), hdrop (length_toLeBytes ..)]
    rfl
  have hversion : (framedPayload p prevLsn databaseId).getD 1 0 = 3 := rfl
  have htag : (framedPayload p prevLsn databaseId).getD 2 0 = p.encoded.1 := rfl
  simp only [parseFramedHeader, hversion, htag, hmin, if_false, hslice, hslice', hslice'', hrest,
    hprev', hdb', hlen']

theorem decodeV2Record_framedPayload (lsn : Nat) (hp : p.Of C record) (hread : p.ReadBack)
    (hprev : prevLsn ≤ u64Max) (hdb : databaseId ≤ u32Max) :
    decodeV2Record C lsn (framedPayload p prevLsn databaseId) =
      .ok { lsn, prevLsn, databaseId, record } := by
  have hlen : p.payloadBytes.length ≤ u32Max := le_trans hread.1 (by decide)
  have hmin : ¬(framedPayload p prevLsn databaseId).length < 7 := by
    simp only [framedPayload, length_cons, length_append, length_toLeBytes]
    omega
  have hhead : (framedPayload p prevLsn databaseId).head? = some entryV2Marker := rfl
  have hdecoded := decodePayload_encoded (h := {
      compressionTag := p.encoded.1, prevLsn, databaseId
      originalPayloadLen := p.payloadBytes.length, encodedPayload := p.encoded.2 }) hp rfl rfl rfl
  have hrecord := C.read_write hp.payload
  have hlimit : ¬maxCompressedPayloadBytes < p.payloadBytes.length := not_lt.mpr hread.1
  simp only [decodeV2Record, hmin, hhead, parseFramedHeader_framedPayload hprev hdb hlen, if_false,
    ne_eq, not_true_eq_false]
  show decodeFramedRecord C lsn _ = _
  simp only [decodeFramedRecord, hlimit, hread.2, hdecoded, if_false, Bool.false_eq_true]
  show (do
    let entry ← decodeUnframedRecord C lsn p.payloadBytes
    pure { entry with prevLsn, databaseId }) = _
  rw [decodeUnframedRecord, hrecord]
  rfl

theorem encodePreparedEntry_eq_ok (hp : p.Of C record) (hread : p.ReadBack) (hlsn : lsn ≤ u64Max)
    (hprev : prevLsn ≤ u64Max) (hdb : databaseId ≤ u32Max)
    (h : encodePreparedEntry lsn prevLsn databaseId p = .ok bytes) :
    (∀ rest, decodeEntry C (bytes ++ rest) =
      .ok ({ lsn, prevLsn, databaseId, record }, bytes.length)) ∧
    (∀ tail, Frames.Torn bytes tail → ∃ e, decodeEntry C tail = .error e) ∧
    16 ≤ bytes.length := by
  unfold encodePreparedEntry at h
  by_cases hframed : prevLsn ≠ 0 ∨ p.compressedPayload.isSome ∨ databaseId ≠ legacyDatabaseId
  · rw [if_pos hframed] at h
    obtain ⟨framed, hf, hw⟩ := bind_eq_ok.mp h
    obtain ⟨hlen, rfl⟩ := writeEntryWithChecksum_eq_ok.mp hw
    have hpay : framed = framedPayload p prevLsn databaseId := by
      unfold encodeFramedPayloadV3 at hf
      split at hf
      · cases hf
      · exact (Except.ok.inj hf).symm
    subst hpay
    have hdecode := decodeV2Record_framedPayload lsn hp hread hprev hdb
    refine ⟨fun rest => decodeEntry_entryBytes C rest hlsn hlen (by rw [if_pos rfl]; exact hdecode),
      fun tail => decodeEntry_torn C hlen, ?_⟩
    rw [length_entryBytes]; omega
  · rw [if_neg hframed] at h
    obtain ⟨hlen, rfl⟩ := writeEntryWithChecksum_eq_ok.mp h
    obtain ⟨tag, body, htag, hne⟩ := C.tag_ne_marker hp.payload
    simp only [not_or, not_not] at hframed
    refine ⟨fun rest => ?_, fun tail => decodeEntry_torn C hlen, ?_⟩
    · have hrecord := C.read_write hp.payload
      rw [htag] at hrecord hlen ⊢
      refine decodeEntry_entryBytes C rest hlsn hlen ?_
      rw [if_neg hne, decodeUnframedRecord, hrecord, hframed.1, hframed.2.2]
      rfl
    · rw [length_entryBytes]; omega

end AionDb
