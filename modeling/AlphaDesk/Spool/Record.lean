import AlphaDesk.Foundation.Framing
import AlphaDesk.Spool.Observation

/-! # Records and headers of a spool segment

A segment starts with a header that names its source, its sequence number and the
policy of its cursors. An observation is written as a record: its length, a checksum
and a body of fields, all numbers little-endian. Headers and records that were written
are read back as what they hold, wherever they stand in their segment.
-/

namespace AlphaDesk

open Bytes List

variable {value : String}

inductive SpoolError
  | invalidHeader
  | incompleteHeader
  | corruptRecord (recordOffset : ℕ)
  | incompleteTail (recordOffset : ℕ)
  | sourceMismatch
  | unsupportedWarnings
  | cursorRegression
  | cursorConflict
  | cursorPolicyMismatch
  | invalidDurabilityPolicy
  | invalidTimestamp
  | emptySegment
  | invalidManifest
  | manifestAlreadyExists
  | manifestSegmentMissing
  | manifestChainBroken
  | manifestContentMismatch
  | segmentSizeMismatch
  | segmentHashMismatch
  | unexpectedOpenSegment
  | segmentClosed
  | closedSegment
  | segmentAlreadyExists
  | sizeOverflow
  deriving DecidableEq

namespace Spool

def maxIdentityBytes : ℕ := 256

def maxHeaderBytes : ℕ := 4096

def maxPayloadBytes : ℕ := 256 * 1024 * 1024

def maxRecordBytes : ℕ := maxPayloadBytes + 4096

def crcBytes : ℕ := 4

def minBodyBytes : ℕ := 2 + 1 + 8 + 1 + 8 + 8 + 2 + 1 + 4 + 1 + 32

def validText (value : String) : Bool := validBoundedText maxIdentityBytes value

/-- The checksum and the hash that the records of a spool carry. -/
structure Digests where
  crc32c : List UInt8 → UInt32
  blake3 : Blake3

end Spool

structure SpoolRecord where
  cursor : SourceCursor
  observationClass : ObservationClass
  received : ReceiveTimestamps
  parserSchemaVersion : String
  payload : List UInt8
  contentHash : Hash32

def SourceObservation.record (B : Blake3) (o : SourceObservation) : SpoolRecord :=
  ⟨o.cursor, o.observationClass, o.received, o.parserSchemaVersion, o.payload, o.contentHash B⟩

namespace Spool

def classToU8 : ObservationClass → UInt8
  | .committedBlock => 1
  | .auxiliaryOrderStatus => 2
  | .auxiliaryBookDiff => 3
  | .auxiliaryLedger => 4
  | .snapshot => 5
  | .historicalBlock => 6
  | .publicMarketData => 7
  | .provisionalFeed => 8
  | .provisionalMempool => 9

def pushText (value : String) : Except SpoolError (List UInt8) :=
  if validText value = false then .error .sizeOverflow
  else if 2 ^ 16 ≤ (utf8 value).length then .error .sizeOverflow
  else .ok (leBytes 2 (utf8 value).length ++ utf8 value)

def pushU32 (value : ℕ) : Except SpoolError (List UInt8) :=
  if 2 ^ 32 ≤ value then .error .sizeOverflow else .ok (leBytes 4 value)

/-- The size that is checked counts one byte more than is written for each of the texts and for
the payload. -/
def validateRecord (o : SourceObservation) : Except SpoolError ℕ :=
  if o.warnings ≠ [] then .error .unsupportedWarnings
  else if validText o.cursor.epoch = false ∨ validText o.parserSchemaVersion = false ∨
      maxPayloadBytes < o.payload.length then
    .error .sizeOverflow
  else
    let bodyLen := minBodyBytes + (utf8 o.cursor.epoch).length +
      (utf8 o.parserSchemaVersion).length + o.payload.length
    if maxRecordBytes < crcBytes + bodyLen then .error .sizeOverflow else .ok bodyLen

def encodeRecord (D : Digests) (o : SourceObservation) : Except SpoolError (List UInt8) := do
  let _ ← validateRecord o
  let epoch ← pushText o.cursor.epoch
  let schema ← pushText o.parserSchemaVersion
  let payloadLen ← pushU32 o.payload.length
  let body := epoch ++ leBytes 8 o.cursor.offset.toNat ++ [classToU8 o.observationClass] ++
    leBytes 8 o.received.wallMicros ++ leBytes 8 o.received.monotonicNanos.toNat ++ schema ++
    payloadLen ++ o.payload ++ (o.contentHash D.blake3).toList
  let recordLen ← pushU32 (crcBytes + body.length)
  return recordLen ++ leBytes 4 (D.crc32c body).toNat ++ body

section Decode

open ByteReader

abbrev RecordReader (α : Type) := ByteReader SpoolError α

def classFromU8 (value : UInt8) : Option ObservationClass :=
  if value = 1 then some .committedBlock
  else if value = 2 then some .auxiliaryOrderStatus
  else if value = 3 then some .auxiliaryBookDiff
  else if value = 4 then some .auxiliaryLedger
  else if value = 5 then some .snapshot
  else if value = 6 then some .historicalBlock
  else if value = 7 then some .publicMarketData
  else if value = 8 then some .provisionalFeed
  else if value = 9 then some .provisionalMempool
  else none

def parseText (e : SpoolError) (valid : String → Bool) (bytes : List UInt8) :
    Except SpoolError String := do
  let value ← Except.ofOption e (fromUtf8 bytes)
  if valid value = false then throw e else return value

/-- A text behind its length, which is an unsigned 16-bit number. -/
def readText (e missing : SpoolError) (valid : String → Bool) : RecordReader String := do
  let length ← littleEndian missing 2
  if length = 0 ∨ maxIdentityBytes < length then throw e
  else do
    let bytes ← take missing length
    liftM (parseText e valid bytes)

def recordText (value : String) : Bool := trim value == value && !value.toList.any isControl

def readU64 (e : SpoolError) : RecordReader UInt64 := do
  let value ← littleEndian e 8
  return UInt64.ofNat value

def readClass (e : SpoolError) : RecordReader ObservationClass := do
  let tag ← byte e
  liftM (Except.ofOption e (classFromU8 tag))

def readPayload (e : SpoolError) : RecordReader (List UInt8) := do
  let length ← littleEndian e 4
  if length = 0 ∨ maxPayloadBytes < length then throw e else take e length

def readCursor (e : SpoolError) : RecordReader SourceCursor := do
  let epoch ← readText e e recordText
  let offset ← readU64 e
  liftM ((SourceCursor.new epoch offset).mapError fun _ => e)

def readReceived (e : SpoolError) : RecordReader ReceiveTimestamps := do
  let wall ← littleEndian e 8
  let monotonic ← readU64 e
  liftM ((ReceiveTimestamps.new (twosComplement 64 wall) monotonic).mapError fun _ => e)

/-- The fields of a record. All failures are the same error, so that the checks of a field may
follow its bytes at once. -/
def readBody (B : Blake3) (e : SpoolError) : RecordReader SpoolRecord := do
  let cursor ← readCursor e
  let observationClass ← readClass e
  let received ← readReceived e
  let parserSchemaVersion ← readText e e recordText
  let payload ← readPayload e
  let contentHash ← hash32 e
  if B.hash payload ≠ contentHash then throw e
  else return ⟨cursor, observationClass, received, parserSchemaVersion, payload, contentHash⟩

def decodeRecord (D : Digests) (framed : List UInt8) (recordOffset : ℕ) :
    Except SpoolError SpoolRecord :=
  if framed.length < crcBytes + minBodyBytes ∨ maxRecordBytes < framed.length then
    .error (.corruptRecord recordOffset)
  else if (D.crc32c (framed.drop 4)).toNat ≠ leNat (framed.take 4) then
    .error (.corruptRecord recordOffset)
  else complete (.corruptRecord recordOffset)
    (readBody D.blake3 (.corruptRecord recordOffset)) (framed.drop 4)

/-- What the reader finds at an offset, given the bytes from there to the end of the file. -/
def nextRecord (D : Digests) (recordOffset : ℕ) (bytes : List UInt8) :
    Except SpoolError (Front SpoolRecord) :=
  if bytes = [] then .ok .ended
  else if bytes.length < 4 then .ok .torn
  else
    let recordLen := leNat (bytes.take 4)
    if recordLen < 4 ∨ maxRecordBytes < recordLen then .error (.corruptRecord recordOffset)
    else if bytes.length < 4 + recordLen then .ok .torn
    else do
      let record ← decodeRecord D ((bytes.drop 4).take recordLen) recordOffset
      return .item record (4 + recordLen)

end Decode

section RoundTrip

open ByteReader

variable {D : Digests} {o : SourceObservation}

/-- The observations that a spool can keep. -/
def Recordable (o : SourceObservation) : Prop := ∃ bodyLen, validateRecord o = .ok bodyLen

def textBytes (value : String) : List UInt8 := leBytes 2 (utf8 value).length ++ utf8 value

def recordBody (B : Blake3) (o : SourceObservation) : List UInt8 :=
  textBytes o.cursor.epoch ++ leBytes 8 o.cursor.offset.toNat ++ [classToU8 o.observationClass] ++
    leBytes 8 o.received.wallMicros ++ leBytes 8 o.received.monotonicNanos.toNat ++
    textBytes o.parserSchemaVersion ++ leBytes 4 o.payload.length ++ o.payload ++
    (o.contentHash B).toList

/-- The record of an observation, behind its length. -/
def recordBytes (D : Digests) (o : SourceObservation) : List UInt8 :=
  leBytes 4 (crcBytes + (recordBody D.blake3 o).length) ++
    leBytes 4 (D.crc32c (recordBody D.blake3 o)).toNat ++ recordBody D.blake3 o

theorem length_recordBody (B : Blake3) (o : SourceObservation) :
    (recordBody B o).length = 65 + (utf8 o.cursor.epoch).length +
      (utf8 o.parserSchemaVersion).length + o.payload.length := by
  simp only [recordBody, textBytes, length_append, length_leBytes, length_singleton,
    Vector.length_toList]
  omega

theorem length_recordBytes (D : Digests) (o : SourceObservation) :
    (recordBytes D o).length = 8 + (recordBody D.blake3 o).length := by
  simp only [recordBytes, length_append, length_leBytes]

theorem recordBytes_ne_nil (D : Digests) (o : SourceObservation) : recordBytes D o ≠ [] := by
  apply ne_nil_of_length_pos
  rw [length_recordBytes]
  omega

theorem utf8_length_pos (h : value.isEmpty = false) : 0 < (utf8 value).length := by
  apply length_pos_of_ne_nil
  intro hnil
  have hempty : value = "" := utf8_injective (hnil.trans (by decide : [] = utf8 ""))
  rw [hempty] at h
  exact absurd h (by decide)

theorem validBoundedText_iff {maximum : ℕ} :
    validBoundedText maximum value = true ↔ value.isEmpty = false ∧ recordText value = true ∧
      (utf8 value).length ≤ maximum := by
  simp only [validBoundedText, recordText, Bool.and_eq_true, Bool.not_eq_true',
    decide_eq_true_eq]
  tauto

theorem pushText_eq (h : validText value = true) : pushText value = .ok (textBytes value) := by
  have hlen : (utf8 value).length ≤ 256 := (validBoundedText_iff.mp h).2.2
  rw [pushText, if_neg (by simp [h]), if_neg (by omega)]
  rfl

theorem pushU32_eq {value : ℕ} (h : value < 2 ^ 32) : pushU32 value = .ok (leBytes 4 value) :=
  if_neg (by omega)

/-- What the checks of a record leave open is the warnings and the size of the payload. -/
theorem recordable_iff : Recordable o ↔ o.warnings = [] ∧ o.payload.length ≤ maxPayloadBytes ∧
    crcBytes + minBodyBytes + (utf8 o.cursor.epoch).length +
      (utf8 o.parserSchemaVersion).length + o.payload.length ≤ maxRecordBytes := by
  have hepoch : validText o.cursor.epoch = true := o.cursor.epoch_valid
  have hschema : validText o.parserSchemaVersion = true := o.parserSchemaVersion_valid
  simp only [Recordable, validateRecord, Except.ite_error_eq_ok, hepoch, hschema]
  constructor
  · rintro ⟨bodyLen, hwarnings, htexts, hsize, -⟩
    simp only [Bool.true_eq_false, false_or, not_lt] at htexts hsize
    exact ⟨not_not.mp hwarnings, htexts, by omega⟩
  · rintro ⟨hwarnings, hpayload, hsize⟩
    refine ⟨_, not_not.mpr hwarnings, ?_, ?_, rfl⟩
    · simp only [Bool.true_eq_false, false_or, not_lt]
      exact hpayload
    · simp only [not_lt]
      omega

theorem encodeRecord_of_recordable (h : Recordable o) :
    encodeRecord D o = .ok (recordBytes D o) := by
  obtain ⟨-, hpayload, hsize⟩ := recordable_iff.mp h
  obtain ⟨bodyLen, hvalid⟩ := h
  have hmax : maxPayloadBytes < 2 ^ 32 ∧ maxRecordBytes < 2 ^ 32 := by decide
  have hbody := length_recordBody D.blake3 o
  have hmin : minBodyBytes = 68 := rfl
  have hlen : pushU32 (crcBytes + (recordBody D.blake3 o).length) = .ok (leBytes 4 _) :=
    pushU32_eq (by omega)
  have hepoch : pushText o.cursor.epoch = .ok (textBytes _) := pushText_eq o.cursor.epoch_valid
  have hschema : pushText o.parserSchemaVersion = .ok (textBytes _) :=
    pushText_eq o.parserSchemaVersion_valid
  have hpayloadLen : pushU32 o.payload.length = .ok (leBytes 4 _) := pushU32_eq (by omega)
  simp only [encodeRecord, hvalid, hepoch, hschema, hpayloadLen, Except.ok_bind]
  exact Except.bind_eq_ok.mpr ⟨_, hlen, rfl⟩

theorem encodeRecord_eq_ok {bytes : List UInt8} :
    encodeRecord D o = .ok bytes ↔ Recordable o ∧ bytes = recordBytes D o := by
  constructor
  · intro h
    obtain ⟨bodyLen, hvalid, -⟩ := Except.of_bind h
    refine ⟨⟨bodyLen, hvalid⟩, ?_⟩
    rw [encodeRecord_of_recordable ⟨bodyLen, hvalid⟩] at h
    exact (Except.ok.inj h).symm
  · rintro ⟨h, rfl⟩
    exact encodeRecord_of_recordable h

theorem yields_readText {e missing : SpoolError} {valid : String → Bool}
    (h : validText value = true) (hvalid : valid value = true) :
    Yields (readText e missing valid) (textBytes value) value := by
  obtain ⟨hempty, -, hlen⟩ := validBoundedText_iff.mp h
  have hpos := utf8_length_pos hempty
  have hparse : parseText e valid (utf8 value) = .ok value := by
    simp [parseText, hvalid]
  refine (Yields.littleEndian _ (by change (utf8 value).length ≤ 256 at hlen; omega)).bind ?_
  refine .check (by omega) ?_
  exact (Yields.take _ _).bind_return (.lift hparse)

theorem yields_readU64 (e : SpoolError) (value : UInt64) :
    Yields (readU64 e) (leBytes 8 value.toNat) value := by
  refine (Yields.littleEndian _ value.toNat_lt).bind_return ?_
  rw [UInt64.ofNat_toNat]
  exact .pure value

theorem yields_readCursor (e : SpoolError) (c : SourceCursor) :
    Yields (readCursor e) (textBytes c.epoch ++ leBytes 8 c.offset.toNat) c := by
  have htext : recordText c.epoch = true := (validBoundedText_iff.mp c.epoch_valid).2.1
  refine (yields_readText c.epoch_valid htext).bind ((yields_readU64 e _).bind_return (.lift ?_))
  rw [SourceCursor.new_epoch]
  rfl

theorem classFromU8_classToU8 (c : ObservationClass) : classFromU8 (classToU8 c) = some c := by
  cases c <;> rfl

theorem yields_readClass (e : SpoolError) (c : ObservationClass) :
    Yields (readClass e) [classToU8 c] c := by
  refine (Yields.byte _ _).bind_return (.lift ?_)
  rw [classFromU8_classToU8]
  rfl

theorem yields_readReceived (e : SpoolError) (t : ReceiveTimestamps) :
    Yields (readReceived e) (leBytes 8 t.wallMicros ++ leBytes 8 t.monotonicNanos.toNat) t := by
  have ht := t.wallMicros_lt
  refine (Yields.littleEndian _ (by omega)).bind ((yields_readU64 e _).bind_return (.lift ?_))
  rw [twosComplement_of_lt ht, ReceiveTimestamps.new, dif_pos (by omega)]
  rfl

theorem yields_readPayload (e : SpoolError) {payload : List UInt8} (hne : payload ≠ [])
    (hlen : payload.length ≤ maxPayloadBytes) :
    Yields (readPayload e) (leBytes 4 payload.length ++ payload) payload := by
  have hpos := length_pos_of_ne_nil hne
  have hmax : maxPayloadBytes < 2 ^ 32 := by decide
  refine (Yields.littleEndian _ (by omega)).bind ?_
  exact .check (by omega) (Yields.take _ _)

theorem yields_readBody (e : SpoolError) (h : Recordable o) :
    Yields (readBody D.blake3 e) (recordBody D.blake3 o) (o.record D.blake3) := by
  obtain ⟨-, hpayload, -⟩ := recordable_iff.mp h
  have hschema : validText o.parserSchemaVersion = true := o.parserSchemaVersion_valid
  have hbody : recordBody D.blake3 o =
      (textBytes o.cursor.epoch ++ leBytes 8 o.cursor.offset.toNat) ++
        ([classToU8 o.observationClass] ++
          ((leBytes 8 o.received.wallMicros ++ leBytes 8 o.received.monotonicNanos.toNat) ++
            (textBytes o.parserSchemaVersion ++ ((leBytes 4 o.payload.length ++ o.payload) ++
              (o.contentHash D.blake3).toList)))) := by
    simp only [recordBody, append_assoc]
  rw [hbody]
  refine (yields_readCursor e _).bind ((yields_readClass e _).bind
    ((yields_readReceived e _).bind ((yields_readText hschema
      (validBoundedText_iff.mp hschema).2.1).bind
        ((yields_readPayload e o.payload_ne_nil hpayload).bind
          ((Yields.hash32 e _).bind_return (.check ?_ (.pure _)))))))
  exact not_not.mpr rfl

theorem decodeRecord_recordBytes (h : Recordable o) (recordOffset : ℕ) :
    decodeRecord D ((recordBytes D o).drop 4) recordOffset = .ok (o.record D.blake3) := by
  obtain ⟨-, hpayload, hsize⟩ := recordable_iff.mp h
  have hbody := length_recordBody D.blake3 o
  have hepoch := utf8_length_pos (validBoundedText_iff.mp o.cursor.epoch_valid).1
  have hschema := utf8_length_pos (validBoundedText_iff.mp o.parserSchemaVersion_valid).1
  have hpos := length_pos_of_ne_nil o.payload_ne_nil
  have hcrc : crcBytes = 4 := rfl
  have hmin : minBodyBytes = 68 := rfl
  have hframed : (recordBytes D o).drop 4 =
      leBytes 4 (D.crc32c (recordBody D.blake3 o)).toNat ++ recordBody D.blake3 o := by
    rw [recordBytes, append_assoc, drop_left' (length_leBytes _ _)]
  have hlen : ((recordBytes D o).drop 4).length = 4 + (recordBody D.blake3 o).length := by
    rw [length_drop, length_recordBytes]
    omega
  have hdrop : ((recordBytes D o).drop 4).drop 4 = recordBody D.blake3 o := by
    rw [hframed, drop_left' (length_leBytes _ _)]
  have htake : leNat (((recordBytes D o).drop 4).take 4) =
      (D.crc32c (recordBody D.blake3 o)).toNat := by
    rw [hframed, take_left' (length_leBytes _ _), leNat_leBytes (UInt32.toNat_lt _)]
  rw [decodeRecord, if_neg (by omega), hdrop, htake, if_neg (not_not.mpr rfl)]
  exact (yields_readBody _ h).complete _

theorem holds_recordBytes (h : Recordable o) :
    Frames.Holds (nextRecord D) (recordBytes D o) (o.record D.blake3) := by
  intro recordOffset rest
  obtain ⟨-, hpayload, hsize⟩ := recordable_iff.mp h
  have hmax : maxRecordBytes < 2 ^ 32 := by decide
  have hbody := length_recordBody D.blake3 o
  have hlen := length_recordBytes D o
  have hcrc : crcBytes = 4 := rfl
  have hmin : minBodyBytes = 68 := rfl
  have htake : leNat ((recordBytes D o ++ rest).take 4) = 4 + (recordBody D.blake3 o).length := by
    rw [recordBytes, append_assoc, append_assoc, take_left' (length_leBytes _ _),
      leNat_leBytes (by omega)]
    rfl
  have hframed : ((recordBytes D o ++ rest).drop 4).take (4 + (recordBody D.blake3 o).length) =
      (recordBytes D o).drop 4 := by
    rw [drop_append_of_le_length (by omega), take_left' (by rw [length_drop]; omega)]
  have hne : recordBytes D o ++ rest ≠ [] := by
    simp [recordBytes_ne_nil]
  simp only [nextRecord, htake, hframed, decodeRecord_recordBytes h, Except.ok_bind]
  rw [if_neg hne, if_neg (by rw [length_append]; omega), if_neg (by omega),
    if_neg (by rw [length_append]; omega), hlen]
  have hsum : 4 + (4 + (recordBody D.blake3 o).length) = 8 + (recordBody D.blake3 o).length := by
    omega
  rw [hsum]
  rfl

end RoundTrip

end Spool

inductive CursorPolicy
  | contiguousNativeOffset
  | monotonicByteOffset

/-- What `SegmentHeader::new_with_cursor_policy` lets through. -/
@[ext]
structure SegmentHeader where
  sourceId : SourceId
  sourceVersion : String
  schemaVersion : String
  segmentSequence : UInt64
  createdAtMicros : ℕ
  producerBuildHash : Hash32
  cursorPolicy : CursorPolicy
  sourceId_valid : Spool.validText sourceId.value = true
  sourceVersion_valid : Spool.validText sourceVersion = true
  schemaVersion_valid : Spool.validText schemaVersion = true
  createdAtMicros_lt : createdAtMicros < 2 ^ 63

namespace SegmentHeader

open Spool

def newWithCursorPolicy (sourceId : SourceId) (sourceVersion schemaVersion : String)
    (segmentSequence : UInt64) (createdAtMicros : ℤ) (producerBuildHash : Hash32)
    (cursorPolicy : CursorPolicy) : Except SpoolError SegmentHeader :=
  if h : validText sourceId.value = true ∧ validText sourceVersion = true ∧
      validText schemaVersion = true ∧ 0 ≤ createdAtMicros ∧ createdAtMicros < 2 ^ 63 then
    .ok ⟨sourceId, sourceVersion, schemaVersion, segmentSequence, createdAtMicros.toNat,
      producerBuildHash, cursorPolicy, h.1, h.2.1, h.2.2.1, by omega⟩
  else .error .invalidHeader

/-- The bytes `HLSPV001` and `HLSPV002`. -/
def magic : CursorPolicy → List UInt8
  | .contiguousNativeOffset => [72, 76, 83, 80, 86, 48, 48, 49]
  | .monotonicByteOffset => [72, 76, 83, 80, 86, 48, 48, 50]

def fixedHeaderBytes : CursorPolicy → ℕ
  | .contiguousNativeOffset => 8 + 4 + 2 + 2 + 2 + 8 + 8 + 32
  | .monotonicByteOffset => 8 + 4 + 2 + 2 + 2 + 8 + 8 + 32 + 1

def policyBytes : CursorPolicy → List UInt8
  | .contiguousNativeOffset => []
  | .monotonicByteOffset => [1]

def pushText (value : String) : Except SpoolError (List UInt8) :=
  if 2 ^ 16 ≤ (utf8 value).length then .error .invalidHeader else .ok (textBytes value)

def headerLen (h : SegmentHeader) : ℕ :=
  fixedHeaderBytes h.cursorPolicy + (utf8 h.sourceId.value).length +
    (utf8 h.sourceVersion).length + (utf8 h.schemaVersion).length

def encode (h : SegmentHeader) : Except SpoolError (List UInt8) :=
  if maxHeaderBytes < h.headerLen then .error .invalidHeader
  else do
    let length ← pushU32 h.headerLen
    let sourceId ← pushText h.sourceId.value
    let sourceVersion ← pushText h.sourceVersion
    let schemaVersion ← pushText h.schemaVersion
    return magic h.cursorPolicy ++ length ++ sourceId ++ sourceVersion ++ schemaVersion ++
      policyBytes h.cursorPolicy ++ leBytes 8 h.segmentSequence.toNat ++
      leBytes 8 h.createdAtMicros ++ h.producerBuildHash.toList

section Decode

open ByteReader

def policyOfMagic (bytes : List UInt8) : Except SpoolError CursorPolicy :=
  if bytes = magic .contiguousNativeOffset then .ok .contiguousNativeOffset
  else if bytes = magic .monotonicByteOffset then .ok .monotonicByteOffset
  else .error .invalidHeader

def readPolicy : CursorPolicy → RecordReader Unit
  | .contiguousNativeOffset => return ()
  | .monotonicByteOffset => do
    let tag ← byte .incompleteHeader
    if tag ≠ 1 then throw .invalidHeader else return ()

def readIdentity : RecordReader String := readText .invalidHeader .incompleteHeader validText

def newSourceId (value : String) : Except SpoolError SourceId :=
  (StringId.new value).mapError fun _ => .invalidHeader

/-- The fields behind the magic and the length. Their values are checked when all of them are
there. -/
def readFields (cursorPolicy : CursorPolicy) : RecordReader SegmentHeader := do
  let sourceId ← readIdentity
  let sourceVersion ← readIdentity
  let schemaVersion ← readIdentity
  readPolicy cursorPolicy
  let segmentSequence ← readU64 .incompleteHeader
  let createdAtMicros ← littleEndian .incompleteHeader 8
  let producerBuildHash ← hash32 .incompleteHeader
  let sourceId ← liftM (newSourceId sourceId)
  liftM (newWithCursorPolicy sourceId sourceVersion schemaVersion segmentSequence
    (twosComplement 64 createdAtMicros) producerBuildHash cursorPolicy)

def decode (encoded : List UInt8) : Except SpoolError SegmentHeader := do
  let cursorPolicy ← policyOfMagic (encoded.take 8)
  complete .invalidHeader (readFields cursorPolicy) (encoded.drop 12)

/-- The header at the front of a segment, with the offset at which the records start. -/
def readFrom (input : List UInt8) : Except SpoolError (SegmentHeader × ℕ) :=
  if input.length < 12 then .error .incompleteHeader
  else do
    let cursorPolicy ← policyOfMagic (input.take 8)
    let headerLen := leNat ((input.drop 8).take 4)
    if headerLen < fixedHeaderBytes cursorPolicy ∨ maxHeaderBytes < headerLen then
      throw .invalidHeader
    else if input.length < headerLen then throw .incompleteHeader
    else do
      let header ← decode (input.take headerLen)
      return (header, headerLen)

end Decode

section RoundTrip

open ByteReader

def bytes (h : SegmentHeader) : List UInt8 :=
  magic h.cursorPolicy ++ (leBytes 4 h.headerLen ++ (textBytes h.sourceId.value ++
    (textBytes h.sourceVersion ++ (textBytes h.schemaVersion ++ (policyBytes h.cursorPolicy ++
      (leBytes 8 h.segmentSequence.toNat ++ (leBytes 8 h.createdAtMicros ++
        h.producerBuildHash.toList)))))))

theorem length_magic (p : CursorPolicy) : (magic p).length = 8 := by
  cases p <;> rfl

theorem length_bytes (h : SegmentHeader) : h.bytes.length = h.headerLen := by
  have hp : 66 + (policyBytes h.cursorPolicy).length = fixedHeaderBytes h.cursorPolicy := by
    cases h.cursorPolicy <;> rfl
  simp only [bytes, textBytes, headerLen, length_append, length_leBytes, length_magic,
    Vector.length_toList]
  omega

theorem length_le_of_validText (h : validText value = true) : (utf8 value).length ≤ 256 :=
  (validBoundedText_iff.mp h).2.2

theorem headerLen_bounds (h : SegmentHeader) :
    fixedHeaderBytes h.cursorPolicy ≤ h.headerLen ∧ h.headerLen ≤ maxHeaderBytes := by
  have hid := length_le_of_validText h.sourceId_valid
  have hversion := length_le_of_validText h.sourceVersion_valid
  have hschema := length_le_of_validText h.schemaVersion_valid
  have hfixed : fixedHeaderBytes h.cursorPolicy ≤ 67 := by
    cases h.cursorPolicy <;> decide
  have hmax : maxHeaderBytes = 4096 := rfl
  unfold headerLen
  omega

theorem encode_eq (h : SegmentHeader) : h.encode = .ok h.bytes := by
  have hmax : maxHeaderBytes = 4096 := rfl
  have hlen := h.headerLen_bounds.2
  have htext : ∀ {value : String}, validText value = true →
      pushText value = .ok (textBytes value) := by
    intro value hvalid
    have hle := length_le_of_validText hvalid
    exact if_neg (by omega)
  rw [encode, if_neg (by omega), pushU32_eq (by omega), htext h.sourceId_valid,
    htext h.sourceVersion_valid, htext h.schemaVersion_valid]
  simp only [Except.ok_bind, bytes, append_assoc]
  rfl

theorem yields_readPolicy (p : CursorPolicy) : Yields (readPolicy p) (policyBytes p) () := by
  cases p with
  | contiguousNativeOffset => exact .pure ()
  | monotonicByteOffset =>
    exact (Yields.byte _ 1).bind_return (.check (not_not.mpr rfl) (.pure ()))

theorem newWithCursorPolicy_eq (h : SegmentHeader) :
    newWithCursorPolicy h.sourceId h.sourceVersion h.schemaVersion h.segmentSequence
      h.createdAtMicros h.producerBuildHash h.cursorPolicy = .ok h := by
  have hlt := h.createdAtMicros_lt
  exact dif_pos ⟨h.sourceId_valid, h.sourceVersion_valid, h.schemaVersion_valid, by omega⟩

theorem yields_readFields (h : SegmentHeader) :
    Yields (readFields h.cursorPolicy) (h.bytes.drop 12) h := by
  have hdrop : h.bytes.drop 12 = textBytes h.sourceId.value ++ (textBytes h.sourceVersion ++
      (textBytes h.schemaVersion ++ (policyBytes h.cursorPolicy ++
        (leBytes 8 h.segmentSequence.toNat ++ (leBytes 8 h.createdAtMicros ++
          h.producerBuildHash.toList))))) := by
    rw [bytes, ← append_assoc]
    exact drop_left' (by rw [length_append, length_magic, length_leBytes])
  have hlt := h.createdAtMicros_lt
  have hid : newSourceId h.sourceId.value = .ok h.sourceId := by
    rw [newSourceId, StringId.new_value]
    rfl
  rw [hdrop]
  refine (yields_readText h.sourceId_valid h.sourceId_valid).bind
    ((yields_readText h.sourceVersion_valid h.sourceVersion_valid).bind
      ((yields_readText h.schemaVersion_valid h.schemaVersion_valid).bind
        ((yields_readPolicy _).bind ((yields_readU64 _ _).bind
          ((Yields.littleEndian _ (by omega)).bind ((Yields.hash32 _ _).bind_return
            ((Yields.lift hid).bind_nil (.lift ?_))))))))
  rw [twosComplement_of_lt hlt]
  exact h.newWithCursorPolicy_eq

theorem policyOfMagic_magic (p : CursorPolicy) : policyOfMagic (magic p) = .ok p := by
  cases p <;> rfl

theorem readFrom_bytes (h : SegmentHeader) (rest : List UInt8) :
    readFrom (h.bytes ++ rest) = .ok (h, h.bytes.length) := by
  have hlen := h.length_bytes
  obtain ⟨hfixed, hmax⟩ := h.headerLen_bounds
  have h66 : 66 ≤ fixedHeaderBytes h.cursorPolicy := by
    cases h.cursorPolicy <;> decide
  have hmax' : maxHeaderBytes = 4096 := rfl
  have hmagic : h.bytes.take 8 = magic h.cursorPolicy := by
    exact take_left' (length_magic _)
  have hnumber : (h.bytes.drop 8).take 4 = leBytes 4 h.headerLen := by
    rw [bytes, drop_left' (length_magic _)]
    exact take_left' (length_leBytes _ _)
  have htake : (h.bytes ++ rest).take 8 = magic h.cursorPolicy := by
    rw [take_append_of_le_length (by omega), hmagic]
  have hlength : leNat (((h.bytes ++ rest).drop 8).take 4) = h.bytes.length := by
    rw [drop_append_of_le_length (by omega),
      take_append_of_le_length (by rw [length_drop]; omega), hnumber,
      leNat_leBytes (by omega), hlen]
  have hdecode : decode h.bytes = .ok h := by
    rw [decode, hmagic, policyOfMagic_magic]
    exact h.yields_readFields.complete _
  have hall : (h.bytes ++ rest).take h.bytes.length = h.bytes := take_left
  rw [readFrom, if_neg (by rw [length_append]; omega), htake, policyOfMagic_magic]
  simp only [Except.ok_bind, hlength, hall, hdecode]
  rw [if_neg (by omega), if_neg (by rw [length_append]; omega)]
  rfl

end RoundTrip

end SegmentHeader

end AlphaDesk
