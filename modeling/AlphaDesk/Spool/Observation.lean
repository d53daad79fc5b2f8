import AlphaDesk.Events.Contract

/-! # Observations of a source

What a source delivers: a payload with the cursor at which it stands in the source,
the times at which it was received and the version of its schema. A cursor follows
another within one epoch when its offset is greater.
-/

namespace AlphaDesk

open Bytes

inductive ObservationClass
  | committedBlock
  | auxiliaryOrderStatus
  | auxiliaryBookDiff
  | auxiliaryLedger
  | snapshot
  | historicalBlock
  | publicMarketData
  | provisionalFeed
  | provisionalMempool

inductive ObservationError
  | invalidSourceVersion
  | invalidParserSchemaVersion
  | invalidCursorEpoch
  | invalidWallTimestamp
  | invalidPayloadLimit
  | emptyPayload
  | payloadTooLarge (observationClass : ObservationClass) (actual maximum : ℕ)
  | cursorRegression

def maxObservationIdentityBytes : ℕ := 256

def validBoundedText (maximum : ℕ) (value : String) : Bool :=
  !value.isEmpty && trim value == value && decide ((utf8 value).length ≤ maximum) &&
    !value.toList.any isControl

def validObservationIdentity (value : String) : Bool :=
  validBoundedText maxObservationIdentityBytes value

/-- A place in a source: an offset within an epoch. -/
@[ext]
structure SourceCursor where
  epoch : String
  offset : UInt64
  epoch_valid : validObservationIdentity epoch = true
  deriving DecidableEq

inductive CursorTransition
  | duplicate
  | advanced (amount : UInt64)
  | epochChanged

namespace SourceCursor

def new (epoch : String) (offset : UInt64) : Except ObservationError SourceCursor :=
  if h : validObservationIdentity epoch = true then .ok ⟨epoch, offset, h⟩
  else .error .invalidCursorEpoch

def validateSuccessorOf (cursor previous : SourceCursor) :
    Except ObservationError CursorTransition :=
  if cursor.epoch ≠ previous.epoch then .ok .epochChanged
  else if cursor.offset < previous.offset then .error .cursorRegression
  else if cursor.offset = previous.offset then .ok .duplicate
  else .ok (.advanced (cursor.offset - previous.offset))

def Advances (previous cursor : SourceCursor) : Prop :=
  cursor.epoch = previous.epoch ∧ previous.offset < cursor.offset

instance (previous cursor : SourceCursor) : Decidable (Advances previous cursor) :=
  inferInstanceAs (Decidable (_ ∧ _))

theorem new_epoch (c : SourceCursor) : new c.epoch c.offset = .ok c := dif_pos c.epoch_valid

theorem Advances.trans {a b c : SourceCursor} (hab : Advances a b) (hbc : Advances b c) :
    Advances a c :=
  ⟨hbc.1.trans hab.1, UInt64.lt_trans hab.2 hbc.2⟩

end SourceCursor

@[ext]
structure ReceiveTimestamps where
  wallMicros : ℕ
  monotonicNanos : UInt64
  wallMicros_lt : wallMicros < 2 ^ 63

def ReceiveTimestamps.new (wallMicros : ℤ) (monotonicNanos : UInt64) :
    Except ObservationError ReceiveTimestamps :=
  if h : 0 ≤ wallMicros ∧ wallMicros < 2 ^ 63 then
    .ok ⟨wallMicros.toNat, monotonicNanos, toNat_lt_of_micros h⟩
  else .error .invalidWallTimestamp

structure ParseWarning where
  code : String
  detail : String

/-- What `SourceObservation::new` lets through. The content hash is the hash of the payload. -/
structure SourceObservation where
  sourceId : SourceId
  sourceVersion : String
  observationClass : ObservationClass
  cursor : SourceCursor
  received : ReceiveTimestamps
  parserSchemaVersion : String
  payload : List UInt8
  warnings : List ParseWarning
  sourceVersion_valid : validObservationIdentity sourceVersion = true
  parserSchemaVersion_valid : validObservationIdentity parserSchemaVersion = true
  payload_ne_nil : payload ≠ []

namespace SourceObservation

def new (sourceId : SourceId) (sourceVersion : String) (observationClass : ObservationClass)
    (cursor : SourceCursor) (received : ReceiveTimestamps) (parserSchemaVersion : String)
    (payload : List UInt8) (warnings : List ParseWarning) (maxPayloadBytes : ℕ) :
    Except ObservationError SourceObservation :=
  if hv : validObservationIdentity sourceVersion = true then
    if hs : validObservationIdentity parserSchemaVersion = true then
      if maxPayloadBytes = 0 then .error .invalidPayloadLimit
      else if hp : payload = [] then .error .emptyPayload
      else if maxPayloadBytes < payload.length then
        .error (.payloadTooLarge observationClass payload.length maxPayloadBytes)
      else .ok ⟨sourceId, sourceVersion, observationClass, cursor, received, parserSchemaVersion,
        payload, warnings, hv, hs, hp⟩
    else .error .invalidParserSchemaVersion
  else .error .invalidSourceVersion

def contentHash (B : Blake3) (o : SourceObservation) : Hash32 := B.hash o.payload

end SourceObservation

end AlphaDesk
