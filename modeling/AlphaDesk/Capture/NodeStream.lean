import AlphaDesk.Domain.Text
import AlphaDesk.Foundation.Run
import AlphaDesk.Spool.Observation

/-! # Tailing the output of a node

A node appends lines to the file at a path and now and then replaces the path by a new
file. The source reads line by line, and when a file has ended and the path names
another one, it goes on there. The node and the source take turns between any two
steps on the file system.
-/

namespace AlphaDesk

open Bytes

inductive SourceError
  | temporaryDisconnect (detail : String)
  | malformedPayload (detail : String)
  | schemaDrift (detail : String)
  | cursorRegression
  | configuration (detail : String)
  | rangeUnavailable
  | cancelled
  | backpressureTimeout
  deriving DecidableEq

def newline : UInt8 := 10

structure FileIdentity where
  device : UInt64
  inode : UInt64
  deriving DecidableEq

/-- A file that the path names or has named. -/
structure NodeFile where
  identity : FileIdentity
  content : List UInt8

inductive LineRead
  | complete (payload : List UInt8) (endOffset : UInt64)
  | endOfFile
  | partialLine
  deriving DecidableEq

def readChunkBytes : ℕ := 16 * 1024

/-- The loop of `read_line` over the bytes behind the offset. Every round but the last takes some
of them, so that as many rounds as there are bytes, and one more, are enough. -/
def readLoop (offset : UInt64) (maxPayloadBytes : ℕ) :
    ℕ → List UInt8 → List UInt8 → Except SourceError LineRead
  | 0, _, _ => .ok .endOfFile
  | rounds + 1, payload, rest =>
    let chunk := rest.take readChunkBytes
    if chunk = [] then .ok (if payload = [] then .endOfFile else .partialLine)
    else
      let record := chunk.takeWhile (· ≠ newline)
      if maxPayloadBytes < payload.length + record.length then
        .error (.malformedPayload "node output record exceeds its configured limit")
      else if newline ∈ chunk then
        let payload := payload ++ record
        if offset.toNat + payload.length + 1 < 2 ^ 64 then
          .ok (.complete payload (.ofNat (offset.toNat + payload.length + 1)))
        else .error (.malformedPayload "node offset overflow")
      else readLoop offset maxPayloadBytes rounds (payload ++ record) (rest.drop readChunkBytes)

def readLine (content : List UInt8) (offset : UInt64) (maxPayloadBytes : ℕ) :
    Except SourceError LineRead :=
  readLoop offset maxPayloadBytes (content.length + 1) [] (content.drop offset.toNat)

inductive PathState
  | same
  | replaced
  | missing
  deriving DecidableEq

/-- The path names the last of the files. -/
def pathState (files : List NodeFile) (active : FileIdentity) : PathState :=
  match files.getLast? with
  | some file => if file.identity = active then .same else .replaced
  | none => .missing

def epoch (B : Blake3) (streamName : String) (identity : FileIdentity)
    (openingRecord : List UInt8) : String :=
  "node-file-v1:" ++ (B.hash (utf8 "alpha-desk-node-file-epoch-v1" ++ [0] ++
    utf8 streamName ++ [0] ++ leBytes 8 identity.device.toNat ++
    leBytes 8 identity.inode.toNat ++ (B.hash openingRecord).toList)).toHex

/-- An open file, by its place among the files. -/
structure OpenNodeFile where
  file : ℕ
  identity : FileIdentity
  epoch : String

def openNodeFile (B : Blake3) (files : List NodeFile) (streamName : String)
    (maxPayloadBytes : ℕ) : Except SourceError OpenNodeFile :=
  match files.getLast? with
  | none => .error (.temporaryDisconnect "node output file is unavailable")
  | some file =>
    match readLine file.content 0 maxPayloadBytes with
    | .error e => .error e
    | .ok (.complete payload _) =>
      .ok ⟨files.length - 1, file.identity, epoch B streamName file.identity payload⟩
    | .ok _ => .error (.temporaryDisconnect "node output has no complete opening record")

def validateResumeBoundary (content : List UInt8) (offset : UInt64) : Except SourceError Unit :=
  if content.length < offset.toNat then .error .cursorRegression
  else if offset = 0 then .ok ()
  else if content[offset.toNat - 1]? = some newline then .ok ()
  else .error .cursorRegression

/-- What `NodeFileConfig::new_bounded` lets through, of what the source reads. -/
structure NodeFileConfig where
  streamName : String
  sourceId : SourceId
  sourceVersion : String
  parserSchemaVersion : String
  maxPayloadBytes : ℕ
  maxInflightObservations : ℕ
  sourceVersion_valid : validObservationIdentity sourceVersion = true
  parserSchemaVersion_valid : validObservationIdentity parserSchemaVersion = true
  maxPayloadBytes_pos : 0 < maxPayloadBytes

structure PendingQuarantine where
  cursor : SourceCursor
  payload : List UInt8
  received : ReceiveTimestamps
  error : SourceError

structure NodeLineFileSource where
  config : NodeFileConfig
  active : OpenNodeFile
  readOffset : UInt64
  durableCursor : Option SourceCursor
  pendingEmittedCursors : List SourceCursor
  pendingQuarantine : Option PendingQuarantine
  partialLine : Bool

def maxNodeRecordBytes : ℕ := 256 * 1024 * 1024

/-- A record is classified by `parse` and keeps its bytes. -/
def parseNodeRecord (parse : List UInt8 → Except SourceError ObservationClass)
    (payload : List UInt8) : Except SourceError ObservationClass :=
  if payload = [] ∨ maxNodeRecordBytes < payload.length then
    .error (.malformedPayload "node record size is outside the supported range")
  else parse payload

/-- The failures of the parser that put a record into quarantine. -/
def SourceError.isQuarantined : SourceError → Bool
  | .malformedPayload _ | .schemaDrift _ => true
  | _ => false

/-- Where a call of `next_observation` stands. -/
inductive Phase
  | idle
  | ended (state : LineRead)
  | replaced

namespace NodeLineFileSource

def openWithClock (B : Blake3) (files : List NodeFile) (config : NodeFileConfig)
    (durableCursor : Option SourceCursor) : Except SourceError NodeLineFileSource := do
  let active ← openNodeFile B files config.streamName config.maxPayloadBytes
  let readOffset ← match durableCursor.filter (·.epoch = active.epoch) with
    | some cursor => do
      validateResumeBoundary (files.getLast?.elim [] (·.content)) cursor.offset
      .ok cursor.offset
    | none => .ok 0
  return ⟨config, active, readOffset, durableCursor, [], none, false⟩

def acknowledgeDurable (source : NodeLineFileSource) (cursor : SourceCursor) :
    Except SourceError NodeLineFileSource :=
  if source.pendingEmittedCursors.head? = some cursor then
    .ok { source with
      durableCursor := some cursor, pendingEmittedCursors := source.pendingEmittedCursors.tail }
  else .error .cursorRegression

def acknowledgeQuarantineDurable (source : NodeLineFileSource) (cursor : SourceCursor) :
    Except SourceError NodeLineFileSource :=
  match source.pendingQuarantine with
  | none => .error .cursorRegression
  | some pending =>
    if pending.cursor = cursor then
      .ok { source with
        readOffset := cursor.offset, durableCursor := some cursor, pendingQuarantine := none }
    else .error .cursorRegression

variable (parse : List UInt8 → Except SourceError ObservationClass)

/-- `check` is what the context answers behind the parser. -/
def handleCompleteLine (received : Except SourceError ReceiveTimestamps)
    (check : Except SourceError Unit) (payload : List UInt8) (endOffset : UInt64)
    (source : NodeLineFileSource) : Except SourceError SourceObservation × NodeLineFileSource :=
  match SourceCursor.new source.active.epoch endOffset with
  | .error _ => (.error (.malformedPayload "node cursor is invalid"), source)
  | .ok cursor =>
    let source := { source with partialLine := false }
    match received, check, parseNodeRecord parse payload with
    | .error e, _, _ => (.error e, source)
    | _, .error e, _ => (.error e, source)
    | .ok received, .ok (), .error e =>
      (.error e, if e.isQuarantined then
        { source with pendingQuarantine := some ⟨cursor, payload, received, e⟩ } else source)
    | .ok received, .ok (), .ok observationClass =>
      match SourceObservation.new source.config.sourceId source.config.sourceVersion
        observationClass cursor received source.config.parserSchemaVersion payload []
        source.config.maxPayloadBytes with
      | .error _ => (.error (.malformedPayload "node observation is invalid"), source)
      | .ok observation =>
        (.ok observation, { source with
          readOffset := endOffset
          pendingEmittedCursors := source.pendingEmittedCursors ++ [cursor] })

/-- A round of `next_observation` up to the end of its read. The call returns or goes on. -/
def readRound (content : List UInt8) (received : Except SourceError ReceiveTimestamps)
    (check : Except SourceError Unit) (source : NodeLineFileSource) :
    Option (Except SourceError SourceObservation) × Phase × NodeLineFileSource :=
  match source.pendingQuarantine with
  | some pending => (some (.error pending.error), .idle, source)
  | none =>
    if source.config.maxInflightObservations ≤ source.pendingEmittedCursors.length then
      (some (.error .backpressureTimeout), .idle, source)
    else if content.length < source.readOffset.toNat then
      (some (.error .cursorRegression), .idle, source)
    else
      match readLine content source.readOffset source.config.maxPayloadBytes with
      | .error e => (some (.error e), .idle, source)
      | .ok (.complete payload endOffset) =>
        let handled := source.handleCompleteLine parse received check payload endOffset
        (some handled.1, .idle, handled.2)
      | .ok state =>
        (none, .ended state, { source with partialLine := decide (state = .partialLine) })

/-- The path check of `rotate_if_ready`. Where it does not go on with the successor, the call
returns or waits for the next round. -/
def checkPath (files : List NodeFile) (source : NodeLineFileSource) (state : LineRead) :
    Option (Except SourceError SourceObservation) × Phase :=
  match pathState files source.active.identity, state with
  | .replaced, .partialLine => (some (.error
      (.malformedPayload "node output rotated with an incomplete final record")), .idle)
  | .replaced, .endOfFile => (none, .replaced)
  | _, _ => (none, .idle)

/-- The rest of `rotate_if_ready`. -/
def reopen (B : Blake3) (files : List NodeFile) (source : NodeLineFileSource) :
    Except SourceError NodeLineFileSource := do
  let active ← openNodeFile B files source.config.streamName source.config.maxPayloadBytes
  return { source with active, readOffset := 0, partialLine := false }

end NodeLineFileSource

/-- The files in the order in which the path has named them, the source, and what its calls have
returned. -/
structure Tailing where
  files : List NodeFile
  source : NodeLineFileSource
  phase : Phase
  replies : List (Except SourceError SourceObservation)

/-- The steps of the node and of the source. -/
inductive TailEvent
  | append (bytes : List UInt8)
  | replace (file : NodeFile)
  | read (received : Except SourceError ReceiveTimestamps) (check : Except SourceError Unit)
  | checkPath
  | reopen
  | acknowledge (cursor : SourceCursor)

namespace Tailing

variable (B : Blake3) (parse : List UInt8 → Except SourceError ObservationClass)

/-- A step out of its turn changes nothing. -/
def step (s : Tailing) : TailEvent → Tailing
  | .append bytes =>
    { s with
      files := s.files.modifyLast fun file => { file with content := file.content ++ bytes } }
  | .replace file => { s with files := s.files ++ [file] }
  | .read received check =>
    match s.phase, s.files[s.source.active.file]? with
    | .idle, some file =>
      let (reply, phase, source) := s.source.readRound parse file.content received check
      ⟨s.files, source, phase, s.replies ++ reply.toList⟩
    | _, _ => s
  | .checkPath =>
    match s.phase with
    | .ended state =>
      let (reply, phase) := s.source.checkPath s.files state
      { s with phase, replies := s.replies ++ reply.toList }
    | _ => s
  | .reopen =>
    match s.phase with
    | .replaced =>
      match s.source.reopen B s.files with
      | .ok source => { s with source, phase := .idle }
      | .error e => { s with phase := .idle, replies := s.replies ++ [.error e] }
    | _ => s
  | .acknowledge cursor =>
    match s.source.acknowledgeDurable cursor with
    | .ok source => { s with source }
    | .error _ => s

def returned (s : Tailing) : List SourceObservation := s.replies.filterMap Except.toOption

/-- What the node may do: a file that it leaves ends with a newline, and the next one is another
file with a complete first line. -/
def Admissible (s : Tailing) : TailEvent → Prop
  | .replace file => newline ∈ file.content ∧ (∀ old ∈ s.files, old.identity ≠ file.identity) ∧
    ∀ old ∈ s.files.getLast?, old.content.getLast? = some newline
  | _ => True

end Tailing

end AlphaDesk
