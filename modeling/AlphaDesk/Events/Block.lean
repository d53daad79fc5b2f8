import AlphaDesk.Events.Contract
import AlphaDesk.Events.Evidence
import Std.Data.ExtTreeMap

/-! # Envelopes and blocks

An event envelope carries a payload that passed its checks. A block is a list of
events of one chain, height, time and confirmation class, in transaction order,
each under the identity its content determines; its hash covers them all. Evidence
of the same event can be merged, unless two pieces contradict each other.
-/

namespace AlphaDesk

open Bytes SortedList

/-- A canonical event, with the bytes its payload was encoded to or decoded from. It is
never without evidence, and only a correction supersedes another event. -/
structure CanonicalEventEnvelope where
  schemaVersion : String
  chainId : ChainId
  blockHeight : BlockHeight
  blockTime : ProtocolTime
  transactionId : TransactionId
  transactionIndex : UInt32
  eventIndex : UInt32
  eventId : EventId
  marketIds : List MarketId
  accountIds : List Address
  sourceEvidence : List SourceEvidence
  confirmationClass : ConfirmationClass
  observedAt : KnownTime
  ingestedAt : KnownTime
  canonicalizedAt : KnownTime
  payloadHash : Hash32
  parserVersion : RequiredText
  payload : EventPayload
  encodedPayload : List UInt8
  supersededEventId : Option EventId
  evidenced : sourceEvidence ≠ []
  corrects : supersededEventId ≠ none → confirmationClass = .corrected
  payload_valid : payload.validate = .ok ()
  accounts_bound : payload.validateTradeAccountBinding accountIds = .ok ()
  deriving DecidableEq

namespace CanonicalEventEnvelope

def eventKind (e : CanonicalEventEnvelope) : EventKind := e.payload.kind

end CanonicalEventEnvelope

variable (B : Blake3)

def schemaMajor : ℕ := 1

def eventIdContext : String := "hyperliquid-alpha-desk/event-id/v1"

theorem isWhitespace_hexDigit {n : ℕ} (h : n < 16) : isWhitespace (Address.hexDigit n) = false := by
  decide +revert

theorem validId_of_ends (a : Char) (cs : List Char) (b : Char) (ha : isWhitespace a = false)
    (hb : isWhitespace b = false) : validId (String.ofList (a :: (cs ++ [b]))) = true := by
  have ht : ((a :: (cs ++ [b])).dropWhile isWhitespace).rdropWhile isWhitespace =
      a :: (cs ++ [b]) := by
    rw [List.dropWhile_cons_of_neg (by simp [ha]), ← List.cons_append]
    exact List.rdropWhile_concat_neg _ _ _ (by simp [hb])
  simp only [validId, trim, String.toList_ofList, ht, beq_self_eq_true, Bool.and_true,
    Bool.not_eq_true', String.isEmpty_eq_false_iff]
  simp

theorem hexEncode_concat (bs : List UInt8) (b : UInt8) :
    Address.hexEncode (bs ++ [b]) = Address.hexEncode bs ++
      [Address.hexDigit (b.toNat / 16)] ++ [Address.hexDigit (b.toNat % 16)] := by
  simp [Address.hexEncode]

theorem validId_eventId (digest : Hash32) :
    validId (String.ofList ('e' :: 'v' :: 't' :: '_' :: Address.hexEncode digest.toList)) =
      true := by
  have hne : digest.toList ≠ [] := fun h => by
    simpa [h] using digest.length_toList
  obtain ⟨bs, b, h⟩ := (List.eq_nil_or_concat digest.toList).resolve_left hne
  rw [h, List.concat_eq_append, hexEncode_concat]
  exact validId_of_ends 'e' ('v' :: 't' :: '_' :: (Address.hexEncode bs ++ _)) _ rfl
    (isWhitespace_hexDigit (Nat.mod_lt _ (by decide)))

/-- The identity that an event's place and kind determine. -/
def computeEventId (chainId : ChainId) (blockHeight : BlockHeight)
    (transactionIdentity : TransactionId) (canonicalEventIndex : UInt32) (eventKind : EventKind)
    (major : ℕ) : EventId :=
  let digest := B.deriveKey eventIdContext
    (frame chainId.asBytes ++ (beBytes 8 blockHeight.toNat ++ (frame transactionIdentity.asBytes ++
      (beBytes 4 canonicalEventIndex.toNat ++
        (frame (utf8 eventKind.asWireName) ++ beBytes 8 major)))))
  ⟨String.ofList ('e' :: 'v' :: 't' :: '_' :: Address.hexEncode digest.toList),
    validId_eventId digest⟩

def CanonicalEventEnvelope.expectedEventId (e : CanonicalEventEnvelope) : EventId :=
  computeEventId B e.chainId e.blockHeight e.transactionId e.eventIndex e.eventKind schemaMajor

inductive BlockError
  | missingSourceBlockHashes
  | mixedChain
  | mixedHeight
  | mixedTime
  | mixedConfirmation
  | duplicateEventId (eventId : EventId)
  | invalidEventId (actual expected : EventId)
  | invalidEventOrder (reason : String)

/-- Transaction indices do not regress, and event indices count up from zero
within each transaction. -/
def validateOrder (previous : Option (UInt32 × UInt32 × TransactionId))
    (event : CanonicalEventEnvelope) : Except BlockError Unit :=
  match previous with
  | none =>
    if event.eventIndex = 0 then return
    else .error (.invalidEventOrder
      "the first canonical event in a transaction must have index zero")
  | some (previousTransaction, previousEvent, previousIdentity) =>
    match compare event.transactionIndex previousTransaction with
    | .lt => .error (.invalidEventOrder "transaction index regressed")
    | .eq =>
      if event.transactionId ≠ previousIdentity then
        .error (.invalidEventOrder
          "one transaction index contains multiple transaction identities")
      else if previousEvent.toNat + 1 = event.eventIndex.toNat then return
      else .error (.invalidEventOrder
        "canonical event indices are not contiguous within a transaction")
    | .gt =>
      if event.eventIndex = 0 then return
      else .error (.invalidEventOrder
        "a new transaction must begin with canonical event index zero")

/-- The loop over a block's events, with the identities seen so far and the
place of the event before. -/
def validateEventsFrom (chainId : ChainId) (blockHeight : BlockHeight) (blockTime : ProtocolTime)
    (confirmationClass : ConfirmationClass) (seen : List EventId)
    (previous : Option (UInt32 × UInt32 × TransactionId)) :
    List CanonicalEventEnvelope → Except BlockError Unit
  | [] => return
  | event :: rest => do
    if event.chainId ≠ chainId then throw .mixedChain
    if event.blockHeight ≠ blockHeight then throw .mixedHeight
    if event.blockTime ≠ blockTime then throw .mixedTime
    if event.confirmationClass ≠ confirmationClass then throw .mixedConfirmation
    if event.eventId ∈ seen then throw (.duplicateEventId event.eventId)
    if event.eventId ≠ event.expectedEventId B then
      throw (.invalidEventId event.eventId (event.expectedEventId B))
    validateOrder previous event
    validateEventsFrom chainId blockHeight blockTime confirmationClass (event.eventId :: seen)
      (some (event.transactionIndex, event.eventIndex, event.transactionId)) rest

def validateEvents (chainId : ChainId) (blockHeight : BlockHeight) (blockTime : ProtocolTime)
    (confirmationClass : ConfirmationClass) (events : List CanonicalEventEnvelope) :
    Except BlockError Unit :=
  validateEventsFrom B chainId blockHeight blockTime confirmationClass [] none events

def blockHashContext : String := "hyperliquid-alpha-desk/canonical-block/v1"

def hashedEvent (e : CanonicalEventEnvelope) : List UInt8 :=
  beBytes 4 e.transactionIndex.toNat ++ (beBytes 4 e.eventIndex.toNat ++ (frame e.eventId.asBytes ++
    (frame (utf8 e.eventKind.asWireName) ++ (frame (utf8 e.schemaVersion) ++
      (beBytes 8 e.marketIds.length ++ (e.marketIds.flatMap (fun m => frame m.asBytes) ++
        (beBytes 8 e.accountIds.length ++ (e.accountIds.flatMap (fun a => frame a.toList) ++
          e.payloadHash.toList))))))))

def computeBlockHash (chainId : ChainId) (blockHeight : BlockHeight) (blockTime : ProtocolTime)
    (events : List CanonicalEventEnvelope) : Hash32 :=
  B.deriveKey blockHashContext
    (frame chainId.asBytes ++ (beBytes 8 blockHeight.toNat ++ (beBytes 8 blockTime.unixMicros ++
      (beBytes 8 events.length ++ events.flatMap hashedEvent))))

/-- A block of canonical events. It exists only with at least one source's block
hash and with events that passed validation. -/
structure BlockEnvelope (B : Blake3) where
  chainId : ChainId
  blockHeight : BlockHeight
  blockTime : ProtocolTime
  confirmationClass : ConfirmationClass
  events : List CanonicalEventEnvelope
  sourceBlockHashes : Std.ExtTreeMap SourceId Hash32
  sourced : sourceBlockHashes.isEmpty = false
  events_valid : validateEvents B chainId blockHeight blockTime confirmationClass events = .ok ()

namespace BlockEnvelope

variable {B : Blake3}

def tryNew (B : Blake3) (chainId : ChainId) (blockHeight : BlockHeight) (blockTime : ProtocolTime)
    (confirmationClass : ConfirmationClass) (events : List CanonicalEventEnvelope)
    (sourceBlockHashes : Std.ExtTreeMap SourceId Hash32) : Except BlockError (BlockEnvelope B) :=
  if hs : sourceBlockHashes.isEmpty = false then
    match hv : validateEvents B chainId blockHeight blockTime confirmationClass events with
    | .ok () => .ok ⟨chainId, blockHeight, blockTime, confirmationClass, events,
        sourceBlockHashes, hs, hv⟩
    | .error e => .error e
  else .error .missingSourceBlockHashes

def canonicalBlockHash (b : BlockEnvelope B) : Hash32 :=
  computeBlockHash B b.chainId b.blockHeight b.blockTime b.events

end BlockEnvelope

namespace CanonicalEventEnvelope

/-- What two reports of one event have in common. -/
abbrev Content := String × ChainId × BlockHeight × ProtocolTime × TransactionId × UInt32 × UInt32 ×
  EventId × List MarketId × List Address × Hash32 × EventPayload × List UInt8 × Option EventId

def content (e : CanonicalEventEnvelope) : Content :=
  (e.schemaVersion, e.chainId, e.blockHeight, e.blockTime, e.transactionId, e.transactionIndex,
    e.eventIndex, e.eventId, e.marketIds, e.accountIds, e.payloadHash, e.payload,
    e.encodedPayload, e.supersededEventId)

/-- Payloads are compared by value in the source; here they are compared as they are, which
is no difference beside the comparison of the bytes they stand for. -/
def hasSameCanonicalContent (a b : CanonicalEventEnvelope) : Bool :=
  a.schemaVersion = b.schemaVersion && a.chainId = b.chainId && a.blockHeight = b.blockHeight &&
    a.blockTime = b.blockTime && a.transactionId = b.transactionId &&
    a.transactionIndex = b.transactionIndex && a.eventIndex = b.eventIndex &&
    a.eventId = b.eventId && a.marketIds = b.marketIds && a.accountIds = b.accountIds &&
    a.payloadHash = b.payloadHash && a.payload = b.payload &&
    a.encodedPayload = b.encodedPayload && a.supersededEventId = b.supersededEventId

variable {a b : CanonicalEventEnvelope}

theorem hasSameCanonicalContent_iff :
    a.hasSameCanonicalContent b = true ↔ a.content = b.content := by
  simp [hasSameCanonicalContent, content, and_assoc]

theorem hashedEvent_of_content (h : a.content = b.content) : hashedEvent a = hashedEvent b := by
  simp only [content, Prod.mk.injEq] at h
  simp [hashedEvent, eventKind, h]

inductive EvidenceMergeError
  | canonicalContentMismatch
  | sourceEvidenceConflict (sourceId : SourceId) (existingHash conflictingHash : Hash32)

/-- The first piece of evidence that conflicts with one of the other envelope. -/
def evidenceConflict (a b : CanonicalEventEnvelope) : Option (SourceEvidence × SourceEvidence) :=
  (a.sourceEvidence.product b.sourceEvidence).find? fun p => p.1.conflicts p.2

theorem sortDedup_append_ne_nil (a : CanonicalEventEnvelope) (l : List SourceEvidence) :
    sortDedup (a.sourceEvidence ++ l) ≠ [] := by
  obtain ⟨x, hx⟩ := List.exists_mem_of_ne_nil _ a.evidenced
  exact List.ne_nil_of_mem (mem_sortDedup_iff.mpr (List.mem_append_left l hx))

/-- The envelope with the evidence of both, in order and without repetition. -/
def withEvidenceOf (a b : CanonicalEventEnvelope) : CanonicalEventEnvelope :=
  { a with
    sourceEvidence := sortDedup (a.sourceEvidence ++ b.sourceEvidence)
    evidenced := sortDedup_append_ne_nil a b.sourceEvidence }

def mergeMatchingSourceEvidence (a b : CanonicalEventEnvelope) :
    Except EvidenceMergeError CanonicalEventEnvelope :=
  if !a.hasSameCanonicalContent b then .error .canonicalContentMismatch
  else match a.evidenceConflict b with
    | some (existing, conflicting) => .error (.sourceEvidenceConflict existing.sourceId
        existing.contentHash conflicting.contentHash)
    | none => .ok (a.withEvidenceOf b)

variable {m : CanonicalEventEnvelope}

@[simp] theorem content_withEvidenceOf : (a.withEvidenceOf b).content = a.content := rfl

theorem evidenceConflict_eq_none_iff :
    a.evidenceConflict b = none ↔
      ∀ x ∈ a.sourceEvidence, ∀ y ∈ b.sourceEvidence, x.conflicts y = false := by
  simp only [evidenceConflict, List.find?_eq_none, Bool.not_eq_true, Prod.forall]
  constructor
  · intro h x hx y hy
    exact h x y (List.pair_mem_product.mpr ⟨hx, hy⟩)
  · intro h x y hxy
    obtain ⟨hx, hy⟩ := List.pair_mem_product.mp hxy
    exact h x hx y hy

theorem mergeMatchingSourceEvidence_eq_ok_iff :
    a.mergeMatchingSourceEvidence b = .ok m ↔
      a.content = b.content ∧
      (∀ x ∈ a.sourceEvidence, ∀ y ∈ b.sourceEvidence, x.conflicts y = false) ∧
      m = a.withEvidenceOf b := by
  rw [← hasSameCanonicalContent_iff, ← evidenceConflict_eq_none_iff]
  unfold mergeMatchingSourceEvidence
  constructor
  · intro h
    split at h
    next => cases h
    next hc =>
      split at h
      next => cases h
      next hn => exact ⟨by simpa using hc, hn, (Except.ok.inj h).symm⟩
  · rintro ⟨hc, hn, rfl⟩
    simp [hc, hn]

theorem merge_ne_mismatch (h : a.content = b.content) :
    a.mergeMatchingSourceEvidence b ≠ .error .canonicalContentMismatch := by
  intro hm
  unfold mergeMatchingSourceEvidence at hm
  rw [hasSameCanonicalContent_iff.mpr h] at hm
  simp only [Bool.not_true, Bool.false_eq_true, if_false] at hm
  split at hm <;> cases hm

end CanonicalEventEnvelope

end AlphaDesk
