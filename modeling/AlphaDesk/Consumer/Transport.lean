import AlphaDesk.Consumer.Interleaving

/-! # Messages on the bus

The publisher sends the fields of a message as the texts of headers, and the consumer
reads them back. The messages of a block are read as the deliveries that are made for
it, so the blocks that are published are assembled, in whatever order the messages come.
-/

namespace AlphaDesk

open List Except BlockAssembler

variable {B : Blake3} {K : EnvelopeCodec}

/-- A message as the bus carries it. -/
structure JetStreamMessage where
  subject : String
  headers : Option (List (String × String))
  payload : List UInt8

def PublicationMessage.toJetStream (m : PublicationMessage) : JetStreamMessage where
  subject := m.subject.asStr
  headers := some [("Nats-Msg-Id", m.messageId), ("Nats-Expected-Stream", m.stream),
    ("Alpha-Desk-Schema", m.schemaVersion), ("Alpha-Desk-Chain", m.chainId.value),
    ("Alpha-Desk-Block-Height", String.ofList (Nat.toDigits 10 m.blockHeight.toNat)),
    ("Alpha-Desk-Block-Hash", m.canonicalBlockHash.toHex),
    ("Alpha-Desk-Archive-Receipt", m.archiveReceiptId),
    ("Alpha-Desk-Archive-Manifest-SHA256", m.archiveManifestSha256.toHex),
    ("Alpha-Desk-Publication-SHA256", m.publicationSha256.toHex)]
  payload := m.payload

def header (headers : List (String × String)) (name : String) :
    Except JetStreamReplayError String :=
  Except.ofOption (.decode .malformed) (headers.lookup name)

/-- Digits, behind a plus sign or not. -/
def parseU64 (text : String) : Except JetStreamReplayError UInt64 :=
  let digits := if text.toList.head? = some '+' then text.toList.tail else text.toList
  if digits ≠ [] ∧ digits.all Digits.isDigit = true ∧ Digits.number digits < UInt64.size then
    .ok (.ofNat (Digits.number digits))
  else .error (.decode .malformed)

/-- Hexadecimal digits of either case. -/
def parseHash32 (value : String) : Except JetStreamReplayError Hash32 :=
  Except.ofOption (.decode .malformed) (Hash32.ofHex (toAsciiLowercase value))

def deliveryFromJetstream (K : EnvelopeCodec) (message : JetStreamMessage) :
    Except JetStreamReplayError CanonicalDelivery := do
  let headers ← Except.ofOption (.decode .malformed) message.headers
  let subject ← (CanonicalSubject.parse message.subject).mapError .decode
  let messageId ← header headers "Nats-Msg-Id"
  let schema ← header headers "Alpha-Desk-Schema"
  let chainId ← header headers "Alpha-Desk-Chain"
  let blockHeight ← header headers "Alpha-Desk-Block-Height" >>= parseU64
  let blockHash ← header headers "Alpha-Desk-Block-Hash" >>= parseHash32
  let archiveReceiptId ← header headers "Alpha-Desk-Archive-Receipt"
  let archiveManifestSha256 ← header headers "Alpha-Desk-Archive-Manifest-SHA256" >>= parseHash32
  let publicationSha256 ← header headers "Alpha-Desk-Publication-SHA256" >>= parseHash32
  if K.sha256 message.payload ≠ publicationSha256 then throw .hashMismatch
  let delivery ← CanonicalDelivery.tryNew K subject messageId schema chainId blockHeight blockHash
    archiveReceiptId archiveManifestSha256 message.payload
  if delivery.publicationSha256 ≠ publicationSha256 then throw .hashMismatch
  return delivery

theorem parseU64_toDigits (n : UInt64) :
    parseU64 (String.ofList (Nat.toDigits 10 n.toNat)) = .ok n := by
  have hdigits := Digits.all_isDigit_toDigits n.toNat
  have hsign : (Nat.toDigits 10 n.toNat).head? ≠ some '+' := by
    intro hhead
    have := all_eq_true.mp hdigits _ (mem_of_mem_head? hhead)
    contradiction
  simp [parseU64, hsign, Digits.number_toDigits, hdigits, n.toNat_lt]

theorem parseHash32_toHex (h : Hash32) : parseHash32 h.toHex = .ok h := by
  have hlower : ∀ c ∈ Address.hexEncode h.toList, c.toLower = c := by
    intro c hc
    obtain ⟨b, -, hc⟩ := mem_flatMap.mp hc
    have hdigit : ∀ n < 16, (Address.hexDigit n).toLower = Address.hexDigit n := by decide
    have hb := b.toNat_lt
    simp only [mem_cons, not_mem_nil, or_false] at hc
    obtain rfl | rfl := hc
    · exact hdigit _ (by omega)
    · exact hdigit _ (by omega)
  have heq : toAsciiLowercase h.toHex = h.toHex := by
    rw [toAsciiLowercase, Hash32.toHex, String.toList_ofList, map_congr_left hlower, map_id']
  rw [parseHash32, heq, Hash32.ofHex_toHex]
  rfl

theorem parse_subjectForEventKind (kind : EventKind) :
    CanonicalSubject.parse (subjectForEventKind kind).asStr = .ok (.forEventKind kind) := by
  cases kind <;> rfl

/-- The delivery that is read from a message on the bus is the one of its fields. -/
theorem read_of_tryNew {block : BlockEnvelope B} {receipt : ArchiveReceipt} {subject : Subject}
    {subject' : CanonicalSubject} {messageId schema : String} {payload : List UInt8}
    {m : PublicationMessage} (hids : AdmissibleIds block receipt)
    (hsubject : CanonicalSubject.parse subject.asStr = .ok subject')
    (h : PublicationMessage.tryNew K subject messageId schema block receipt payload = .ok m) :
    deliveryFromJetstream K m.toJetStream =
      .ok (deliveryFor K block receipt subject' messageId schema payload) := by
  revert h
  fun_cases PublicationMessage.tryNew K subject messageId schema block receipt payload with
  | case1 hid hschema hlower hsize =>
    rintro ⟨⟩
    simp [deliveryFromJetstream, PublicationMessage.toJetStream, header, lookup_cons, hsubject,
      Except.mapError, parseU64_toDigits, parseHash32_toHex, CanonicalDelivery.tryNew,
      CanonicalDelivery.validateIdentity, hid, hschema, ← hlower, hsize.1, hids.chainId,
      hids.receiptId, deliveryFor]
  | _ => rintro ⟨⟩

theorem Publication.read {P : Publication B K} {batch : CommittedPublicationBatch}
    (h : CommittedPublicationBatch.tryNew K P.block P.receipt = .ok batch) :
    Forall₂ (fun m d => deliveryFromJetstream K m.toJetStream = .ok d) batch.messages
      P.deliveries := by
  obtain ⟨-, h⟩ := of_check h
  obtain ⟨_, -, h⟩ := of_bind h
  obtain ⟨payload, hpayload, h⟩ := of_bind h
  obtain ⟨marker, hmarker, h⟩ := of_bind h
  obtain ⟨events, hevents, h⟩ := of_bind h
  obtain rfl := ok.inj h
  refine .cons ?_ ?_
  · obtain ⟨payload', hpayload', hmade⟩ := of_bind P.marker_made
    -- both services lay out the marker in the same way
    obtain ⟨tag, htag, rfl⟩ := encodeMarker_eq_ok hpayload
    obtain ⟨tag', htag', rfl, -⟩ := encodeCommittedBlockMarker_eq_ok (mapError_eq_ok.mp hpayload')
    obtain rfl := Option.mem_unique htag htag'
    rw [tryNew_eq_deliveryFor hmade]
    exact read_of_tryNew P.admissible rfl hmarker
  · rw [P.events_eq, forall₂_map_right_iff]
    refine (mapM_eq_ok.mp hevents).flip.imp fun m event hm => ?_
    obtain ⟨payload, hencoded, hm⟩ := of_bind hm
    rw [eventDelivery, bytes_of_encodeToVec (mapError_eq_ok.mp hencoded)]
    exact read_of_tryNew P.admissible (parse_subjectForEventKind _) hm

/-- Up to 64 published blocks of distinct hashes. Whatever the order in which their messages come
over the bus, each is read, and exactly these blocks are assembled. -/
theorem published_blocks_assembled {Ps : List (Publication B K)}
    {batches : List CommittedPublicationBatch} {sent : List PublicationMessage}
    (hcount : Ps.length ≤ maxPendingBlocks) (hPs : (Ps.map Publication.hash).Nodup)
    (hbatches : Ps.mapM (fun P => CommittedPublicationBatch.tryNew K P.block P.receipt) =
      .ok batches)
    (hsent : sent.Perm (batches.flatMap CommittedPublicationBatch.messages)) :
    ∃ deliveries, sent.mapM (fun m => deliveryFromJetstream K m.toJetStream) = .ok deliveries ∧
      (assembledBlocks B K deliveries).Perm (Ps.map Publication.block) := by
  have hread := rel_flatMap (mapM_eq_ok.mp hbatches).flip fun _ _ h => Publication.read h
  obtain ⟨deliveries, hread, hperm⟩ := perm_comp_forall₂ hsent hread
  have hall : (Ps.filter fun P => P.CompleteIn deliveries) = Ps :=
    filter_eq_self.mpr fun P hP => decide_eq_true fun d hd =>
      hperm.mem_iff.mpr (mem_flatMap.mpr ⟨P, hP, hd⟩)
  have hassembled := assembledBlocks_perm hPs hcount (fresh_of_perm hPs hperm)
  rw [hall] at hassembled
  exact ⟨deliveries, mapM_eq_ok.mpr hread, hassembled⟩

theorem published_blocks_assembled_haltedPublication :
    ∃ (sent : List PublicationMessage) (deliveries : List CanonicalDelivery),
      sent.mapM (fun m => deliveryFromJetstream haltCodec m.toJetStream) = .ok deliveries ∧
      (assembledBlocks _ haltCodec deliveries).Perm [(haltedPublication false).block] := by
  obtain ⟨batches, hbatches, -⟩ : ∃ batches, [haltedPublication false].mapM (fun P =>
      CommittedPublicationBatch.tryNew haltCodec P.block P.receipt) = .ok batches ∧
      batches.length = 1 := by
    decide +kernel
  have hPs : ([haltedPublication false].map Publication.hash).Nodup := nodup_singleton _
  exact ⟨_, published_blocks_assembled (by decide) hPs hbatches (reverse_perm _)⟩

end AlphaDesk
