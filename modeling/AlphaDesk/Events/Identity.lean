import AlphaDesk.Domain.Text
import AlphaDesk.Events.Block
import Mathlib.Data.Set.Function

/-! # What a block hash binds

The preimages of block hashes and event identities are sequences of framed and
counted fields, so they can be read back in one way only. Where the digests do not
collide, blocks of one hash therefore report the same events. What the constructor of
envelopes builds is encoded as its hash says.
-/

namespace AlphaDesk

open Bytes List

/-- The codec of payloads: every constructor of an envelope keeps the bytes that it encoded the
payload to, or that it decoded the payload from. -/
structure PayloadCodec where
  encodeToVec : EventPayload → Except ContractError (List UInt8)
  decodePreserving : EventKind → List UInt8 → Except ContractError EventPayload
  decode_encode : ∀ {payload bytes}, encodeToVec payload = .ok bytes →
    decodePreserving payload.kind bytes = .ok payload

namespace CanonicalEventEnvelope

/-- The payload is the one its bytes stand for, and its hash is theirs. -/
structure Encoded (B : Blake3) (C : PayloadCodec) (e : CanonicalEventEnvelope) : Prop where
  payload : C.decodePreserving e.eventKind e.encodedPayload = .ok e.payload
  hash : e.payloadHash = B.hash e.encodedPayload

/-- The lengths that the digests frame fit in their eight bytes. -/
structure Framed (e : CanonicalEventEnvelope) : Prop where
  chainId : e.chainId.asBytes.length < 256 ^ 8
  transactionId : e.transactionId.asBytes.length < 256 ^ 8
  eventId : e.eventId.asBytes.length < 256 ^ 8
  schemaVersion : (utf8 e.schemaVersion).length < 256 ^ 8
  marketIds : e.marketIds.length < 256 ^ 8
  market : ∀ m ∈ e.marketIds, m.asBytes.length < 256 ^ 8
  accountIds : e.accountIds.length < 256 ^ 8

def identityInput (e : CanonicalEventEnvelope) : List UInt8 :=
  frame e.chainId.asBytes ++ (beBytes 8 e.blockHeight.toNat ++ (frame e.transactionId.asBytes ++
    (beBytes 4 e.eventIndex.toNat ++ (frame (utf8 e.eventKind.asWireName) ++
      beBytes 8 schemaMajor))))

end CanonicalEventEnvelope

theorem toNat_lt_pow (n : UInt32) : n.toNat < 256 ^ 4 := n.toNat_lt

theorem toNat_lt_pow' (n : UInt64) : n.toNat < 256 ^ 8 := n.toNat_lt

theorem length_wireName_lt (k : EventKind) : (utf8 k.asWireName).length < 256 ^ 8 := by
  have h : ∀ k ∈ EventKind.all, (utf8 k.asWireName).length < 256 ^ 8 := by decide +kernel
  exact h k (EventKind.mem_all k)

variable {a b : CanonicalEventEnvelope}

theorem transactionId_of_identityInput (ha : a.Framed) (hb : b.Framed)
    (h : a.identityInput = b.identityInput) : a.transactionId = b.transactionId := by
  obtain ⟨-, h⟩ := frame_append_cancel ha.chainId hb.chainId h
  obtain ⟨-, h⟩ := beBytes_append_cancel (toNat_lt_pow' _) (toNat_lt_pow' _) h
  obtain ⟨ht, -⟩ := frame_append_cancel ha.transactionId hb.transactionId h
  exact StringId.asBytes_injective ht

/-- What the digest of a block reads of an event. -/
structure SameHashed (a b : CanonicalEventEnvelope) : Prop where
  transactionIndex : a.transactionIndex = b.transactionIndex
  eventIndex : a.eventIndex = b.eventIndex
  eventId : a.eventId = b.eventId
  eventKind : a.eventKind = b.eventKind
  schemaVersion : a.schemaVersion = b.schemaVersion
  marketIds : a.marketIds = b.marketIds
  accountIds : a.accountIds = b.accountIds
  payloadHash : a.payloadHash = b.payloadHash

theorem hashedEvent_append_cancel (x y : List UInt8) (ha : a.Framed) (hb : b.Framed)
    (h : hashedEvent a ++ x = hashedEvent b ++ y) : SameHashed a b ∧ x = y := by
  simp only [hashedEvent, append_assoc] at h
  obtain ⟨htx, h⟩ := beBytes_append_cancel (toNat_lt_pow _) (toNat_lt_pow _) h
  obtain ⟨hindex, h⟩ := beBytes_append_cancel (toNat_lt_pow _) (toNat_lt_pow _) h
  obtain ⟨hid, h⟩ := frame_append_cancel ha.eventId hb.eventId h
  obtain ⟨hkind, h⟩ := frame_append_cancel (length_wireName_lt _) (length_wireName_lt _) h
  obtain ⟨hschema, h⟩ := frame_append_cancel ha.schemaVersion hb.schemaVersion h
  obtain ⟨hmarkets, h⟩ := beBytes_append_cancel ha.marketIds hb.marketIds h
  obtain ⟨hm, h⟩ := flatMap_append_cancel (P := fun m : MarketId => m.asBytes.length < 256 ^ 8)
    (R := Eq) (fun m m' x y hm hm' h => by
      obtain ⟨he, hxy⟩ := frame_append_cancel hm hm' h
      exact ⟨StringId.asBytes_injective he, hxy⟩) hmarkets ha.market hb.market h
  obtain ⟨haccounts, h⟩ := beBytes_append_cancel ha.accountIds hb.accountIds h
  obtain ⟨hacc, h⟩ := flatMap_append_cancel (P := fun _ : Address => True) (R := Eq)
    (fun v v' x y _ _ h => by
      obtain ⟨he, hxy⟩ := frame_append_cancel (by simp) (by simp) h
      exact ⟨Vector.toList_inj.mp he, hxy⟩) haccounts (fun _ _ => trivial) (fun _ _ => trivial) h
  obtain ⟨hhash, hxy⟩ := append_inj h (by simp)
  refine ⟨⟨UInt32.toNat.inj htx, UInt32.toNat.inj hindex, StringId.asBytes_injective hid,
    EventKind.asWireName_injective (utf8_injective hkind), utf8_injective hschema,
    forall₂_eq_eq_eq ▸ hm, forall₂_eq_eq_eq ▸ hacc, Vector.toList_inj.mp hhash⟩, hxy⟩

variable {B : Blake3} {chainId : ChainId} {blockHeight : BlockHeight} {blockTime : ProtocolTime}
  {confirmationClass : ConfirmationClass} {e : CanonicalEventEnvelope}

/-- What block validation says of each event. -/
structure CanonicalEventEnvelope.BelongsTo (B : Blake3) (chainId : ChainId)
    (blockHeight : BlockHeight) (blockTime : ProtocolTime) (confirmationClass : ConfirmationClass)
    (e : CanonicalEventEnvelope) : Prop where
  chainId : e.chainId = chainId
  blockHeight : e.blockHeight = blockHeight
  blockTime : e.blockTime = blockTime
  confirmationClass : e.confirmationClass = confirmationClass
  eventId : e.eventId = e.expectedEventId B

/-- The events pass one by one, and the identity of none has been seen before. -/
theorem belongsTo_of_validateEventsFrom {seen : List EventId}
    {previous : Option (UInt32 × UInt32 × TransactionId)} {events : List CanonicalEventEnvelope}
    (h : validateEventsFrom B chainId blockHeight blockTime confirmationClass seen previous events =
      .ok ()) :
    (∀ e ∈ events, e.BelongsTo B chainId blockHeight blockTime confirmationClass) ∧
      (∀ e ∈ events, e.eventId ∉ seen) ∧ (events.map (·.eventId)).Nodup := by
  induction events generalizing seen previous with
  | nil => simp
  | cons event rest ih =>
    obtain ⟨hc, h⟩ := Except.of_check h
    obtain ⟨hh, h⟩ := Except.of_check h
    obtain ⟨ht, h⟩ := Except.of_check h
    obtain ⟨hk, h⟩ := Except.of_check h
    obtain ⟨hs, h⟩ := Except.of_check h
    obtain ⟨hi, h⟩ := Except.of_check h
    obtain ⟨_, -, h⟩ := Except.of_bind h
    obtain ⟨hall, hfresh, hnodup⟩ := ih h
    refine ⟨?_, ?_, ?_⟩
    · rintro e (_ | ⟨_, he⟩)
      · exact ⟨not_not.mp hc, not_not.mp hh, not_not.mp ht, not_not.mp hk, not_not.mp hi⟩
      · exact hall e he
    · rintro e (_ | ⟨_, he⟩)
      · exact hs
      · exact fun hmem => hfresh e he (mem_cons_of_mem _ hmem)
    · rw [map_cons, nodup_cons]
      refine ⟨?_, hnodup⟩
      intro hmem
      obtain ⟨e, he, heq⟩ := mem_map.mp hmem
      exact hfresh e he (heq ▸ mem_cons_self)

theorem BlockEnvelope.belongsTo (b : BlockEnvelope B) (he : e ∈ b.events) :
    e.BelongsTo B b.chainId b.blockHeight b.blockTime b.confirmationClass :=
  (belongsTo_of_validateEventsFrom b.events_valid).1 e he

theorem digest_of_expectedEventId {a b : CanonicalEventEnvelope}
    (h : a.expectedEventId B = b.expectedEventId B) :
    B.deriveKey eventIdContext a.identityInput = B.deriveKey eventIdContext b.identityInput := by
  have hs := String.ofList_injective (congrArg StringId.value h)
  simp only [cons.injEq, true_and] at hs
  have hd := congrArg Address.hexDecode hs
  rw [hexDecode_hexEncode, hexDecode_hexEncode] at hd
  exact Vector.toList_inj.mp (Option.some.inj hd)

namespace BlockEnvelope

def hashInput (b : BlockEnvelope B) : List UInt8 :=
  frame b.chainId.asBytes ++ (beBytes 8 b.blockHeight.toNat ++ (beBytes 8 b.blockTime.unixMicros ++
    (beBytes 8 b.events.length ++ b.events.flatMap hashedEvent)))

structure Framed (b : BlockEnvelope B) : Prop where
  chainId : b.chainId.asBytes.length < 256 ^ 8
  events : b.events.length < 256 ^ 8
  event : ∀ e ∈ b.events, e.Framed

/-- The digests do not collide on what the blocks hash. -/
structure CollisionFree (blocks : Set (BlockEnvelope B)) : Prop where
  block : Set.InjOn (B.deriveKey blockHashContext) (hashInput '' blocks)
  event : Set.InjOn (B.deriveKey eventIdContext)
    {x | ∃ b ∈ blocks, ∃ e ∈ b.events, x = e.identityInput}
  payload : Set.InjOn B.hash {x | ∃ b ∈ blocks, ∃ e ∈ b.events, x = e.encodedPayload}

/-- Blocks that report the same events at the same place. -/
structure SameContent (a b : BlockEnvelope B) : Prop where
  chainId : a.chainId = b.chainId
  blockHeight : a.blockHeight = b.blockHeight
  blockTime : a.blockTime = b.blockTime
  events : a.events.map (·.content) = b.events.map (·.content)

/-- A block all of whose events are as their constructors leave them and supersede nothing. -/
structure Reported (C : PayloadCodec) (b : BlockEnvelope B) : Prop where
  framed : b.Framed
  encoded : ∀ e ∈ b.events, e.Encoded B C
  supersedes : ∀ e ∈ b.events, e.supersededEventId = none

variable {C : PayloadCodec} {blocks : Set (BlockEnvelope B)} {a b : BlockEnvelope B}

/-- Events that hash alike in blocks of one place have the same content: their transactions are
bound through their identities, their payloads through the payload hashes. -/
theorem content_eq_of_sameHashed (hfree : CollisionFree blocks) (ha : a ∈ blocks) (hb : b ∈ blocks)
    (hra : a.Reported C) (hrb : b.Reported C) (hc : a.chainId = b.chainId)
    (hh : a.blockHeight = b.blockHeight) (ht : a.blockTime = b.blockTime)
    {x y : CanonicalEventEnvelope} (hx : x ∈ a.events) (hy : y ∈ b.events) (h : SameHashed x y) :
    x.content = y.content := by
  have bx := a.belongsTo hx
  have by' := b.belongsTo hy
  have hchain : x.chainId = y.chainId := bx.chainId.trans (hc.trans by'.chainId.symm)
  have hheight : x.blockHeight = y.blockHeight :=
    bx.blockHeight.trans (hh.trans by'.blockHeight.symm)
  have htime : x.blockTime = y.blockTime := bx.blockTime.trans (ht.trans by'.blockTime.symm)
  have hinput : x.identityInput = y.identityInput := by
    refine hfree.event ⟨a, ha, x, hx, rfl⟩ ⟨b, hb, y, hy, rfl⟩ (digest_of_expectedEventId ?_)
    rw [← bx.eventId, ← by'.eventId, h.eventId]
  have htx : x.transactionId = y.transactionId :=
    transactionId_of_identityInput (hra.framed.event x hx) (hrb.framed.event y hy) hinput
  have hbytes : x.encodedPayload = y.encodedPayload := by
    refine hfree.payload ⟨a, ha, x, hx, rfl⟩ ⟨b, hb, y, hy, rfl⟩ ?_
    rw [← (hra.encoded x hx).hash, ← (hrb.encoded y hy).hash, h.payloadHash]
  have hpayload : x.payload = y.payload := by
    have hp := (hra.encoded x hx).payload
    rw [h.eventKind, hbytes, (hrb.encoded y hy).payload] at hp
    exact (Except.ok.inj hp).symm
  simp only [CanonicalEventEnvelope.content, Prod.mk.injEq]
  exact ⟨h.schemaVersion, hchain, hheight, htime, htx, h.transactionIndex, h.eventIndex, h.eventId,
    h.marketIds, h.accountIds, h.payloadHash, hpayload, hbytes,
    (hra.supersedes x hx).trans (hrb.supersedes y hy).symm⟩

theorem sameContent_of_canonicalBlockHash (hfree : CollisionFree blocks) (ha : a ∈ blocks)
    (hb : b ∈ blocks) (hra : a.Reported C) (hrb : b.Reported C)
    (h : a.canonicalBlockHash = b.canonicalBlockHash) : a.SameContent b := by
  have hinput : a.hashInput = b.hashInput :=
    hfree.block (Set.mem_image_of_mem _ ha) (Set.mem_image_of_mem _ hb) h
  obtain ⟨hc, hinput⟩ := frame_append_cancel hra.framed.chainId hrb.framed.chainId hinput
  obtain ⟨hh, hinput⟩ := beBytes_append_cancel (toNat_lt_pow' _) (toNat_lt_pow' _) hinput
  have hmicros : ∀ t : ProtocolTime, t.unixMicros < 256 ^ 8 := fun t => t.lt.trans (by norm_num)
  obtain ⟨ht, hinput⟩ := beBytes_append_cancel (hmicros _) (hmicros _) hinput
  obtain ⟨hlen, hinput⟩ := beBytes_append_cancel hra.framed.events hrb.framed.events hinput
  have hchain : a.chainId = b.chainId := StringId.asBytes_injective hc
  have hheight : a.blockHeight = b.blockHeight := UInt64.toNat.inj hh
  have htime : a.blockTime = b.blockTime := by
    cases hta : a.blockTime
    cases htb : b.blockTime
    simpa [hta, htb] using ht
  rw [← append_nil (a.events.flatMap _), ← append_nil (b.events.flatMap _)] at hinput
  obtain ⟨hall, -⟩ := flatMap_append_cancel
    (P := fun e => e.Framed) (R := SameHashed)
    (fun x y u v hx hy huv => hashedEvent_append_cancel u v hx hy huv) hlen hra.framed.event
    hrb.framed.event hinput
  refine ⟨hchain, hheight, htime, ?_⟩
  rw [← forall₂_eq_eq_eq, forall₂_map_left_iff, forall₂_map_right_iff]
  rw [forall₂_iff_get] at hall ⊢
  refine ⟨hall.1, ?_⟩
  intro i hia hib
  exact content_eq_of_sameHashed hfree ha hb hra hrb hchain hheight htime (get_mem _ _)
    (get_mem _ _) (hall.2 i hia hib)

end BlockEnvelope

structure SchemaVersion where
  major : ℕ
  minor : ℕ
  patch : ℕ
  pre : String
  build : String

/-- The parser of version texts; an error is its message. -/
structure VersionParser where
  parse : String → Except String SchemaVersion

def validateSchemaVersion (V : VersionParser) (value : String) : Except ContractError Unit := do
  if value = "" then throw (.missing "schema_version")
  let version ← (V.parse value).mapError fun error => .invalid "schema_version"
    ("expected canonical numeric MAJOR.MINOR.PATCH: " ++ error)
  if version.pre ≠ "" ∨ version.build ≠ "" then
    throw (.invalid "schema_version" "pre-release and build metadata are forbidden")
  if version.major ≠ schemaMajor then throw (.unsupportedSchema value)

def required (value field : String) : Except ContractError RequiredText :=
  if value.isEmpty then .error (.missing field)
  else if h : validId value = true then .ok ⟨value, h⟩
  else .error (.invalid field "leading or trailing whitespace is forbidden")

structure CanonicalEventInput where
  schemaVersion : String
  chainId : ChainId
  blockHeight : BlockHeight
  blockTime : ProtocolTime
  transactionId : TransactionId
  transactionIndex : UInt32
  canonicalEventIndex : UInt32
  marketIds : List MarketId
  accountIds : List Address
  sourceEvidence : List SourceEvidence
  confirmationClass : ConfirmationClass
  observedAt : KnownTime
  ingestedAt : KnownTime
  canonicalizedAt : KnownTime
  parserVersion : String
  payload : EventPayload

namespace CanonicalEventEnvelope

variable (B : Blake3) (C : PayloadCodec) (V : VersionParser)

def lifecycleReason : String := "expected observed_at <= ingested_at <= canonicalized_at"

def fromInput (input : CanonicalEventInput) : Except ContractError CanonicalEventEnvelope := do
  validateSchemaVersion V input.schemaVersion
  if he : input.sourceEvidence = [] then throw (.missing "source_evidence")
  else
    if input.ingestedAt.unixMicros < input.observedAt.unixMicros ∨
        input.canonicalizedAt.unixMicros < input.ingestedAt.unixMicros then
      throw (.invalid "lifecycle_times" lifecycleReason)
    let parserVersion ← required input.parserVersion "parser_version"
    match hv : input.payload.validate with
    | .error error => throw error
    | .ok () =>
      let payloadBytes ← C.encodeToVec input.payload
      match hb : input.payload.validateTradeAccountBinding input.accountIds with
      | .error error => throw error
      | .ok () =>
        return {
          schemaVersion := input.schemaVersion
          chainId := input.chainId
          blockHeight := input.blockHeight
          blockTime := input.blockTime
          transactionId := input.transactionId
          transactionIndex := input.transactionIndex
          eventIndex := input.canonicalEventIndex
          eventId := computeEventId B input.chainId input.blockHeight input.transactionId
            input.canonicalEventIndex input.payload.kind schemaMajor
          marketIds := input.marketIds
          accountIds := input.accountIds
          sourceEvidence := input.sourceEvidence
          confirmationClass := input.confirmationClass
          observedAt := input.observedAt
          ingestedAt := input.ingestedAt
          canonicalizedAt := input.canonicalizedAt
          payloadHash := B.hash payloadBytes
          parserVersion := parserVersion
          payload := input.payload
          encodedPayload := payloadBytes
          supersededEventId := none
          evidenced := he
          corrects := fun h => absurd rfl h
          payload_valid := hv
          accounts_bound := hb }

variable {B C V}

theorem encoded_of_fromInput {input : CanonicalEventInput} {e : CanonicalEventEnvelope}
    (h : fromInput B C V input = .ok e) : e.Encoded B C ∧ e.supersededEventId = none := by
  obtain ⟨_, -, h⟩ := Except.of_bind h
  split at h
  next => cases h
  next =>
    obtain ⟨-, h⟩ := Except.of_check h
    obtain ⟨parserVersion, -, h⟩ := Except.of_bind h
    split at h
    next => cases h
    next =>
      obtain ⟨bytes, hbytes, h⟩ := Except.of_bind h
      split at h
      next => cases h
      next =>
        obtain rfl := Except.ok.inj h
        exact ⟨⟨C.decode_encode hbytes, rfl⟩, rfl⟩

end CanonicalEventEnvelope

end AlphaDesk
