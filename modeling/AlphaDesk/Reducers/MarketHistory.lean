import AlphaDesk.Foundation.Timeline
import AlphaDesk.Reducers.Market

/-! # The history of a market's metadata

A market event leaves the market and its metadata alone, creates both, changes
the market under the same metadata, or ends the metadata version in effect and
opens the next. In every state of a run the versions of a market therefore tile
the time since its creation.
-/

namespace AlphaDesk

open Bytes Except Stored List

variable {k key : StateKey}

variable {J : SerdeJson} {s t : Entries} {event : CanonicalEventEnvelope} {ms : List StateMutation}
  {c' c : MarketCurrentRecordV1} {m m' : MarketId} {p : MarketMetadataChanged}

theorem MarketCurrentRecordV1.stateKey_inj (h : stateKey m = .ok k) (h' : stateKey m' = .ok k) :
    m = m' :=
  StringId.asBytes_injective (cons.inj (framedKey_inj h h')).1

theorem MarketMetadataVersionRecordV1.stateKey_inj {v v' : String} (h : stateKey m v = .ok k)
    (h' : stateKey m' v' = .ok k) : m = m' ∧ v = v' := by
  have := framedKey_inj h h'
  simp only [cons.injEq, and_true] at this
  exact ⟨StringId.asBytes_injective this.1, utf8_injective this.2⟩

theorem get?_of_loadMarketRecord {T : Type} [Stored T] {missing : ReducerError} {r : T}
    (h : loadMarketRecord J s key missing = .ok r) : get? T J s key = some r := by
  unfold loadMarketRecord at h
  split at h
  next => cases h
  next bytes hb => exact get?_of_decodeAt hb (mapError_eq_ok.mp h)

/-- A market that was changed under the same metadata. -/
structure SameMetadata (c c' : MarketCurrentRecordV1) : Prop where
  marketId : c'.marketId = c.marketId
  createdAtBlock : c'.createdAtBlock = c.createdAtBlock
  metadataVersion : c'.metadataVersion = c.metadataVersion
  metadataHash : c'.metadataHash = c.metadataHash
  metadataResolution : c'.metadataResolution = c.metadataResolution

structure Describes (r : MarketMetadataVersionRecordV1) (c : MarketCurrentRecordV1) : Prop where
  marketId : r.marketId = c.marketId
  metadataVersion : r.metadataVersion = c.metadataVersion
  metadataHash : r.metadataHash = c.metadataHash
  resolution : r.resolution = c.metadataResolution

def textLt (a b : String) : Prop := textLe b a = false

/-- A market that was not there, with its first metadata version. -/
structure Founds (s : Entries) (c : MarketCurrentRecordV1) (r : MarketMetadataVersionRecordV1) :
    Prop where
  fresh : ∃ key, keyOf c = .ok key ∧ s[key]? = none
  describes : Describes r c
  opens : r.effectiveFromBlock = c.createdAtBlock
  lasts : r.effectiveUntilBlock = none

/-- A market under its next metadata version, which ends the prior one. -/
structure Renews (J : SerdeJson) (s : Entries) (c c' : MarketCurrentRecordV1)
    (prior ended next : MarketMetadataVersionRecordV1) : Prop where
  marketId : c'.marketId = c.marketId
  createdAtBlock : c'.createdAtBlock = c.createdAtBlock
  found : ∃ key, MarketMetadataVersionRecordV1.stateKey c.marketId c.metadataVersion = .ok key ∧
    get? _ J s key = some prior
  later : textLt c.metadataVersion next.metadataVersion
  grows : prior.effectiveFromBlock < next.effectiveFromBlock
  ends : ended = { prior with effectiveUntilBlock := some (next.effectiveFromBlock - 1) }
  describes : Describes next c'
  lasts : next.effectiveUntilBlock = none

inductive MetadataChange (J : SerdeJson) (s : Entries) :
    List MarketCurrentRecordV1 → List MarketMetadataVersionRecordV1 → Prop
  | idle : MetadataChange J s [] []
  | created {c : MarketCurrentRecordV1} {r : MarketMetadataVersionRecordV1}
    (founds : Founds s c r) : MetadataChange J s [c] [r]
  | updated {c c' : MarketCurrentRecordV1} {key : StateKey} (loaded : get? _ J s key = some c)
    (same : SameMetadata c c') : MetadataChange J s [c'] []
  | changed {c c' : MarketCurrentRecordV1} {prior ended next : MarketMetadataVersionRecordV1}
    {key : StateKey} (loaded : get? _ J s key = some c)
    (renews : Renews J s c c' prior ended next) : MetadataChange J s [c'] [ended, next]

/-- Mutations in the market namespaces write one such change. -/
structure MetadataWrites (J : SerdeJson) (s : Entries) (ms : List StateMutation) : Prop where
  putsIn : PutsIn marketNamespaces ms
  change : ∃ cs rs, Puts MarketCurrentRecordV1 J ms cs ∧
    Puts MarketMetadataVersionRecordV1 J ms rs ∧ MetadataChange J s cs rs

theorem puts_putMarket {T : Type} [Stored T] {r : T} {records : List T}
    (hm : putMarket J key r = .ok mutation) (hk : keyOf r = .ok key) (hms : Puts T J ms records) :
    Puts T J (mutation :: ms) (r :: records) := by
  obtain ⟨bytes, hb, rfl⟩ := putMarket_eq_ok hm
  exact .own hk hb hms

theorem puts_skip_putMarket {T T' : Type} [Stored T] [Stored T'] {r : T'} {records : List T}
    {ns : String} {ids : List (List UInt8)} (hm : putMarket J key r = .ok mutation)
    (hk : (framedKey ns ids).mapError marketCodecError = .ok key) (hne : ns ≠ Stored.ns T)
    (hms : Puts T J ms records) : Puts T J (mutation :: ms) records := by
  obtain ⟨bytes, -, rfl⟩ := putMarket_eq_ok hm
  exact .other ((ns_framedKey (mapError_eq_ok.mp hk)).1.trans_ne hne) hms

variable {change : MarketCurrentRecordV1 → Except ReducerError MarketCurrentRecordV1}

theorem writes_of_reduceMarketCreated {p : MarketCreated}
    (h : reduceMarketCreated J s event p = .ok ms) : MetadataWrites J s ms := by
  simp only [reduceMarketCreated, bind_eq_ok] at h
  obtain ⟨-, -, -, -, h⟩ := h
  obtain ⟨-, h⟩ := of_check h
  simp only [bind_eq_ok] at h
  obtain ⟨-, -, -, -, -, -, h⟩ := h
  obtain ⟨-, h⟩ := of_check h
  simp only [bind_eq_ok] at h
  obtain ⟨ck, hck, _, hfresh, mk, hmk, -, -, m₁, hm₁, m₂, hm₂, h⟩ := h
  obtain rfl := ok.inj h
  have hnot := (of_check hfresh).1
  exact ⟨putsIn_putMarket hck (by decide) hm₁ (putsIn_putMarket hmk (by decide) hm₂ putsIn_nil),
    _, _, puts_putMarket hm₁ (mapError_eq_ok.mp hck) (puts_skip_putMarket hm₂ hmk (by decide) .nil),
    puts_skip_putMarket hm₁ hck (by decide) (puts_putMarket hm₂ (mapError_eq_ok.mp hmk) .nil),
    .created ⟨⟨ck, mapError_eq_ok.mp hck, by simpa using hnot⟩, ⟨rfl, rfl, rfl, rfl⟩, rfl, rfl⟩⟩

theorem writes_of_reduceMarketMetadataChanged
    (h : reduceMarketMetadataChanged J s event p = .ok ms) : MetadataWrites J s ms := by
  simp only [reduceMarketMetadataChanged, bind_eq_ok] at h
  obtain ⟨-, -, -, -, ck, hck, c, hc, h⟩ := h
  obtain ⟨hlater, h⟩ := of_check h
  simp only [bind_eq_ok] at h
  obtain ⟨pk, hpk, prior, hprior, h⟩ := h
  obtain ⟨hgrows, h⟩ := of_check h
  simp only [bind_eq_ok] at h
  obtain ⟨nk, hnk, -, -, h⟩ := h
  obtain ⟨-, h⟩ := of_check h
  simp only [bind_eq_ok] at h
  obtain ⟨m₁, hm₁, m₂, hm₂, m₃, hm₃, h⟩ := h
  obtain rfl := ok.inj h
  have hg : get? _ J s ck = some c := get?_of_loadMarketRecord hc
  have hkey : MarketCurrentRecordV1.stateKey c.marketId = .ok ck := keyOf_of_get? hg
  have hm : p.marketId = c.marketId :=
    MarketCurrentRecordV1.stateKey_inj (mapError_eq_ok.mp hck) hkey
  have hp : get? _ J s pk = some prior := get?_of_loadMarketRecord hprior
  have hpkey : keyOf prior = .ok pk := keyOf_of_get? hp
  simp only [Bool.or_eq_true, not_or, decide_eq_true_eq, UInt64.not_le] at hlater hgrows
  exact ⟨putsIn_putMarket hpk (by decide) hm₁ (putsIn_putMarket hnk (by decide) hm₂
      (putsIn_putMarket hck (by decide) hm₃ putsIn_nil)),
    _, _, puts_skip_putMarket hm₁ hpk (by decide) (puts_skip_putMarket hm₂ hnk (by decide)
      (puts_putMarket hm₃ hkey .nil)),
    puts_putMarket hm₁ hpkey (puts_putMarket hm₂ (mapError_eq_ok.mp hnk)
      (puts_skip_putMarket hm₃ hck (by decide) .nil)),
    .changed hg ⟨rfl, rfl, ⟨pk, hm ▸ mapError_eq_ok.mp hpk, hp⟩,
      by simpa [textLt] using hlater.1, hgrows.2, rfl, ⟨hm, rfl, rfl, rfl⟩, rfl⟩⟩

theorem sameMetadata_of_changeStatus {required next : MarketStatusV1}
    (h : changeStatus required next c = .ok c') : SameMetadata c c' := by
  obtain ⟨-, h⟩ := of_check h
  obtain rfl := ok.inj h
  exact ⟨rfl, rfl, rfl, rfl, rfl⟩

theorem writes_of_updateMarket (h : updateMarket J s event m change = .ok ms)
    (hchange : ∀ c c', change c = .ok c' → SameMetadata c c') : MetadataWrites J s ms := by
  simp only [updateMarket, bind_eq_ok] at h
  obtain ⟨-, -, -, -, key, hk, c, hc, next, hn, m, hm, h⟩ := h
  obtain rfl := ok.inj h
  have hg : get? _ J s key = some c := get?_of_loadMarketRecord hc
  have hsame := hchange c next hn
  have hkey : MarketCurrentRecordV1.stateKey next.marketId = .ok key :=
    (congrArg MarketCurrentRecordV1.stateKey hsame.marketId).trans (keyOf_of_get? hg)
  exact ⟨putsIn_putMarket hk (by decide) hm putsIn_nil, _, _, puts_putMarket hm hkey .nil,
    puts_skip_putMarket hm hk (by decide) .nil, .updated hg ⟨hsame.marketId, hsame.createdAtBlock,
      hsame.metadataVersion, hsame.metadataHash, hsame.metadataResolution⟩⟩

theorem writes_elsewhere {T : Type} [Stored T] {r : T} {ns : String} {ids : List (List UInt8)}
    (hk : (framedKey ns ids).mapError marketCodecError = .ok key)
    (hm : putMarket J key r = .ok mutation) (hns : [ns] ⊆ marketNamespaces)
    (hc : "market-current.v1" ∉ [ns]) (hv : "market-metadata-version.v1" ∉ [ns]) :
    MetadataWrites J s [mutation] := by
  have h : PutsIn [ns] [mutation] := putsIn_putMarket hk (by simp) hm putsIn_nil
  exact ⟨h.mono hns, [], [], h.puts hc, h.puts hv, .idle⟩

theorem writes_of_reduceMarketPayload (h : reduceMarketPayload J s event = .ok ms) :
    MetadataWrites J s ms := by
  unfold reduceMarketPayload at h
  split at h
  case h_1 =>
    simp only [reduceDexCreated, bind_eq_ok] at h
    obtain ⟨-, -, -, -, key, hk, -, -, m, hm, h⟩ := h
    obtain rfl := ok.inj h
    exact writes_elsewhere hk hm (by decide) (by decide) (by decide)
  case h_2 =>
    simp only [reduceAssetContextUpdated, bind_eq_ok] at h
    obtain ⟨-, -, -, -, key, hk, -, -, m, hm, h⟩ := h
    obtain rfl := ok.inj h
    exact writes_elsewhere hk hm (by decide) (by decide) (by decide)
  case h_3 => exact writes_of_reduceMarketCreated h
  case h_4 => exact writes_of_reduceMarketMetadataChanged h
  case h_5 | h_6 => exact writes_of_updateMarket h fun _ _ => sameMetadata_of_changeStatus
  case h_7 | h_8 | h_9 =>
    refine writes_of_updateMarket h fun c c' hc => ?_
    obtain ⟨_, -, hc⟩ := of_bind hc
    obtain ⟨-, hc⟩ := of_check hc
    obtain ⟨-, hc⟩ := of_check hc
    obtain rfl := ok.inj hc
    exact ⟨rfl, rfl, rfl, rfl, rfl⟩
  case h_10 =>
    refine writes_of_updateMarket h fun c c' hc => ?_
    obtain ⟨_, -, hc⟩ := of_bind hc
    obtain ⟨-, hc⟩ := of_check hc
    obtain rfl := ok.inj hc
    exact ⟨rfl, rfl, rfl, rfl, rfl⟩
  case h_11 =>
    simp only [reduceOutcomeCreated, bind_eq_ok] at h
    obtain ⟨-, -, -, -, -, -, -, -, key, hk, -, -, m, hm, h⟩ := h
    obtain rfl := ok.inj h
    exact writes_elsewhere hk hm (by decide) (by decide) (by decide)
  case h_12 =>
    simp only [reduceOutcomeResolved, bind_eq_ok] at h
    obtain ⟨-, -, -, -, -, -, -, -, -, -, key, hk, outcome, -, h⟩ := h
    obtain ⟨-, h⟩ := of_check h
    obtain ⟨-, h⟩ := of_check h
    simp only [bind_eq_ok] at h
    obtain ⟨m, hm, h⟩ := h
    obtain rfl := ok.inj h
    exact writes_elsewhere hk hm (by decide) (by decide) (by decide)
  case h_13 => cases h

theorem putsIn_reduceMarket (h : reduceMarket J s event = .ok ms) : PutsIn marketNamespaces ms := by
  simp only [reduceMarket, bind_eq_ok] at h
  obtain ⟨key, hk, -, -, fact, -, m, hm, rest, hr, h⟩ := h
  obtain rfl := ok.inj h
  exact putsIn_putMarket hk (by decide) hm (writes_of_reduceMarketPayload hr).putsIn

theorem metadataChange_of_reduceMarket (h : reduceMarket J s event = .ok ms)
    (hn : (ms.map StateMutation.key).Nodup) : ∃ cs rs,
      Updates MarketCurrentRecordV1 J s cs (writeAll s ms) ∧
      Updates MarketMetadataVersionRecordV1 J s rs (writeAll s ms) ∧ MetadataChange J s cs rs := by
  simp only [reduceMarket, bind_eq_ok] at h
  obtain ⟨fk, hfk, -, -, fact, -, m, hm, rest, hr, h⟩ := h
  obtain rfl := ok.inj h
  obtain ⟨fb, -, rfl⟩ := putMarket_eq_ok hm
  have hfact := (ns_framedKey (mapError_eq_ok.mp hfk)).1
  obtain ⟨cs, rs, hc, hr, hchange⟩ := (writes_of_reduceMarketPayload hr).change
  exact ⟨cs, rs, (hc.other (by rw [StateMutation.key, hfact]; decide)).updates hn fun _ _ => rfl,
    (hr.other (by rw [StateMutation.key, hfact]; decide)).updates hn fun _ _ => rfl, hchange⟩

section History

variable {x : MarketCurrentRecordV1} {versions : List MarketMetadataVersionRecordV1}
  {prior : MarketMetadataVersionRecordV1} {a b : String}

namespace MarketMetadataVersionRecordV1

def start (r : MarketMetadataVersionRecordV1) : ℕ := r.effectiveFromBlock.toNat

def stop (r : MarketMetadataVersionRecordV1) : Option ℕ := r.effectiveUntilBlock.map UInt64.toNat

def InEffect (r : MarketMetadataVersionRecordV1) (height : BlockHeight) : Prop :=
  r.effectiveFromBlock ≤ height ∧ ∀ last ∈ r.effectiveUntilBlock, height ≤ last

end MarketMetadataVersionRecordV1

open MarketMetadataVersionRecordV1

/-- The metadata versions that a state holds of a market, in the order of their names. They tile
the time from the creation of the market on, and the one without an end is the market's. -/
structure MetadataHistory (J : SerdeJson) (s : Entries) (c : MarketCurrentRecordV1)
    (versions : List MarketMetadataVersionRecordV1) : Prop where
  listed : ∀ r, r ∈ versions ↔
    r.marketId = c.marketId ∧ ∃ k, get? MarketMetadataVersionRecordV1 J s k = some r
  ordered : versions.Pairwise fun a b => textLt a.metadataVersion b.metadataVersion
  tiles : Timeline.Tiles start stop c.createdAtBlock.toNat versions
  last : ∀ r ∈ versions.getLast?, Describes r c

/-- Every market of a state has a history, and there are metadata versions of markets only. -/
structure Dated (J : SerdeJson) (s : Entries) : Prop where
  current : Readable MarketCurrentRecordV1 J s
  metadata : Readable MarketMetadataVersionRecordV1 J s
  owned : ∀ k r, get? MarketMetadataVersionRecordV1 J s k = some r →
    ∃ k' c, get? MarketCurrentRecordV1 J s k' = some c ∧ c.marketId = r.marketId
  history : ∀ k c, get? MarketCurrentRecordV1 J s k = some c →
    ∃ versions, MetadataHistory J s c versions

theorem dated_empty : Dated J ∅ := by
  have hnone : ∀ {T : Type} [Stored T] (k : StateKey), get? T J ∅ k = none :=
    fun k => get?_eq_none (by simp)
  refine ⟨readable_empty, readable_empty, ?_, ?_⟩ <;> intro k r hr <;> rw [hnone] at hr <;> cases hr

theorem textLt_iff : textLt a b ↔ compare (utf8 a) (utf8 b) = .lt := by
  have hswap : compare (utf8 b) (utf8 a) = (compare (utf8 a) (utf8 b)).swap :=
    Std.OrientedCmp.eq_swap
  rw [textLt, textLe, hswap]
  cases compare (utf8 a) (utf8 b) <;> simp [Ordering.swap]

theorem textLt_trans {c : String} (hab : textLt a b) (hbc : textLt b c) : textLt a c :=
  textLt_iff.mpr (Std.TransCmp.lt_trans (textLt_iff.mp hab) (textLt_iff.mp hbc))

theorem textLt_irrefl : ¬textLt a a := by
  rw [textLt_iff, Std.ReflOrd.compare_self]
  decide

theorem MetadataHistory.frame (h : MetadataHistory J s c versions) (hsame : SameMetadata c c')
    (hm : ∀ r, r.marketId = c.marketId →
      ((∃ k, get? MarketMetadataVersionRecordV1 J t k = some r) ↔
        ∃ k, get? MarketMetadataVersionRecordV1 J s k = some r)) :
    MetadataHistory J t c' versions where
  listed r := by
    rw [h.listed, hsame.marketId]
    exact and_congr_right fun hr => (hm r hr).symm
  ordered := h.ordered
  tiles := hsame.createdAtBlock ▸ h.tiles
  last r hr := by
    have hd := h.last r hr
    exact ⟨hd.marketId.trans hsame.marketId.symm,
      hd.metadataVersion.trans hsame.metadataVersion.symm,
      hd.metadataHash.trans hsame.metadataHash.symm,
      hd.resolution.trans hsame.metadataResolution.symm⟩

theorem MetadataHistory.eq_concat (h : MetadataHistory J s c versions) {priorKey : StateKey}
    (hk : stateKey c.marketId c.metadataVersion = .ok priorKey)
    (hg : get? MarketMetadataVersionRecordV1 J s priorKey = some prior) :
    ∃ front, versions = front ++ [prior] := by
  rcases eq_nil_or_concat versions with rfl | ⟨front, last, rfl⟩
  · exact absurd h.tiles.opens (by simp)
  · have hd := h.last last (by simp)
    obtain ⟨-, k, hlast⟩ := (h.listed last).mp (by simp)
    have hkey : stateKey last.marketId last.metadataVersion = .ok k := keyOf_of_get? hlast
    rw [hd.marketId, hd.metadataVersion, hk] at hkey
    obtain rfl := ok.inj hkey
    obtain rfl := Option.mem_unique hlast hg
    exact ⟨front, by simp⟩

theorem MetadataHistory.changed {front : List MarketMetadataVersionRecordV1}
    {ended next : MarketMetadataVersionRecordV1} (h : MetadataHistory J s c (front ++ [prior]))
    (hr : Renews J s c c' prior ended next) (hu : Updates _ J s [ended, next] t) :
    MetadataHistory J t c' (front ++ [ended, next]) := by
  obtain ⟨hm, hat, -, hlater, hgrows, hends, hdesc, hlasts⟩ := hr
  have hprior := h.last prior (by simp)
  have hversion : ended.metadataVersion = prior.metadataVersion := by rw [hends]
  have hmarket : ended.marketId = prior.marketId := by rw [hends]
  have hlater' : textLt prior.metadataVersion next.metadataVersion :=
    hprior.metadataVersion ▸ hlater
  obtain ⟨hfront, -, hlt⟩ := pairwise_append.mp h.ordered
  have hlt : ∀ r ∈ front, textLt r.metadataVersion prior.metadataVersion :=
    fun r hr => hlt r hr prior mem_cons_self
  refine ⟨fun r => ⟨fun hr => ?_, ?_⟩, ?_, ?_, ?_⟩
  · rcases mem_append.mp hr with hr | hr
    · obtain ⟨hrm, k, hg⟩ := (h.listed r).mp (mem_append_left _ hr)
      refine ⟨hrm.trans hm.symm, k, hu.get?_eq_some.mpr (.inr ⟨fun r' hr' hk => ?_, hg⟩)⟩
      -- the versions written are later than those before the last
      have hkey : keyOf r = .ok k := keyOf_of_get? hg
      have hv := (stateKey_inj hkey hk).2
      have hlt := hlt r hr
      rcases mem_pair.mp hr' with rfl | rfl
      · exact textLt_irrefl (hversion ▸ hv ▸ hlt)
      · exact textLt_irrefl (hv ▸ textLt_trans hlt hlater')
    · obtain ⟨k, -, hk, -, -⟩ := hu.written r hr
      refine ⟨?_, k, hu.get?_of_mem hr hk⟩
      rcases mem_pair.mp hr with rfl | rfl
      · rw [hmarket, hprior.marketId, hm]
      · exact hdesc.marketId
  · rintro ⟨hrm, k, hg⟩
    rcases hu.get?_eq_some.mp hg with ⟨hr, -⟩ | ⟨hne, hg⟩
    · exact mem_append_right _ hr
    · have hr := (h.listed r).mpr ⟨hrm.trans hm, k, hg⟩
      rcases mem_append.mp hr with hr | hr
      · exact mem_append_left _ hr
      · obtain rfl := mem_singleton.mp hr
        have hkey : keyOf r = .ok k := keyOf_of_get? hg
        exact absurd (hends ▸ hkey) (hne ended (by simp))
  · refine pairwise_append.mpr ⟨hfront, by simpa [hversion] using hlater', ?_⟩
    intro r hr r' hr'
    rcases mem_pair.mp hr' with rfl | rfl
    · exact hversion ▸ hlt r hr
    · exact textLt_trans (hlt r hr) hlater'
  · rw [hat]
    refine h.tiles.extend (by rw [hends]; rfl) ?_ hgrows (by simp [stop, hlasts])
    have hpos : (1 : UInt64) ≤ next.effectiveFromBlock := by
      rw [UInt64.le_iff_toNat_le]
      rw [UInt64.lt_iff_toNat_lt] at hgrows
      simp
      omega
    simp [hends, stop, start, UInt64.toNat_sub_of_le _ _ hpos]
  · simpa using hdesc

theorem Founds.history {r : MarketMetadataVersionRecordV1} (hf : Founds s c r) (h : Dated J s)
    (hm : Updates _ J s [r] t) : MetadataHistory J t c [r] := by
  refine ⟨fun r' => ?_, pairwise_singleton _ _, .singleton (congrArg UInt64.toNat hf.opens)
    (by simp [stop, hf.lasts]), by simpa using hf.describes⟩
  rw [mem_singleton]
  constructor
  · rintro rfl
    obtain ⟨mk, -, hmk, -, -⟩ := hm.written r' (by simp)
    exact ⟨hf.describes.marketId, mk, hm.get?_of_mem (by simp) hmk⟩
  · rintro ⟨hrm, k', hg⟩
    rcases hm.get?_eq_some.mp hg with ⟨hmem, -⟩ | ⟨-, hg⟩
    · exact mem_singleton.mp hmem
    · -- no market of that name, so no metadata version of it
      obtain ⟨k', x, hx, hxm⟩ := h.owned k' r' hg
      obtain ⟨key, hk, hfresh⟩ := hf.fresh
      have hkey : keyOf x = .ok k' := keyOf_of_get? hx
      have hkey' : keyOf x = .ok key :=
        (congrArg MarketCurrentRecordV1.stateKey (hxm.trans hrm)).trans hk
      obtain rfl := ok_unique hkey hkey'
      rw [get?_eq_none hfresh] at hx
      cases hx

section Step

variable {cs : List MarketCurrentRecordV1} {rs : List MarketMetadataVersionRecordV1} (h : Dated J s)
  (hc : Updates _ J s cs t) (hm : Updates _ J s rs t)

include hc in
theorem market_cases (hx : get? _ J t k = some x) :
    x ∈ cs ∨ (∀ c ∈ cs, x.marketId ≠ c.marketId) ∧ get? _ J s k = some x := by
  rcases hc.get?_eq_some.mp hx with ⟨hmem, -⟩ | ⟨hne, hg⟩
  · exact .inl hmem
  · refine .inr ⟨fun c hcs hm => hne c hcs ?_, hg⟩
    have hkey : keyOf x = .ok k := keyOf_of_get? hg
    exact (congrArg MarketCurrentRecordV1.stateKey hm.symm).trans hkey

include hc in
theorem exists_market (hx : x ∈ cs ∨ ∃ k, get? _ J s k = some x) :
    ∃ k' c, get? _ J t k' = some c ∧ MarketCurrentRecordV1.marketId c = x.marketId := by
  by_cases hmem : ∃ c ∈ cs, c.marketId = x.marketId
  · obtain ⟨c, hcs, hm⟩ := hmem
    obtain ⟨k', -, hk', -, -⟩ := hc.written c hcs
    exact ⟨k', c, hc.get?_of_mem hcs hk', hm⟩
  · obtain hx | ⟨k, hx⟩ := hx
    · exact absurd ⟨x, hx, rfl⟩ hmem
    · refine ⟨k, x, hc.get?_eq_some.mpr (.inr ⟨fun r hr hk => hmem ⟨r, hr, ?_⟩, hx⟩), rfl⟩
      have hkey : keyOf x = .ok k := keyOf_of_get? hx
      exact MarketCurrentRecordV1.stateKey_inj hk hkey

include h hc hm

theorem Dated.write (hrs : ∀ r ∈ rs, ∃ c ∈ cs, r.marketId = c.marketId)
    (hv : ∀ c ∈ cs, ∃ versions, MetadataHistory J t c versions) : Dated J t := by
  refine ⟨hc.readable h.current, hm.readable h.metadata, fun k r hr => ?_, fun k x hx => ?_⟩
  · rcases hm.get?_eq_some.mp hr with ⟨hmem, -⟩ | ⟨-, hr⟩
    · obtain ⟨c, hcs, hrc⟩ := hrs r hmem
      rw [hrc]
      exact exists_market hc (.inl hcs)
    · obtain ⟨k', x, hx, hxm⟩ := h.owned k r hr
      rw [← hxm]
      exact exists_market hc (.inr ⟨k', hx⟩)
  · obtain hcs | ⟨hne, hx⟩ := market_cases hc hx
    · exact hv x hcs
    · obtain ⟨versions, hv⟩ := h.history k x hx
      refine ⟨versions, hv.frame ⟨rfl, rfl, rfl, rfl, rfl⟩ fun r hr => exists_congr fun k => ?_⟩
      -- what was written belongs to other markets
      have hother : ∀ r' ∈ rs, r'.marketId ≠ r.marketId := by
        intro r' hr' hrm
        obtain ⟨c, hcs, hrc⟩ := hrs r' hr'
        exact hne c hcs (hr.symm.trans (hrm.symm.trans hrc))
      rw [hm.get?_eq_some]
      constructor
      · rintro (⟨hmem, -⟩ | ⟨-, hg⟩)
        · exact absurd rfl (hother r hmem)
        · exact hg
      · intro hg
        have hk' : keyOf r = .ok k := keyOf_of_get? hg
        exact .inr ⟨fun r' hr' hk => hother r' hr' (stateKey_inj hk hk').1, hg⟩

theorem Dated.step (hs : MetadataChange J s cs rs) : Dated J t := by
  cases hs with
  | idle => exact h.write hc hm (by simp) (by simp)
  | created hf =>
    exact h.write hc hm (by simpa using hf.describes.marketId)
      (forall_mem_singleton.mpr ⟨_, hf.history h hm⟩)
  | @updated c c' key hg hsame =>
    have hget : ∀ k, get? _ J t k = get? _ J s k := fun k => hm.get?_of_forall_ne (by simp)
    obtain ⟨versions, hv⟩ := h.history key c hg
    exact h.write hc hm (by simp)
      (forall_mem_singleton.mpr ⟨versions, hv.frame hsame fun r _ => by simp [hget]⟩)
  | @changed c c' prior ended next key hg hr =>
    obtain ⟨versions, hv⟩ := h.history key c hg
    obtain ⟨priorKey, hpk, hprior⟩ := hr.found
    obtain ⟨front, rfl⟩ := hv.eq_concat hpk hprior
    refine h.write hc hm ?_ (forall_mem_singleton.mpr ⟨_, hv.changed hr hm⟩)
    have hd := hv.last prior (by simp)
    simp [hr.ends, hd.marketId, hr.marketId, hr.describes.marketId]

end Step

theorem MetadataHistory.existsUnique_inEffect (h : MetadataHistory J s c versions)
    {height : BlockHeight} (hle : c.createdAtBlock ≤ height) :
    ∃! r, r ∈ versions ∧ r.InEffect height := by
  have hcovers : ∀ r : MarketMetadataVersionRecordV1,
      Timeline.Covers start stop r height.toNat ↔ r.InEffect height := by
    intro r
    simp [Timeline.Covers, InEffect, start, stop, UInt64.le_iff_toNat_le]
  simpa only [hcovers] using h.tiles.existsUnique_covers (UInt64.le_iff_toNat_le.mp hle)

end History

section Runs

open CanonicalLedger MarketMetadataVersionRecordV1

variable {B : Blake3} {chainId : ChainId} {firstHeight : BlockHeight} {limits : LedgerLimits}
  {l : CanonicalLedger}

theorem dated_of_step {s t : Entries} {event : CanonicalEventEnvelope}
    (h : Dated J s) (hs : Step (canonicalMarketReducer J) s event t) : Dated J t := by
  obtain ⟨context, -, mutations, hr, hn, rfl⟩ := hs
  obtain ⟨cs, rs, hc, hm, hchange⟩ := metadataChange_of_reduceMarket hr hn
  exact h.step hc hm hchange

/-- The metadata history of every market at every point of a run: the record under the market's
key reads back, all metadata entries are records, those of the market follow one another from its
creation on with the market's own one open, and every height since then has exactly one in
effect. -/
theorem metadata_history_partitions
    (hnew : tryNew B chainId firstHeight (canonicalMarketReducer J) limits = .ok l)
    (blocks : List (BlockEnvelope B)) (m : MarketId) (k : StateKey) (bytes : List UInt8)
    (hkey : MarketCurrentRecordV1.stateKey m = .ok k)
    (hk : (run (canonicalMarketReducer J) l blocks).state.entries[k]? = some bytes) :
    Readable MarketMetadataVersionRecordV1 J
        (run (canonicalMarketReducer J) l blocks).state.entries ∧
      ∃ (c : MarketCurrentRecordV1) (versions : List MarketMetadataVersionRecordV1),
        decodeAt J k bytes = .ok c ∧ c.marketId = m ∧
        MetadataHistory J (run (canonicalMarketReducer J) l blocks).state.entries c versions ∧
        ∀ height, c.createdAtBlock ≤ height → ∃! r, r ∈ versions ∧ r.InEffect height := by
  have hdated := run_history_invariant (P := fun _ s => Dated J s) hnew dated_empty
    (fun _ _ _ _ h hs => dated_of_step h hs) blocks
  have hns : k.ns = ns MarketCurrentRecordV1 := (ns_framedKey hkey).1
  obtain ⟨c, hc, hck⟩ := hdated.current k bytes hns hk
  obtain ⟨versions, hv⟩ := hdated.history k c (get?_of_encode hk hc hck)
  exact ⟨hdated.metadata, c, versions, decodeAt_encode hc hck,
    MarketCurrentRecordV1.stateKey_inj hck hkey, hv, fun _ => hv.existsUnique_inEffect⟩

def sampleDex : DexId := ⟨"dex", by decide⟩

def sampleBase : AssetId := ⟨"BTC", by decide⟩

def sampleQuote : AssetId := ⟨"USDC", by decide⟩

def sampleMarketId : MarketId := ⟨"BTC", by decide⟩

/-- An exchange, two assets and a market, whose metadata changes in block 11. -/
def sampleMarketBlocks : List (BlockEnvelope sumBlake3) :=
  [sampleEventBlock 7 [] [.replicate 20 7]
    (.dexCreated { dexId := sampleDex, name := "dex", operatorAccountId := .replicate 20 7 })
    rfl rfl,
   sampleEventBlock 8 [] []
    (.assetContextUpdated
      { assetId := sampleBase, contextVersion := "1", contextHash := .replicate 32 1 }) rfl rfl,
   sampleEventBlock 9 [] []
    (.assetContextUpdated
      { assetId := sampleQuote, contextVersion := "1", contextHash := .replicate 32 1 }) rfl rfl,
   sampleEventBlock 10 [sampleMarketId] []
    (.marketCreated
      { marketId := sampleMarketId
        dexId := sampleDex
        baseAssetId := sampleBase
        quoteAssetId := sampleQuote
        tickSize := ⟨1, 0, by decide, Nat.zero_le _⟩
        lotSize := ⟨1, 0, by decide, Nat.zero_le _⟩ }) rfl rfl,
   sampleEventBlock 11 [sampleMarketId] []
    (.marketMetadataChanged
      { marketId := sampleMarketId, metadataVersion := "v2", metadataHash := .replicate 32 2 })
    rfl rfl]

def sampleMarketLedger : CanonicalLedger :=
  let state := StateImage.empty sampleChain 7 marketReducerVersion (by decide)
  ⟨.production, state, state.stateHash sumBlake3⟩

def sampleMarketKey : StateKey where
  ns := "market-current.v1"
  key := frame sampleMarketId.asBytes
  namespace_valid := by decide
  key_valid := by decide

theorem metadata_history_partitions_sample :
    ∃ (c : MarketCurrentRecordV1) (versions : List MarketMetadataVersionRecordV1),
      c.marketId = sampleMarketId ∧
      MetadataHistory packedJson (run (canonicalMarketReducer packedJson) sampleMarketLedger
        sampleMarketBlocks).state.entries c versions := by
  have hsome : ((run (canonicalMarketReducer packedJson) sampleMarketLedger
      sampleMarketBlocks).state.entries[sampleMarketKey]?).isSome = true := by decide +kernel
  obtain ⟨bytes, hb⟩ := Option.isSome_iff_exists.mp hsome
  have hnew : tryNew sumBlake3 sampleChain 7 (canonicalMarketReducer packedJson)
      .production = .ok sampleMarketLedger := dif_pos (by decide)
  obtain ⟨-, c, versions, -, hm, hv, -⟩ := metadata_history_partitions hnew sampleMarketBlocks
    sampleMarketId sampleMarketKey bytes (by decide +kernel) hb
  exact ⟨c, versions, hm, hv⟩

end Runs

end AlphaDesk
