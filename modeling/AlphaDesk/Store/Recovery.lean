import AlphaDesk.Store.Phases

/-! # What a store returns after a commit

The image that `HEAD` names is read back exactly when the decoder accepts it
under the store's limits. From this follow what a successful commit makes
loadable, and when a commit that was interrupted can be tried again.
-/

namespace AlphaDesk

open Bytes Except Interruptible

variable {B : Blake3} {limits : StateImageLimits} {r s : Root} {c : AtomicStateCommit B}
  {image : StateImage} {loaded : Option StateImage} {name : String} {bytes : List UInt8}

/-- The decoder accepts the image's own bytes under the limits. -/
structure StateImage.Loadable (limits : StateImageLimits) (image : StateImage) : Prop where
  within : image.WithinLimits limits
  chainId : image.chainId.asBytes.length ≤ 256

theorem decodeImage_canonicalBytes (h : image.Loadable limits) :
    decodeImage image.canonicalBytes limits = .ok image := by
  simp [decodeImage, StateImage.decodeCanonical_canonicalBytes h.within h.chainId]

theorem decodeImage_eq_ok (h : decodeImage bytes limits = .ok image) :
    image.canonicalBytes = bytes ∧ image.Loadable limits := by
  revert h
  fun_cases decodeImage bytes limits with
  | case1 decoded hd heq =>
    rintro ⟨⟩
    obtain ⟨-, hw, hc⟩ := StateImage.decodeCanonical_of_eq_ok hd
    exact ⟨heq, hw, hc⟩
  | _ => rintro ⟨⟩

theorem decodeImage_canonicalBytes_eq_ok {decoded : StateImage}
    (h : decodeImage image.canonicalBytes limits = .ok decoded) :
    decoded = image ∧ image.Loadable limits := by
  obtain ⟨hb, hl⟩ := decodeImage_eq_ok h
  have hlt : decoded.canonicalBytes.length < UInt64.size :=
    hl.within.bytes.trans_lt (UInt64.toNat_lt_size _)
  obtain rfl := StateImage.canonicalBytes_inj hlt hb
  exact ⟨rfl, hl⟩

/-- `HEAD` names a generation that holds the image. -/
structure Root.Holds (B : Blake3) (r : Root) (image : StateImage) : Prop where
  head : r.head = some (utf8 (generationName (image.stateHash B)))
  files : r.directories (generationName (image.stateHash B)) = some (.complete image.canonicalBytes)

theorem loadHead_eq_ok (h : loadHead limits r = .ok loaded) :
    (readHead r = .ok none ∧ loaded = none) ∨
    ∃ generation d image, readHead r = .ok (some generation) ∧ openGeneration r generation = .ok d ∧
      requireSchema d = .ok () ∧
      (readRegular d.state limits.maxStateBytes.toNat >>= (decodeImage · limits)) = .ok image ∧
      loaded = some image := by
  obtain ⟨g, hg, h⟩ := of_bind h
  cases g with
  | none => exact .inl ⟨hg, (ok.inj h).symm⟩
  | some g =>
    obtain ⟨d, hd, h⟩ := of_bind h
    obtain ⟨_, hs, h⟩ := of_bind h
    obtain ⟨b, hb, h⟩ := of_bind h
    obtain ⟨image, hi, h⟩ := of_bind h
    refine .inr ⟨g, d, image, hg, hd, hs, ?_, (ok.inj h).symm⟩
    rw [hb, ok_bind, hi]

theorem loadable_of_loadHead (h : loadHead limits r = .ok (some image)) :
    image.Loadable limits := by
  obtain ⟨-, hn⟩ | ⟨g, d, i, -, -, -, hdec, hi⟩ := loadHead_eq_ok h
  · cases hn
  · obtain rfl := Option.some.inj hi
    obtain ⟨b, -, hb⟩ := of_bind hdec
    exact (decodeImage_eq_ok hb).2

theorem Root.Holds.readHead (h : r.Holds B image) :
    readHead r = .ok (some (generationName (image.stateHash B))) := by
  have htake : (utf8 (generationName (image.stateHash B))).take 80 =
      utf8 (generationName (image.stateHash B)) :=
    List.take_of_length_le (by rw [length_utf8_generationName]; decide)
  simp [AlphaDesk.readHead, h.head, htake, validGenerationName_generationName]

theorem Root.Holds.loadHead (h : r.Holds B image) :
    loadHead limits r =
      (readRegular (some image.canonicalBytes) limits.maxStateBytes.toNat >>=
        fun b => (decodeImage b limits).map some) := by
  have htake : (utf8 stateStoreSchema).take 256 = utf8 stateStoreSchema := by decide
  have hschema : requireSchema (.complete image.canonicalBytes) = .ok () := by
    simp [requireSchema, Directory.complete, htake]
  have hopen : openGeneration r (generationName (image.stateHash B)) =
      .ok (.complete image.canonicalBytes) := by
    simp [openGeneration, validGenerationName_generationName, h.files]
  unfold AlphaDesk.loadHead
  rw [h.readHead]
  simp only [ok_bind, hopen, hschema]
  rfl

theorem Root.Holds.loadHead_iff (h : r.Holds B image) :
    AlphaDesk.loadHead limits r = .ok loaded ↔ image.Loadable limits ∧ loaded = some image := by
  rw [h.loadHead]
  constructor
  · intro hl
    obtain ⟨b, hb, hd⟩ := of_bind hl
    simp only [readRegular] at hb
    split at hb
    · cases hb
    · obtain rfl := ok.inj hb
      cases hi : decodeImage image.canonicalBytes limits with
      | error e => simp [hi, Except.map] at hd
      | ok decoded =>
        obtain ⟨rfl, hload⟩ := decodeImage_canonicalBytes_eq_ok hi
        rw [hi] at hd
        exact ⟨hload, (ok.inj hd).symm⟩
  · rintro ⟨hload, rfl⟩
    have hle := hload.within.bytes
    simp [readRegular, hle.not_gt, decodeImage_canonicalBytes hload, Except.map]

theorem loadLatest_self (limits : StateImageLimits) (r : Root) :
    loadLatest limits r limits = loadHead limits r :=
  if_neg (UInt64.lt_irrefl _)

variable {random : Vector UInt8 16}

/-- `HEAD` is the same and no generation was lost or changed. -/
structure Root.Extends (r s : Root) : Prop where
  head : s.head = r.head
  directories : ∀ g, validGenerationName g = true → ∀ d, r.directories g = some d →
    s.directories g = some d

theorem Root.Keeps.extends (h : r.Keeps (stagingName random) s) : r.Extends s := by
  refine ⟨h.head, fun g hg d hd => ?_⟩
  rw [h.directories g (ne_stagingName hg random), hd]

theorem Root.Publishes.extends {generation : String}
    (h : r.Publishes (stagingName random) generation bytes s) (hhead : s.head = r.head) :
    r.Extends s := by
  refine ⟨hhead, fun g hg d hd => ?_⟩
  have hne : g ≠ generation := by
    rintro rfl
    rw [h.absent] at hd
    cases hd
  rw [h.directories g (ne_stagingName hg random) hne, hd]

theorem loadHead_extends (he : r.Extends s) (h : loadHead limits r = .ok loaded) :
    loadHead limits s = .ok loaded := by
  have hhead : readHead s = readHead r := by simp only [readHead, he.head]
  unfold loadHead
  rw [hhead]
  obtain ⟨hg, rfl⟩ | ⟨g, d, image, hg, hd, hs, hi, rfl⟩ := loadHead_eq_ok h
  · rw [hg]
    rfl
  · have hopen : openGeneration s g = .ok d := by
      revert hd
      fun_cases openGeneration r g with
      | case2 hv directory hr =>
        rintro ⟨⟩
        rw [openGeneration, if_pos hv, he.directories g hv _ hr]
      | _ => rintro ⟨⟩
    obtain ⟨b, hb, hdec⟩ := of_bind hi
    simp only [hg, ok_bind, hopen, hs, hb, hdec]
    rfl

variable {existing : StateImage} {a : Admission}

theorem checkCommit_eq_ok (h : checkCommit limits r c = .ok a) :
    c.bytes.length ≤ limits.maxStateBytes.toNat ∧
    ((loadCurrent limits r = .ok none ∧ a = .publish) ∨
      ∃ existing, loadCurrent limits r = .ok (some existing) ∧
        checkExisting existing c = .ok a) := by
  obtain ⟨hle, h⟩ := of_check h
  refine ⟨not_lt.mp hle, ?_⟩
  obtain ⟨loaded, hl, h⟩ := of_bind h
  cases loaded with
  | none => exact .inl ⟨hl, (ok.inj h).symm⟩
  | some existing => exact .inr ⟨existing, hl, h⟩

theorem checkCommit_of_load (hle : c.bytes.length ≤ limits.maxStateBytes.toNat)
    (hl : loadCurrent limits r = .ok (some existing)) (ha : checkExisting existing c = .ok a) :
    checkCommit limits r c = .ok a := by
  unfold checkCommit
  rw [if_neg hle.not_gt, hl]
  exact ha

theorem checkCommit_extends (he : r.Extends s) (h : checkCommit limits r c = .ok a) :
    checkCommit limits s c = .ok a := by
  obtain ⟨hle, ⟨hl, rfl⟩ | ⟨existing, hl, ha⟩⟩ := checkCommit_eq_ok h
  · unfold checkCommit
    rw [if_neg hle.not_gt, loadCurrent, loadHead_extends he hl]
    rfl
  · exact checkCommit_of_load hle (loadHead_extends he hl) ha

theorem checkExisting_eq_publish (h : checkExisting existing c = .ok .publish) :
    ∃ w ∈ existing.watermark, existing.stateHash B = c.beforeStateHash ∧
      w.blockHeight + 1 = c.blockHeight := by
  revert h
  fun_cases checkExisting existing c with
  | case6 w hw _ _ hne =>
    simp only [ne_eq, not_or, not_not] at hne
    exact fun _ => ⟨w, hw, hne⟩
  | _ => rintro ⟨⟩

theorem checkExisting_eq_alreadyCommitted (h : checkExisting existing c = .ok .alreadyCommitted) :
    existing.stateHash B = c.afterStateHash := by
  revert h
  fun_cases checkExisting existing c with
  | case3 w hw _ _ heq => exact fun _ => heq.1
  | _ => rintro ⟨⟩

theorem checkExisting_stateImage (c : AtomicStateCommit B) :
    checkExisting c.stateImage c = .ok .alreadyCommitted := by
  unfold checkExisting
  rw [c.watermark_stateImage]
  simp [c.stateHash_stateImage]

/-- The image of the commit is the only one of its hash that the store has. -/
def NoCollision (limits : StateImageLimits) (r : Root) (c : AtomicStateCommit B) : Prop :=
  ∀ existing, loadCurrent limits r = .ok (some existing) →
    existing.stateHash B = c.afterStateHash → existing = c.stateImage

theorem Headed.holds {budget : Option ℕ} {t : Trace Root FileOp}
    (h : Headed name c.generation c.bytes r budget t) : t.state.Holds B c.stateImage := by
  refine ⟨?_, ?_⟩
  · rw [h.head, c.stateHash_stateImage]
    rfl
  · rw [c.stateHash_stateImage]
    exact h.publishes.complete

theorem load_alreadyCommitted (hcf : NoCollision limits r c)
    (h : checkCommit limits r c = .ok .alreadyCommitted) :
    loadHead limits r = .ok (some c.stateImage) := by
  obtain ⟨-, ⟨-, hn⟩ | ⟨existing, hl, ha⟩⟩ := checkCommit_eq_ok h
  · cases hn
  · obtain rfl := hcf existing hl (checkExisting_eq_alreadyCommitted ha)
    exact hl

/-- An attempt that publishes without interruption succeeds exactly when no generation of the name
is there, and what it leaves is then loaded exactly when the image is loadable. -/
theorem commit_uninterrupted {env : Environment} (henv : env.interruption = none)
    (hcheck : checkCommit limits r c = .ok .publish)
    (halloc : allocate r env.draws.toList = .ok name) :
    ((∃ d, (commit limits env r c).result = some (.ok d)) ↔ r.directories c.generation = none) ∧
    (r.directories c.generation = none → (commit limits env r c).root.Holds B c.stateImage) := by
  rcases commit_cases limits env r c with
    ⟨e, he, -⟩ | ⟨he, -⟩ | ⟨-, ⟨e, he, -⟩ | ⟨random, t, -, ht, hp⟩⟩
  · rw [hcheck] at he
    cases he
  · rw [hcheck] at he
    cases he
  · rw [halloc] at he
    cases he
  · rw [henv] at hp
    rw [ht]
    rcases hp with hp | hp | hp
    · rcases hp.ending with ⟨op, -, hb⟩ | ⟨-, hg⟩
      · cases hb
      · have hne : r.directories c.generation ≠ none := Option.isSome_iff_ne_none.mp hg
        exact ⟨⟨fun ⟨d, hd⟩ => absurd hd ((hp.conclude env c.receipt).2 d), fun h => absurd h hne⟩,
          fun h => absurd h hne⟩
    · obtain ⟨op, -, -, hb⟩ := hp.ending
      cases hb
    · obtain ⟨hroot, hres⟩ := hp.conclude env c.receipt
      refine ⟨⟨fun _ => hp.publishes.absent, fun _ => ⟨_, hres rfl⟩⟩, fun _ => ?_⟩
      rw [hroot]
      exact hp.holds

section Sample

open CanonicalLedger

def sampleEntries : ℕ → Entries
  | 0 => ∅
  | n + 1 => (sampleEntries n).insert ⟨"demo", [UInt8.ofNat n], by decide, rfl⟩ [1]

/-- A ledger behind block 7 with so many entries. -/
def sampleLedger (n : ℕ) : CanonicalLedger :=
  let state := (StateImage.empty sampleChain 7 "idle" (by decide)).commit
    ⟨7, .replicate 32 0⟩ (sampleEntries n) (by decide)
  ⟨.production, state, state.stateHash sumBlake3⟩

def emptyBlock (height : BlockHeight) : BlockEnvelope sumBlake3 :=
  quietBlock sumBlake3 nodeSource height 0 .committedPrimary

/-- The commit of block 8, without events, on that ledger. -/
def sampleCommit (n : ℕ) : AtomicStateCommit sumBlake3 :=
  .ofPrepared (sampleLedger n) (emptyBlock 8) (.start (sampleEntries n))
    (show (7 : UInt64) ≤ 8 by decide)

/-- Limits that checkCommit images of one entry. -/
def oneEntry : StateImageLimits := ⟨4096, 1, 64, 64, by decide, by decide⟩

theorem sampleCommit_loadable : (sampleCommit 1).stateImage.Loadable oneEntry :=
  ⟨⟨by decide +kernel, by decide +kernel, by decide +kernel⟩, by decide +kernel⟩

/-- An attempt whose first draw is the given byte, repeated. -/
def drawing (b : UInt8) (interruption : Option Interruption) : Environment :=
  ⟨.replicate _ (some (.replicate 16 b)), ⟨true, true, true⟩, interruption⟩

end Sample

/-- A commit that succeeds leaves its image loadable under the store's own limits exactly when the
decoder accepts that image, and, where the store found its hash already committed, the image it
found is the same one. -/
theorem commit_ok_loads_iff {env : Environment} (henv : env.interruption = none)
    {d : StateCommitDisposition} (hok : (commit limits env r c).result = some (.ok d)) :
    loadLatest limits (commit limits env r c).root limits = .ok (some c.stateImage) ↔
      c.stateImage.Loadable limits ∧
        (checkCommit limits r c = .ok .alreadyCommitted → NoCollision limits r c) := by
  rw [loadLatest_self]
  rcases commit_cases limits env r c with
    ⟨e, -, he⟩ | ⟨ha, he⟩ | ⟨ha, ⟨e, -, he⟩ | ⟨random, t, halloc, -, -⟩⟩
  · rw [he] at hok
    cases hok
  · rw [he]
    constructor
    · intro hl
      refine ⟨loadable_of_loadHead hl, fun _ existing hx _ => ?_⟩
      rw [loadCurrent, hl] at hx
      exact (Option.some.inj (ok.inj hx)).symm
    · exact fun h => load_alreadyCommitted (h.2 ha) ha
  · rw [he] at hok
    cases hok
  · obtain ⟨hiff, hholds⟩ := commit_uninterrupted henv ha halloc
    rw [(hholds (hiff.mp ⟨d, hok⟩)).loadHead_iff]
    simp [ha]

theorem commit_ok_loads_iff_sampleCommit :
    (commit oneEntry (drawing 0 none) .empty (sampleCommit 1)).result =
      some (.ok (.committed (sampleCommit 1).receipt)) ∧
    loadLatest oneEntry (commit oneEntry (drawing 0 none) .empty (sampleCommit 1)).root oneEntry =
      .ok (some (sampleCommit 1).stateImage) := by
  have hok : (commit oneEntry (drawing 0 none) .empty (sampleCommit 1)).result =
      some (.ok (.committed (sampleCommit 1).receipt)) := by decide +kernel
  refine ⟨hok, (commit_ok_loads_iff rfl hok).mpr ⟨sampleCommit_loadable, fun h => ?_⟩⟩
  exact absurd h (by decide +kernel)

/-- Two entries pass the byte check of the commit, but not the entry check of the load. -/
theorem commit_ok_not_loadable :
    (commit oneEntry (drawing 0 none) .empty (sampleCommit 2)).result =
      some (.ok (.committed (sampleCommit 2).receipt)) ∧
    loadLatest oneEntry (commit oneEntry (drawing 0 none) .empty (sampleCommit 2)).root oneEntry =
      .error .resourceLimit := by
  constructor <;> decide +kernel

/-- The generation was published, but `HEAD` was not moved to it. -/
def Attempt.Orphans (a : Attempt) (generation : String) : Prop :=
  (∃ name, .publish name generation ∈ a.performed) ∧ .publishHead ∉ a.performed

/-- The attempt succeeds, and what it leaves is loaded as the image of the commit. -/
def Recovers (limits : StateImageLimits) (retry : Environment) (s : Root)
    (c : AtomicStateCommit B) : Prop :=
  (∃ d, (commit limits retry s c).result = some (.ok d)) ∧
    loadLatest limits (commit limits retry s c).root limits = .ok (some c.stateImage)

variable {retry : Environment}

theorem not_recovers_of_error {e : StateStoreError} (h : checkCommit limits s c = .error e) :
    ¬ Recovers limits retry s c := by
  rintro ⟨⟨d, hd⟩, -⟩
  unfold commit at hd
  rw [h] at hd
  cases hd

theorem recovers_publish_iff (hretry : retry.interruption = none)
    (hs : checkCommit limits s c = .ok .publish) (ha : allocate s retry.draws.toList = .ok name) :
    Recovers limits retry s c ↔
      c.stateImage.Loadable limits ∧ s.directories c.generation = none := by
  obtain ⟨hiff, hholds⟩ := commit_uninterrupted hretry hs ha
  rw [Recovers, hiff, loadLatest_self]
  constructor
  · rintro ⟨hg, hl⟩
    exact ⟨((hholds hg).loadHead_iff.mp hl).1, hg⟩
  · rintro ⟨hl, hg⟩
    exact ⟨hg, (hholds hg).loadHead_iff.mpr ⟨hl, rfl⟩⟩

theorem recovers_alreadyCommitted_iff (hs : checkCommit limits s c = .ok .alreadyCommitted) :
    Recovers limits retry s c ↔ c.stateImage.Loadable limits ∧ NoCollision limits s c := by
  have hcommit : commit limits retry s c =
      ⟨some (.ok (.alreadyCommitted c.receipt)), [], s⟩ := by
    unfold commit
    rw [hs]
  rw [Recovers, hcommit, loadLatest_self]
  constructor
  · rintro ⟨-, hl⟩
    refine ⟨loadable_of_loadHead hl, fun existing hx _ => ?_⟩
    rw [loadCurrent, hl] at hx
    exact (Option.some.inj (ok.inj hx)).symm
  · rintro ⟨-, hcf⟩
    exact ⟨⟨_, rfl⟩, load_alreadyCommitted hcf hs⟩

theorem recovers_holds_iff (hs : s.Holds B c.stateImage) :
    Recovers limits retry s c ↔ c.stateImage.Loadable limits := by
  constructor
  · rintro ⟨⟨d, hd⟩, -⟩
    cases ha : checkCommit limits s c with
    | error e =>
      unfold commit at hd
      rw [ha] at hd
      cases hd
    | ok a =>
      obtain ⟨-, ⟨hl, -⟩ | ⟨existing, hl, -⟩⟩ := checkCommit_eq_ok ha
      · exact (hs.loadHead_iff.mp hl).1
      · exact (hs.loadHead_iff.mp hl).1
  · intro hload
    have hl : loadCurrent limits s = .ok (some c.stateImage) := hs.loadHead_iff.mpr ⟨hload, rfl⟩
    have ha := checkCommit_of_load hload.within.bytes hl (checkExisting_stateImage c)
    refine (recovers_alreadyCommitted_iff ha).mpr ⟨hload, fun existing hx _ => ?_⟩
    rw [hl] at hx
    exact (Option.some.inj (ok.inj hx)).symm

/-- After an attempt cut short at any point, an uninterrupted retry of the same commit succeeds and
makes its image loadable exactly when the decoder accepts the image, the commit is admissible, its
generation is not there already, and the cut did not come between the publication of the generation
and the move of `HEAD`. -/
theorem retry_recovers_iff (env : Environment) (hretry : retry.interruption = none) {name : String}
    (halloc : allocate (commit limits env r c).root retry.draws.toList = .ok name) :
    Recovers limits retry (commit limits env r c).root c ↔
    c.stateImage.Loadable limits ∧
      ((checkCommit limits r c = .ok .alreadyCommitted ∧ NoCollision limits r c) ∨
      (checkCommit limits r c = .ok .publish ∧ r.directories c.generation = none ∧
        ¬ (commit limits env r c).Orphans c.generation)) := by
  rcases commit_cases limits env r c with
    ⟨e, ha, he⟩ | ⟨ha, he⟩ | ⟨ha, ⟨e, -, he⟩ | ⟨random, t, -, ht, hp⟩⟩
  · rw [he]
    have hno : ¬ Recovers limits retry r c := not_recovers_of_error ha
    simp [Attempt.refuse, ha, hno]
  · rw [he, recovers_alreadyCommitted_iff ha]
    simp [ha]
  · rw [he] at halloc ⊢
    have hiff := recovers_publish_iff hretry ha halloc
    simpa [Attempt.refuse, ha, Attempt.Orphans] using hiff
  · have horphans : (commit limits env r c).Orphans c.generation ↔
        (∃ name, .publish name c.generation ∈ t.performed) ∧ .publishHead ∉ t.performed := by
      rw [ht, Attempt.Orphans, conclude_performed]
    simp only [horphans, ha, reduceCtorEq, ok.injEq, false_and, false_or, true_and]
    rcases hp with hp | hp | hp
    · -- nothing was published: the retry meets the same generation and the same `HEAD`
      obtain ⟨hkeep, -⟩ := hp.conclude env c.receipt
      rw [← ht] at hkeep
      rw [recovers_publish_iff hretry (checkCommit_extends hkeep.extends ha) halloc,
        hkeep.directories _ (generation_ne_stagingName c random)]
      simp [hp.performed]
    · -- the retry meets the orphaned generation
      obtain ⟨op, hend, howns, -⟩ := hp.ending
      have hroot := (conclude_interrupted hend howns env (stagingName random) c.receipt).1
      rw [← ht] at hroot
      have hext := hp.publishes.extends hp.head
      rw [← hroot] at hext
      rw [recovers_publish_iff hretry (checkCommit_extends hext ha) halloc, hroot,
        hp.publishes.complete]
      simp only [reduceCtorEq, and_false, false_iff, not_and, not_not]
      exact fun _ _ h => hp.not_headed (h ⟨_, hp.performed⟩)
    · have hroot := (hp.conclude env c.receipt).1
      rw [← ht] at hroot
      rw [hroot, recovers_holds_iff hp.holds]
      simp [hp.publishes.absent, hp.headed]

/-- An attempt that crashes while it writes its files is made good by the retry. -/
theorem retry_recovers_iff_sampleCommit :
    (commit oneEntry (drawing 0 (some ⟨5, .crash⟩)) .empty (sampleCommit 1)).result = none ∧
    Recovers oneEntry (drawing 1 none)
      (commit oneEntry (drawing 0 (some ⟨5, .crash⟩)) .empty (sampleCommit 1)).root
      (sampleCommit 1) := by
  refine ⟨by decide +kernel, ?_⟩
  have halloc : allocate (commit oneEntry (drawing 0 (some ⟨5, .crash⟩)) .empty
      (sampleCommit 1)).root (drawing 1 none).draws.toList =
      .ok (stagingName (.replicate 16 1)) := by decide +kernel
  refine (retry_recovers_iff _ rfl halloc).mpr ⟨sampleCommit_loadable, .inr ⟨by decide +kernel, rfl,
    fun h => ?_⟩⟩
  have hlen : (commit oneEntry (drawing 0 (some ⟨5, .crash⟩)) .empty (sampleCommit 1)).performed =
      (stagingOps (stagingName (.replicate 16 0)) (sampleCommit 1).bytes).take 5 := by
    decide +kernel
  obtain ⟨⟨name, hm⟩, -⟩ := h
  rw [hlen] at hm
  exact (not_mem_stagingOps (List.mem_of_mem_take hm)).1 _ _ rfl

/-- The attempt stops after the thirteenth operation, which publishes the generation, in a crash or
in a failure of the next operation: the retry is refused, although the image is loadable and the
store was empty. -/
theorem retry_refused_after_publication :
    ([Fault.crash, Fault.ioError].map fun fault =>
      (commit oneEntry (drawing 1 none)
        (commit oneEntry (drawing 0 (some ⟨13, fault⟩)) .empty (sampleCommit 1)).root
        (sampleCommit 1)).result) = [some (.error .conflict), some (.error .conflict)] ∧
    (commit oneEntry (drawing 1 none) .empty (sampleCommit 1)).result =
      some (.ok (.committed (sampleCommit 1).receipt)) := by
  constructor <;> decide +kernel

end AlphaDesk
