import AlphaDesk.State.Image

/-! # The image codec is a bijection

Each step of the image decoder is exact for the bytes the encoder writes at its
place, and the entry loop accepts exactly the entries of an ordered map. So the
decoder accepts exactly the canonical bytes of an image within its limits, and images
with the same bytes are equal.
-/

namespace AlphaDesk

open Bytes StateT StateImage UInt64

variable {limits : StateImageLimits} {e : StateKey × List UInt8} {m : Entries} {n : ℕ}
  {c : StateCursor}

section Exact

open StateCursor

theorem rest_new (bytes : List UInt8) (h : bytes.length < size) :
    (new bytes h).rest = bytes := rfl

theorem rest_eq_nil_iff (c : StateCursor) : c.isFinished = true ↔ c.rest = [] := by
  have := c.offset_le
  simp only [isFinished, rest, beq_iff_eq, List.drop_eq_nil_iff]
  omega

theorem reads_take (n : ℕ) : Reads rest (take n) id (fun bs => bs.length = n) where
  accepts := by
    rintro c a tail rfl hrest
    have hlen : c.bytes.length - c.offset = a.length + tail.length := by
      simpa [rest] using congrArg List.length hrest
    have hend : c.offset + a.length ≤ c.bytes.length := by
      have := c.offset_le
      omega
    refine ⟨{ c with offset := c.offset + a.length, offset_le := hend }, ?_, ?_⟩
    · unfold take
      rw [if_pos (hend.trans_lt c.length_lt), dif_pos hend]
      simp only [rest, id] at hrest
      rw [hrest, List.take_left']
      rfl
    · simp only [rest, id] at hrest ⊢
      rw [← List.drop_drop, hrest, List.drop_left]
  consumed := by
    intro c a c' h
    unfold take at h
    split at h
    · split at h
      next hend =>
        obtain ⟨rfl, rfl⟩ := Prod.mk.inj (Except.ok.inj h)
        refine ⟨?_, ?_⟩
        · simp only [List.length_take, List.length_drop]
          omega
        · simp only [rest, id, ← List.drop_drop, List.take_append_drop]
      next => cases h
    · cases h

theorem reads_byte : Reads rest byte (fun b => [b]) (fun _ => True) := by
  refine ((reads_take 1).convert (fun b => [b]) (fun _ => True) ?_).congr (by simp) (by simp)
  intro a b c c' ha
  obtain ⟨x, rfl⟩ := List.length_eq_one_iff.mp ha
  rw [except_pure_eq_ok]
  simp

theorem reads_u64 : Reads rest u64 (fun n => beBytes 8 n.toNat) (fun _ => True) := by
  refine ((reads_take 8).convert (fun n : UInt64 => beBytes 8 n.toNat) (fun _ => True) ?_).congr
    (by simp) (by simp)
  intro a n c c' ha
  have hlt : beNat a < 2 ^ 64 := by
    have := beNat_lt a
    rw [ha] at this
    omega
  rw [except_pure_eq_ok, and_true]
  refine and_congr_left fun _ => ⟨?_, ?_⟩
  · rintro rfl
    rw [toNat_ofNat_of_lt' hlt, ← ha, beBytes_beNat]
  · rintro rfl
    rw [beNat_beBytes n.toNat_lt, UInt64.ofNat_toNat]

theorem reads_hash : Reads rest hash Vector.toList (fun _ => True) := by
  refine ((reads_take 32).convert Vector.toList (fun _ => True) ?_).congr (by simp) (by simp)
  intro a h c c' ha
  rw [except_pure_eq_ok, and_true]
  refine and_congr_left fun _ => ⟨?_, ?_⟩
  · rintro rfl
    apply List.ext_getElem
    · simp [ha]
    · intro i h₁ h₂
      simp [List.getElem?_eq_getElem h₁]
  · rintro rfl
    ext i hi
    simp

theorem reads_frame (hn : n < 2 ^ 64) :
    Reads rest (StateCursor.frame n) Bytes.frame (fun bs => bs.length ≤ n) := by
  refine (reads_u64.bind (fun bs => ofNat bs.length) _ _
    (fun l _ => Reads.check fun _ => reads_take l.toNat) ?_).congr ?_ ?_
  · rintro l bs ⟨-, hl⟩
    rw [hl, UInt64.ofNat_toNat]
  · intro bs
    constructor
    · intro hbs
      rw [toNat_ofNat_of_lt' (hbs.trans_lt hn)]
      exact ⟨trivial, by omega, rfl⟩
    · rintro ⟨-, hle, hl⟩
      omega
  · rintro bs ⟨-, hle, hl⟩
    rw [Bytes.frame, ← hl]
    rfl

theorem reads_count (hn : n < 2 ^ 64) : Reads rest (count n) (beBytes 8) (fun m => m ≤ n) := by
  refine (reads_u64.bind (fun m => ofNat m) _ _
    (fun l _ => Reads.check fun _ => Reads.pure l.toNat) ?_).congr ?_ ?_
  · rintro l m ⟨-, rfl⟩
    exact UInt64.ofNat_toNat
  · intro m
    constructor
    · intro hm
      rw [toNat_ofNat_of_lt' (hm.trans_lt hn)]
      exact ⟨trivial, by omega, rfl⟩
    · rintro ⟨-, hle, hl⟩
      omega
  · rintro m ⟨-, hle, hl⟩
    rw [← hl, List.append_nil]

theorem length_le_of_validReducerVersion {v : String} (h : validReducerVersion v = true) :
    (utf8 v).length ≤ 128 := by
  simp only [validReducerVersion, Bool.and_eq_true, decide_eq_true_eq] at h
  exact h.1.1.1.2

theorem decodeText_eq_ok_iff {bs : List UInt8} {field text : String} :
    decodeText bs field = .ok text ↔ bs = utf8 text := by
  unfold decodeText
  cases h : fromUtf8 bs with
  | none =>
    refine ⟨nofun, ?_⟩
    rintro rfl
    simp at h
  | some t =>
    rw [← utf8_of_fromUtf8 h]
    simp

theorem reads_text (hn : n < 2 ^ 64) (field : String) :
    Reads rest (readText n field) (fun text => Bytes.frame (utf8 text))
      (fun text => (utf8 text).length ≤ n) := by
  refine ((reads_frame hn).convert utf8 (fun _ => True) ?_).congr (by simp) (by simp)
  intro a text c c' _
  rw [except_lift_eq_ok, decodeText_eq_ok_iff, and_true]

theorem reads_schema :
    Reads rest readSchema (fun _ => Bytes.frame stateImageSchema) (fun _ => True) := by
  refine ((reads_frame (by decide)).convert (fun _ : Unit => stateImageSchema)
    (fun _ => True) ?_).congr (fun _ => by simp; decide) (by simp)
  intro a u c c' _
  split
  next h => simp [except_pure_eq_ok, h]
  next h =>
    refine ⟨nofun, ?_⟩
    rintro ⟨⟨ha, -⟩, -⟩
    exact absurd ha h

theorem reads_chainId :
    Reads rest readChainId (fun id => Bytes.frame id.asBytes)
      (fun id => id.asBytes.length ≤ 256) := by
  refine ((reads_text (by decide : 256 < 2 ^ 64) "chain_id").convert StringId.value
    (fun _ => True) ?_).congr
    (by simp [StringId.asBytes]) (by simp [StringId.asBytes])
  intro text id c c' _
  rw [and_true]
  cases hi : StringId.new text with
  | ok i =>
    rw [except_pure_eq_ok, ← StringId.value_of_new hi]
    exact and_congr_left fun _ => StringId.value_injective.eq_iff.symm
  | error e =>
    refine ⟨nofun, ?_⟩
    rintro ⟨rfl, -⟩
    rw [StringId.new_value] at hi
    cases hi

theorem reads_version :
    Reads rest readVersion (fun v => Bytes.frame (utf8 v.1)) (fun _ => True) := by
  refine ((reads_text (by decide : 128 < 2 ^ 64) "reducer_set_version").convert Subtype.val
    (fun _ => True) ?_).congr ?_ (by simp)
  · intro text v c c' _
    rw [and_true]
    split
    next h =>
      rw [except_pure_eq_ok, Subtype.ext_iff]
    next h =>
      refine ⟨nofun, ?_⟩
      rintro ⟨rfl, -⟩
      exact absurd v.2 h
  · intro v
    simp only [and_true, true_iff]
    exact length_le_of_validReducerVersion v.2

def watermarkTag {ω : Type} : Option ω → UInt8
  | some _ => 1
  | none => 0

theorem reads_presentWatermark (firstHeight : BlockHeight) :
    Reads rest (do
        let blockHeight ← u64
        if h : firstHeight ≤ blockHeight then return some ⟨⟨blockHeight, ← StateCursor.hash⟩, h⟩
        else throw (.invalidField "block_height") :
          Cursor (Option { w : StateWatermark // firstHeight ≤ w.blockHeight }))
      (fun w => (encodeWatermark (w.map Subtype.val)).tail) (fun w => w.isSome) where
  accepts := by
    rintro c (_ | ⟨w, hw⟩) tail hsome hrest
    · cases hsome
    · simp only [Option.map_some, encodeWatermark, List.tail_cons, List.append_assoc] at hrest
      obtain ⟨c₁, h₁, hrest₁⟩ := reads_u64.accepts trivial hrest
      obtain ⟨c₂, h₂, hrest₂⟩ := reads_hash.accepts trivial hrest₁
      refine ⟨c₂, except_bind_eq_ok.mpr ⟨_, _, h₁, ?_⟩, hrest₂⟩
      rw [dif_pos hw]
      exact except_bind_eq_ok.mpr ⟨_, _, h₂, rfl⟩
  consumed := by
    intro c w c' h
    obtain ⟨n, c₁, h₁, hn⟩ := except_bind_eq_ok.mp h
    split at hn
    next hle =>
      obtain ⟨x, c₂, h₂, hx⟩ := except_bind_eq_ok.mp hn
      obtain ⟨rfl, rfl⟩ := except_pure_eq_ok.mp hx
      refine ⟨rfl, ?_⟩
      rw [(reads_u64.consumed h₁).2, (reads_hash.consumed h₂).2]
      simp [encodeWatermark]
    next => cases hn

theorem reads_watermark (firstHeight : BlockHeight) :
    Reads rest (readWatermark firstHeight) (fun w => encodeWatermark (w.map Subtype.val))
      (fun _ => True) := by
  refine (reads_byte.bind watermarkTag (fun _ w => (encodeWatermark (w.map Subtype.val)).tail)
    (fun b w => watermarkTag w = b) (fun b _ => ?_) (fun _ _ h => h)).congr ?_ ?_
  · by_cases h0 : b = 0
    · rw [if_pos h0]
      refine (Reads.pure none).congr ?_ ?_
      · rintro (_ | w)
        · simp [watermarkTag, h0]
        · simp [watermarkTag, h0]
      · rintro _ rfl
        rfl
    · rw [if_neg h0]
      by_cases h1 : b = 1
      · rw [if_pos h1]
        refine (reads_presentWatermark firstHeight).congr ?_ (fun _ _ => rfl)
        rintro (_ | w)
        · simp [watermarkTag, h1]
        · simp [watermarkTag, h1]
      · rw [if_neg h1]
        refine ⟨?_, nofun⟩
        rintro c (_ | w) tail hv
        · exact absurd hv.symm h0
        · exact absurd hv.symm h1
  · simp
  · rintro (_ | w) -
    · rfl
    · rfl

theorem length_le_of_validNamespace {ns : String} (h : validNamespace ns = true) :
    (utf8 ns).length ≤ maxNamespaceBytes := by
  simp only [validNamespace, Bool.and_eq_true, decide_eq_true_eq] at h
  exact h.1.1.1.2

theorem reads_key (limits : StateImageLimits) :
    Reads rest (readKey limits) (fun k => Bytes.frame (utf8 k.ns) ++ Bytes.frame k.key)
      (fun k => k.key.length ≤ limits.maxKeyBytes.toNat) := by
  refine ((reads_text (by decide : maxNamespaceBytes < 2 ^ 64) "state namespace").bind StateKey.ns
    (fun _ k => Bytes.frame k.key)
    (fun ns k => k.key.length ≤ limits.maxKeyBytes.toNat ∧ k.ns = ns) (fun ns _ => ?_)
    (fun _ _ h => h.2)).congr (fun k => ?_) (fun _ _ => rfl)
  · refine (reads_frame limits.maxKeyBytes.toNat_lt).convert StateKey.key (·.ns = ns) ?_
    intro key k c c' _
    rw [and_comm (a := key = k.key), eq_comm (a := k.ns), ← StateKey.tryNew_eq_ok_iff]
    cases StateKey.tryNew ns key with
    | ok k' => simp [except_pure_eq_ok]
    | error e => exact ⟨nofun, by simp⟩
  · simp [length_le_of_validNamespace k.namespace_valid]

end Exact

section Exact

open StateCursor

variable {previous : Option StateKey} {m' : Entries}

/-- The bounds an entry must meet to be decoded under `limits`. -/
def EntryWithin (limits : StateImageLimits) (e : StateKey × List UInt8) : Prop :=
  e.1.key.length ≤ limits.maxKeyBytes.toNat ∧ e.2.length ≤ limits.maxValueBytes.toNat

instance (limits : StateImageLimits) : DecidablePred (EntryWithin limits) :=
  fun _ => inferInstanceAs (Decidable (_ ∧ _))

/-- `key` lies above the previous key, if there was one. -/
def Above (previous : Option StateKey) (key : StateKey) : Prop :=
  ∀ prior ∈ previous, compare prior key = .lt

theorem above_iff {key : StateKey} :
    ¬ previous.any (fun prior => (compare prior key).isGE) = true ↔ Above previous key := by
  cases previous with
  | none => simp [Above]
  | some prior =>
    cases h : compare prior key <;> simp [Above, h, Ordering.isGE]

theorem reads_entry (limits : StateImageLimits) (previous : Option StateKey) :
    Reads rest (readEntry limits previous) encodeEntry
      (fun e => EntryWithin limits e ∧ Above previous e.1) := by
  refine ((reads_key limits).bind Prod.fst (fun _ e => Bytes.frame e.2)
    (fun k e => Above previous k ∧ e.2.length ≤ limits.maxValueBytes.toNat ∧ e.1 = k)
    (fun k _ => ?_) (fun _ _ h => h.2.2)).congr ?_ ?_
  · have hvalue : Reads rest (do return (k, ← StateCursor.frame limits.maxValueBytes.toNat) :
          Cursor (StateKey × List UInt8)) (fun e => Bytes.frame e.2)
        (fun e => e.2.length ≤ limits.maxValueBytes.toNat ∧ e.1 = k) := by
      refine ((reads_frame limits.maxValueBytes.toNat_lt).bind Prod.snd (fun _ _ => [])
        (fun v e => e = (k, v)) (fun v _ => Reads.pure (k, v)) (by simp)).congr ?_ (by simp)
      rintro ⟨k', v⟩
      simp
    refine (Reads.check fun _ => hvalue).congr ?_ (fun _ _ => rfl)
    intro e
    rw [above_iff]
  · intro e
    simp [EntryWithin]
    tauto
  · intro e _
    simp [encodeEntry]

/-- Every key of `m` lies below each key that is above `previous`. -/
def Below (m : Entries) (previous : Option StateKey) : Prop :=
  ∀ e ∈ m.toList, ∀ k, Above previous k → compare e.1 k = .lt

theorem below_empty (previous : Option StateKey) : Below ∅ previous := by simp [Below]

theorem Below.toList_insert (hm : Below m previous) (ha : Above previous e.1) :
    (m.insert e.1 e.2).toList = m.toList ++ [e] :=
  Std.ExtTreeMap.toList_insert_greatest e.2 fun e' he' => hm e' he' _ ha

theorem Below.insert (hm : Below m previous) (ha : Above previous e.1) :
    Below (m.insert e.1 e.2) (some e.1) := by
  intro e' he' k hk
  rw [hm.toList_insert ha, List.mem_append, List.mem_singleton] at he'
  obtain he' | rfl := he'
  · exact Std.TransCmp.lt_trans (hm e' he' _ ha) (hk e.1 rfl)
  · exact hk _ rfl

theorem readEntries_accepts {l : List (StateKey × List UInt8)} {tail : List UInt8}
    (hm : Below m previous) (hl : l.length = n) (hm' : m'.toList = m.toList ++ l)
    (hw : ∀ e ∈ l, EntryWithin limits e) (ha : ∀ e ∈ l.head?, Above previous e.1)
    (hrest : c.rest = l.flatMap encodeEntry ++ tail) :
    ∃ c', readEntries limits n previous m c = .ok (m', c') ∧ c'.rest = tail := by
  induction l generalizing n previous m c with
  | nil =>
    obtain rfl : n = 0 := hl.symm
    obtain rfl : m' = m := Std.ExtTreeMap.toList_inj.mp (by simpa using hm')
    exact ⟨c, rfl, hrest⟩
  | cons e l ih =>
    obtain rfl : n = l.length + 1 := hl.symm
    have hae : Above previous e.1 := ha e rfl
    have hsorted := hm' ▸ m'.ordered_keys_toList
    have hnext : ∀ e' ∈ l.head?, Above (some e.1) e'.1 := by
      intro e' he' k hk
      obtain rfl := Option.some.inj hk
      exact List.rel_of_pairwise_cons (List.pairwise_append.mp hsorted).2.1
        (List.mem_of_mem_head? he')
    rw [List.flatMap_cons, List.append_assoc] at hrest
    obtain ⟨c₁, h₁, hrest₁⟩ := (reads_entry limits previous).accepts
      ⟨hw e List.mem_cons_self, hae⟩ hrest
    obtain ⟨c₂, h₂, hrest₂⟩ := ih (hm.insert hae) rfl (by simp [hm', hm.toList_insert hae])
      (fun e' he' => hw e' (List.mem_cons_of_mem _ he')) hnext hrest₁
    exact ⟨c₂, except_bind_eq_ok.mpr ⟨_, _, h₁, h₂⟩, hrest₂⟩

theorem readEntries_consumed {c' : StateCursor} (hm : Below m previous)
    (h : readEntries limits n previous m c = .ok (m', c')) :
    ∃ l, l.length = n ∧ m'.toList = m.toList ++ l ∧ (∀ e ∈ l, EntryWithin limits e) ∧
      c.rest = l.flatMap encodeEntry ++ c'.rest := by
  induction n generalizing previous m c with
  | zero =>
    obtain ⟨rfl, rfl⟩ := except_pure_eq_ok.mp h
    exact ⟨[], by simp⟩
  | succ n ih =>
    obtain ⟨e, c₁, h₁, h₂⟩ := except_bind_eq_ok.mp h
    obtain ⟨⟨hw, ha⟩, hrest⟩ := (reads_entry limits previous).consumed h₁
    obtain ⟨l, hl, hm', hlw, hrest'⟩ := ih (hm.insert ha) h₂
    refine ⟨e :: l, by simp [hl], by simp [hm', hm.toList_insert ha], ?_, ?_⟩
    · intro e' he'
      obtain rfl | he' := List.mem_cons.mp he'
      · exact hw
      · exact hlw e' he'
    · rw [hrest, hrest', List.flatMap_cons, List.append_assoc]

theorem reads_entries (limits : StateImageLimits) (n : ℕ) :
    Reads rest (readEntries limits n none ∅) (fun m => m.toList.flatMap encodeEntry)
      (fun m => m.size = n ∧ ∀ e ∈ m.toList, EntryWithin limits e) where
  accepts := by
    rintro c m tail ⟨hn, hw⟩ hrest
    exact readEntries_accepts (below_empty _) (by rw [Std.ExtTreeMap.length_toList, hn]) (by simp)
      hw (by simp [Above]) hrest
  consumed := by
    intro c m c' h
    obtain ⟨l, hl, hm, hw, hrest⟩ := readEntries_consumed (below_empty _) h
    obtain rfl : m.toList = l := by simpa using hm
    exact ⟨⟨by rw [← Std.ExtTreeMap.length_toList, hl], hw⟩, hrest⟩

/-- What the decoder requires of the fields of an image under `limits`. -/
structure FieldsWithin (limits : StateImageLimits) (s : StateImage) : Prop where
  chainId : s.chainId.asBytes.length ≤ 256
  count : s.entries.size ≤ limits.maxEntries.toNat
  entry : ∀ e ∈ s.entries.toList, EntryWithin limits e

theorem reads_image (limits : StateImageLimits) :
    Reads rest (readImage limits) canonicalBytes (FieldsWithin limits) where
  accepts := by
    intro c s tail hs hrest
    simp only [canonicalBytes, encodeEntries, List.append_assoc] at hrest
    obtain ⟨c₁, h₁, hrest⟩ := reads_schema.accepts (a := ()) trivial hrest
    obtain ⟨c₂, h₂, hrest⟩ := reads_chainId.accepts hs.chainId hrest
    obtain ⟨c₃, h₃, hrest⟩ := reads_u64.accepts trivial hrest
    obtain ⟨c₄, h₄, hrest⟩ := reads_version.accepts (a := ⟨_, s.version_valid⟩) trivial hrest
    obtain ⟨chainId, firstHeight, version, watermark, entries, hv, hle, hempty⟩ := s
    cases watermark with
    | none =>
      obtain rfl : entries = ∅ := hempty rfl
      obtain ⟨c₅, h₅, hrest⟩ :=
        (reads_watermark firstHeight).accepts (a := none) trivial hrest
      obtain ⟨c₆, h₆, hrest⟩ := (reads_count limits.maxEntries.toNat_lt).accepts hs.count hrest
      refine ⟨c₆, ?_, by simpa using hrest⟩
      unfold readImage
      simp only [except_bind_eq_ok]
      exact ⟨_, _, h₁, _, _, h₂, _, _, h₃, _, _, h₄, _, _, h₅, _, _, h₆, rfl⟩
    | some w =>
      obtain ⟨c₅, h₅, hrest⟩ :=
        (reads_watermark firstHeight).accepts (a := some ⟨w, hle w rfl⟩) trivial hrest
      obtain ⟨c₆, h₆, hrest⟩ := (reads_count limits.maxEntries.toNat_lt).accepts hs.count hrest
      obtain ⟨c₇, h₇, hrest⟩ := (reads_entries limits _).accepts ⟨rfl, hs.entry⟩ hrest
      refine ⟨c₇, ?_, hrest⟩
      unfold readImage
      simp only [except_bind_eq_ok]
      exact ⟨_, _, h₁, _, _, h₂, _, _, h₃, _, _, h₄, _, _, h₅, _, _, h₆,
        except_bind_eq_ok.mpr ⟨_, _, h₇, rfl⟩⟩
  consumed := by
    intro c s c' h
    unfold readImage at h
    simp only [except_bind_eq_ok] at h
    obtain ⟨_, c₁, h₁, chainId, c₂, h₂, firstHeight, c₃, h₃, version, c₄, h₄, watermark, c₅, h₅,
      n, c₆, h₆, h⟩ := h
    have hchain := reads_chainId.consumed h₂
    have hcount := (reads_count limits.maxEntries.toNat_lt).consumed h₆
    have hrest : c.rest = Bytes.frame stateImageSchema ++ (Bytes.frame chainId.asBytes ++
        (beBytes 8 firstHeight.toNat ++ (Bytes.frame (utf8 version.1) ++
          (encodeWatermark (watermark.map Subtype.val) ++ (beBytes 8 n ++ c₆.rest))))) := by
      rw [(reads_schema.consumed h₁).2, hchain.2, (reads_u64.consumed h₃).2,
        (reads_version.consumed h₄).2, ((reads_watermark firstHeight).consumed h₅).2, hcount.2]
    cases watermark with
    | none =>
      dsimp only at h
      split at h
      · cases h
      next hn =>
        obtain ⟨rfl, rfl⟩ := except_pure_eq_ok.mp h
        obtain rfl : n = 0 := not_not.mp hn
        exact ⟨⟨hchain.1, by simp [empty], by simp [empty]⟩,
          by simpa [canonicalBytes, empty, encodeEntries] using hrest⟩
    | some w =>
      obtain ⟨entries, c₇, h₇, h⟩ := except_bind_eq_ok.mp h
      obtain ⟨rfl, rfl⟩ := except_pure_eq_ok.mp h
      obtain ⟨⟨rfl, hw⟩, hrest'⟩ := (reads_entries limits n).consumed h₇
      refine ⟨⟨hchain.1, hcount.1, hw⟩, ?_⟩
      rw [hrest, hrest']
      simp [canonicalBytes, empty, commit, encodeEntries]

end Exact

namespace StateImage

variable {s : StateImage} {b : List UInt8}

/-- The bounds an image must meet to be decoded under `limits`. -/
structure WithinLimits (limits : StateImageLimits) (s : StateImage) : Prop where
  bytes : s.canonicalBytes.length ≤ limits.maxStateBytes.toNat
  count : s.entries.size ≤ limits.maxEntries.toNat
  entry : ∀ e ∈ s.entries.toList, EntryWithin limits e

theorem decodeCanonical_of_eq_ok (h : decodeCanonical b limits = .ok s) :
    b = s.canonicalBytes ∧ s.WithinLimits limits ∧ s.chainId.asBytes.length ≤ 256 := by
  unfold decodeCanonical at h
  split at h
  next hlen =>
    split at h
    next s' c hr =>
      split at h
      next hfin =>
        obtain rfl := Except.ok.inj h
        obtain ⟨hs, hrest⟩ := (reads_image limits).consumed hr
        rw [(rest_eq_nil_iff c).mp hfin, List.append_nil, rest_new] at hrest
        exact ⟨hrest, ⟨hrest ▸ hlen, hs.count, hs.entry⟩, hs.chainId⟩
      next => cases h
    next => cases h
  next => cases h

theorem decodeCanonical_of_readImage (hb : b.length ≤ limits.maxStateBytes.toNat)
    (hr : readImage limits (StateCursor.new b (hb.trans_lt (UInt64.toNat_lt_size _))) = .ok (s, c))
    (hc : c.rest = []) : decodeCanonical b limits = .ok s := by
  unfold decodeCanonical
  rw [dif_pos hb, hr]
  exact if_pos ((rest_eq_nil_iff c).mpr hc)

theorem decodeCanonical_canonicalBytes (hw : s.WithinLimits limits)
    (hchain : s.chainId.asBytes.length ≤ 256) :
    decodeCanonical s.canonicalBytes limits = .ok s := by
  obtain ⟨c, hc, hrest⟩ := (reads_image limits).accepts ⟨hchain, hw.count, hw.entry⟩
    ((rest_new _ (hw.bytes.trans_lt (UInt64.toNat_lt_size _))).trans (List.append_nil _).symm)
  exact decodeCanonical_of_readImage hw.bytes hc hrest

theorem length_encodeEntry_le (he : e ∈ m.toList) :
    (encodeEntry e).length ≤ (encodeEntries m).length := by
  have hsub := (List.sublist_flatten_of_mem (List.mem_map_of_mem (f := encodeEntry) he)).length_le
  rw [encodeEntries, List.length_append, List.flatMap_def]
  omega

theorem size_le_length_encodeEntries (m : Entries) : m.size ≤ (encodeEntries m).length := by
  have hsum : m.toList.length ≤ (m.toList.flatMap encodeEntry).length := by
    rw [List.length_flatMap]
    refine List.length_le_sum_of_one_le _ ?_ |>.trans' (by simp)
    intro n hn
    obtain ⟨e, -, rfl⟩ := List.mem_map.mp hn
    simp only [encodeEntry, List.length_append, length_frame]
    omega
  rw [Std.ExtTreeMap.length_toList] at hsum
  rw [encodeEntries, List.length_append]
  omega

theorem withinLimits_widest (hs : s.canonicalBytes.length < size) :
    s.WithinLimits StateImageLimits.widest := by
  have hle : (encodeEntries s.entries).length ≤ s.canonicalBytes.length := by
    simp only [canonicalBytes, List.length_append]
    omega
  have hmax : toNat 0xFFFFFFFFFFFFFFFF = size - 1 := by decide
  refine ⟨?_, ?_, fun e he => ⟨?_, ?_⟩⟩
  · simp only [StateImageLimits.widest, hmax]
    omega
  · have := size_le_length_encodeEntries s.entries
    simp only [StateImageLimits.widest, hmax]
    omega
  · have hk := e.1.key_valid
    simp only [validKey, Bool.and_eq_true, decide_eq_true_eq] at hk
    exact hk.2
  · have := length_encodeEntry_le he
    simp only [encodeEntry, List.length_append, length_frame] at this
    simp only [StateImageLimits.widest, hmax]
    omega

def onChain (s : StateImage) (chainId : ChainId) : StateImage := { s with chainId := chainId }

theorem canonicalBytes_inj {t : StateImage} (hs : s.canonicalBytes.length < size)
    (h : s.canonicalBytes = t.canonicalBytes) : s = t := by
  have ht : t.canonicalBytes.length < size := h ▸ hs
  have hsize : size = 256 ^ 8 := by decide
  simp only [canonicalBytes, List.length_append, length_frame, hsize] at hs ht
  obtain ⟨hchain, htail⟩ :=
    frame_append_cancel (by omega) (by omega) (List.append_cancel_left h)
  -- the chain frames cancel, so both images may be moved to a chain short enough to decode
  let short : ChainId := ⟨"x", by decide⟩
  have hshort : short.asBytes.length = 1 := by decide
  have hmoved : (s.onChain short).canonicalBytes = (t.onChain short).canonicalBytes := by
    simp only [canonicalBytes, onChain]
    rw [htail]
  have hpos : 0 < s.chainId.asBytes.length := List.length_pos_of_ne_nil s.chainId.asBytes_ne_nil
  have hlen : (s.onChain short).canonicalBytes.length < size := by
    simp only [canonicalBytes, onChain, List.length_append, length_frame, hshort, hsize]
    omega
  have hs' := decodeCanonical_canonicalBytes (withinLimits_widest hlen)
    (hshort.trans_le (by decide))
  have ht' := decodeCanonical_canonicalBytes (withinLimits_widest (hmoved ▸ hlen))
    (hshort.trans_le (by decide))
  rw [hmoved, ht'] at hs'
  have hst : t.onChain short = s.onChain short := Except.ok.inj hs'
  obtain ⟨c, f, v, w, m, _, _, _⟩ := s
  obtain ⟨c', f', v', w', m', _, _, _⟩ := t
  obtain rfl : c = c' := StringId.asBytes_injective hchain
  simpa [onChain, eq_comm] using hst

end StateImage

/-- The canonical codec is a bijection: images within the limits are read back, only canonical
bytes are accepted, and no two images share their bytes. -/
theorem canonical_codec_bijective (limits : StateImageLimits) :
    (∀ s : StateImage, s.WithinLimits limits → s.chainId.asBytes.length ≤ 256 →
      StateImage.decodeCanonical s.canonicalBytes limits = .ok s) ∧
    (∀ (b : List UInt8) (s : StateImage),
      StateImage.decodeCanonical b limits = .ok s → s.canonicalBytes = b) ∧
    (∀ s t : StateImage, s.canonicalBytes.length < UInt64.size →
      s.canonicalBytes = t.canonicalBytes → s = t) :=
  ⟨fun _ hw hc => decodeCanonical_canonicalBytes hw hc,
    fun _ _ h => (decodeCanonical_of_eq_ok h).1.symm,
    fun _ _ hs h => canonicalBytes_inj hs h⟩

/-- An image with one entry behind block 7. -/
def sampleImage : StateImage :=
  (empty ⟨"chain", by decide⟩ 7 "v1" (by decide)).commit
    ⟨7, Vector.replicate 32 0⟩
    ((∅ : Entries).insert ⟨"sample", [1], by decide, by decide⟩ [2, 3]) (by decide)

theorem canonical_codec_bijective_sampleImage :
    sampleImage.WithinLimits .production ∧
      StateImage.decodeCanonical sampleImage.canonicalBytes .production = .ok sampleImage ∧
      ∀ t : StateImage, sampleImage.canonicalBytes = t.canonicalBytes → sampleImage = t := by
  have hw : sampleImage.WithinLimits .production :=
    ⟨by decide +kernel, by decide +kernel, by decide +kernel⟩
  obtain ⟨hread, -, hinj⟩ := canonical_codec_bijective .production
  exact ⟨hw, hread sampleImage hw (by decide), fun t => hinj _ t (by decide +kernel)⟩

end AlphaDesk
