import AlphaDesk.Ledger.History
import AlphaDesk.Records.Codec

/-! # Records in the state

A stored record type has a format, a namespace and a key for each record. Reading
under a key gives back what was written there and nothing else, and a list of
mutations lies in the namespaces of the records it puts.
-/

namespace AlphaDesk

open Wire Except

/-- A record type with its place in the state. -/
class Stored (T : Type) where
  format : Format T
  ns : String
  keyOf : T → Except RecordCodecError StateKey
  ns_keyOf : ∀ {t : T} {k : StateKey}, keyOf t = .ok k → k.ns = ns := by
    exact fun h => (ns_framedKey h).1
  /-- Whether the reader compares the bytes with those it would write itself. -/
  exact : Bool := false

namespace Stored

variable {T : Type} [Stored T] (J : SerdeJson)

def encode (t : T) : Except RecordCodecError (List UInt8) := (format (T := T)).encode J t

def decode (bytes : List UInt8) : Except RecordCodecError T := do
  let t ← (format (T := T)).decode J bytes
  if exact T then
    if (← encode J t) ≠ bytes then throw .nonCanonical
  return t

def decodeAt (key : StateKey) (bytes : List UInt8) : Except RecordCodecError T := do
  let t ← decode J bytes
  if (← keyOf t) = key then return t else throw .keyMismatch

variable {J} {t t' : T} {k : StateKey} {bytes : List UInt8}

theorem valid_of_encode (h : encode J t = .ok bytes) : (format (T := T)).valid t = true :=
  Format.valid_of_encode h

theorem decode_encode (h : encode J t = .ok bytes) : decode J bytes = .ok t := by
  have hf : (format (T := T)).decode J bytes = .ok t := Format.decode_encode h
  simp [decode, hf, h]

theorem decodeAt_eq_ok : decodeAt J k bytes = .ok t ↔ decode J bytes = .ok t ∧ keyOf t = .ok k := by
  unfold decodeAt
  constructor
  · intro h
    obtain ⟨t', ht, h⟩ := of_bind h
    obtain ⟨k', hk, h⟩ := of_bind h
    split at h
    next hkk =>
      obtain rfl := ok.inj h
      exact ⟨ht, hkk ▸ hk⟩
    next => cases h
  · rintro ⟨ht, hk⟩
    simp [ht, hk]

theorem decodeAt_encode (h : encode J t = .ok bytes) (hk : keyOf t = .ok k) :
    decodeAt J k bytes = .ok t :=
  decodeAt_eq_ok.mpr ⟨decode_encode h, hk⟩

variable (T : Type) [Stored T] (J : SerdeJson)

/-- The record that a state holds under a key, if it holds a readable one. -/
def get? (s : Entries) (k : StateKey) : Option T := (s[k]?).bind fun b => (decodeAt J k b).toOption

/-- Every entry in the namespace of a record type is a record, under its own key. -/
def Readable (s : Entries) : Prop :=
  ∀ (k : StateKey) bytes, k.ns = ns T → s[k]? = some bytes →
    ∃ t : T, encode J t = .ok bytes ∧ keyOf t = .ok k

variable {T J} {s s' : Entries} {k : StateKey} {t : T} {bytes : List UInt8}

theorem readable_empty : Readable T J ∅ := by
  intro k bytes _ h
  simp at h

theorem get?_eq_none (h : s[k]? = none) : get? T J s k = none := by
  rw [get?, h]
  rfl

theorem get?_of_decodeAt (hs : s[k]? = some bytes) (hd : decodeAt J k bytes = .ok t) :
    get? T J s k = some t := by
  rw [get?, hs]
  simp [hd, Except.toOption]

theorem get?_of_encode (hs : s[k]? = some bytes) (he : encode J t = .ok bytes)
    (hk : keyOf t = .ok k) : get? T J s k = some t :=
  get?_of_decodeAt hs (decodeAt_encode he hk)

theorem get?_congr (h : s'[k]? = s[k]?) : get? T J s' k = get? T J s k := by
  rw [get?, get?, h]

/-- What an optional read under a key returns is the record of the state. -/
theorem get?_of_mapM {ε : Type} {f : RecordCodecError → ε} {current : Option T}
    (h : (s[k]?).mapM (fun b => (decodeAt J k b).mapError f) = .ok current) :
    get? T J s k = current := by
  obtain ⟨hs, rfl⟩ | ⟨b, t, hs, hd, rfl⟩ := option_mapM_eq_ok.mp h
  · exact get?_eq_none hs
  · exact get?_of_decodeAt hs (mapError_eq_ok.mp hd)

theorem keyOf_of_get? (h : get? T J s k = some t) : keyOf t = .ok k := by
  obtain ⟨b, -, hd⟩ := Option.bind_eq_some_iff.mp h
  cases hb : decodeAt (T := T) J k b with
  | error e => simp [hb, Except.toOption] at hd
  | ok t' =>
    obtain rfl : t' = t := by simpa [hb, Except.toOption] using hd
    exact (decodeAt_eq_ok.mp hb).2

theorem ns_of_get? (h : get? T J s k = some t) : k.ns = ns T := ns_keyOf (keyOf_of_get? h)

theorem Readable.getElem?_eq_none (h : Readable T J s) (hk : k.ns = ns T)
    (hg : get? T J s k = none) : s[k]? = none := by
  by_contra hs
  obtain ⟨bytes, hb⟩ := Option.ne_none_iff_exists'.mp hs
  obtain ⟨t, he, hkt⟩ := h k bytes hk hb
  rw [get?_of_encode hb he hkt] at hg
  cases hg

theorem Readable.encode_of_get? (h : Readable T J s) (hg : get? T J s k = some t) :
    ∃ bytes, s[k]? = some bytes ∧ encode J t = .ok bytes := by
  obtain ⟨bytes, hb, -⟩ := Option.bind_eq_some_iff.mp hg
  obtain ⟨t', he, hk⟩ := h k bytes (ns_of_get? hg) hb
  rw [get?_of_encode hb he hk] at hg
  obtain rfl := Option.some.inj hg
  exact ⟨bytes, hb, he⟩

variable (T : Type) [Stored T] (J : SerdeJson)

/-- The second state holds the records of the first, but for the given ones. -/
structure Updates (s : Entries) (records : List T) (t : Entries) : Prop where
  written : ∀ r ∈ records, ∃ k bytes, keyOf r = .ok k ∧ encode J r = .ok bytes ∧ t[k]? = some bytes
  frame : ∀ k : StateKey, k.ns = ns T → (∀ r ∈ records, keyOf r ≠ .ok k) → t[k]? = s[k]?

variable {T J} {s t : Entries} {records : List T} {r : T} {k : StateKey} {ms : List StateMutation}

/-- The records of one type that mutations put, in order. -/
inductive Puts (T : Type) [Stored T] (J : SerdeJson) : List StateMutation → List T → Prop
  | nil : Puts T J [] []
  | own {k : StateKey} {bytes : List UInt8} {r : T} {ms : List StateMutation} {records : List T}
    (key : keyOf r = .ok k) (encoded : encode J r = .ok bytes) (rest : Puts T J ms records) :
    Puts T J (.put k bytes :: ms) (r :: records)
  | other {m : StateMutation} {ms : List StateMutation} {records : List T}
    (ns_ne : m.key.ns ≠ ns T) (rest : Puts T J ms records) : Puts T J (m :: ms) records

theorem Puts.skip {T' : Type} [Stored T'] {r' : T'} {v : List UInt8} (hk : keyOf r' = .ok k)
    (hne : ns T' ≠ ns T) (rest : Puts T J ms records) : Puts T J (.put k v :: ms) records :=
  .other (by rwa [StateMutation.key, ns_keyOf hk]) rest

theorem Puts.put_mem (h : Puts T J ms records) (hr : r ∈ records) :
    ∃ k bytes, keyOf r = .ok k ∧ encode J r = .ok bytes ∧ StateMutation.put k bytes ∈ ms := by
  induction h with
  | nil => cases hr
  | own hk he _ ih =>
    rcases List.mem_cons.mp hr with rfl | hr
    · exact ⟨_, _, hk, he, List.mem_cons_self⟩
    · obtain ⟨k, bytes, hk, he, hm⟩ := ih hr
      exact ⟨k, bytes, hk, he, List.mem_cons_of_mem _ hm⟩
  | other _ _ ih =>
    obtain ⟨k, bytes, hk, he, hm⟩ := ih hr
    exact ⟨k, bytes, hk, he, List.mem_cons_of_mem _ hm⟩

theorem Puts.keyOf_mem {m : StateMutation} (h : Puts T J ms records) (hm : m ∈ ms)
    (hns : m.key.ns = ns T) : ∃ r ∈ records, keyOf r = .ok m.key := by
  induction h with
  | nil => cases hm
  | own hk _ _ ih =>
    rcases List.mem_cons.mp hm with rfl | hm
    · exact ⟨_, List.mem_cons_self, hk⟩
    · obtain ⟨r, hr, hk⟩ := ih hm
      exact ⟨r, List.mem_cons_of_mem _ hr, hk⟩
  | other hne _ ih =>
    rcases List.mem_cons.mp hm with rfl | hm
    · exact absurd hns hne
    · exact ih hm

theorem Puts.updates (h : Puts T J ms records) (hn : (ms.map StateMutation.key).Nodup)
    (ht : ∀ k : StateKey, k.ns = ns T → t[k]? = (writeAll s ms)[k]?) :
    Updates T J s records t where
  written r hr := by
    obtain ⟨k, bytes, hk, he, hm⟩ := h.put_mem hr
    refine ⟨k, bytes, hk, he, ?_⟩
    rw [ht k (ns_keyOf hk)]
    exact getElem?_writeAll_of_mem (m := .put k bytes) hn hm
  frame k hk hne := by
    rw [ht k hk]
    apply getElem?_writeAll_of_forall_ne
    rintro m hm rfl
    obtain ⟨r, hr, hkr⟩ := h.keyOf_mem hm hk
    exact hne r hr hkr

theorem updates_nil_iff : Updates T J s [] t ↔ ∀ k : StateKey, k.ns = ns T → t[k]? = s[k]? :=
  ⟨fun h k hk => h.frame k hk (by simp), fun h => ⟨by simp, fun k hk _ => h k hk⟩⟩

namespace Updates

variable (h : Updates T J s records t)

include h

theorem readable (hs : Readable T J s) : Readable T J t := by
  intro k bytes hk hb
  by_cases hmem : ∃ r ∈ records, keyOf r = .ok k
  · obtain ⟨r, hr, hkr⟩ := hmem
    obtain ⟨k', bytes', hk', he, ht⟩ := h.written r hr
    obtain rfl := ok_unique hk' hkr
    obtain rfl := Option.mem_unique ht hb
    exact ⟨r, he, hkr⟩
  · push Not at hmem
    exact hs k bytes hk (h.frame k hk hmem ▸ hb)

theorem get?_of_mem (hr : r ∈ records) (hk : keyOf r = .ok k) : get? T J t k = some r := by
  obtain ⟨k', bytes, hk', he, ht⟩ := h.written r hr
  obtain rfl := ok_unique hk' hk
  exact get?_of_encode ht he hk

theorem get?_of_forall_ne (hne : ∀ r ∈ records, keyOf r ≠ .ok k) :
    get? T J t k = get? T J s k := by
  by_cases hk : k.ns = ns T
  · exact get?_congr (h.frame k hk hne)
  · have hnone : ∀ u, get? T J u k = none := fun u =>
      Option.eq_none_iff_forall_ne_some.mpr fun r hr => hk (ns_of_get? hr)
    rw [hnone, hnone]

/-- The records of the second state: those written, and those of the first under other keys. -/
theorem get?_eq_some : get? T J t k = some r ↔
    r ∈ records ∧ keyOf r = .ok k ∨
      (∀ r' ∈ records, keyOf r' ≠ .ok k) ∧ get? T J s k = some r := by
  by_cases hmem : ∃ r ∈ records, keyOf r = .ok k
  · obtain ⟨r', hr', hk'⟩ := hmem
    rw [h.get?_of_mem hr' hk', Option.some.injEq]
    constructor
    · rintro rfl
      exact .inl ⟨hr', hk'⟩
    · rintro (⟨hr, hk⟩ | ⟨hne, -⟩)
      · have := h.get?_of_mem hr hk
        rw [h.get?_of_mem hr' hk'] at this
        exact Option.some.inj this
      · exact absurd hk' (hne r' hr')
  · push Not at hmem
    rw [h.get?_of_forall_ne hmem]
    constructor
    · exact fun hg => .inr ⟨hmem, hg⟩
    · rintro (⟨hr, hk⟩ | ⟨-, hg⟩)
      · exact absurd hk (hmem r hr)
      · exact hg

end Updates

end Stored

/-- How a reducer reports a failure of its codec. -/
def codecReducerError (code subject failure : String) : RecordCodecError → ReducerError
  | .invalidKey => ⟨code ++ ".codec_invalid_key", subject ++ " state key encoding failed"⟩
  | .limitExceeded => ⟨code ++ ".codec_limit_exceeded",
      subject ++ " state record exceeds its deterministic bound"⟩
  | .codec | .nonCanonical | .invalidRecord | .keyMismatch =>
    ⟨code ++ ".codec_failed", subject ++ " state record " ++ failure⟩

variable {T : Type} [Stored T] (J : SerdeJson) (f : RecordCodecError → ReducerError)
  (state : Entries) (key : StateKey)

def putRecord (record : T) : Except ReducerError StateMutation := do
  return .put key (← (Stored.encode J record).mapError f)

def findRecord : Except ReducerError (Option T) :=
  (state[key]?).mapM fun bytes => (Stored.decodeAt J key bytes).mapError f

def refuseKey (error : ReducerError) : Except ReducerError Unit :=
  if state.contains key then .error error else .ok ()

variable {J f state key} {r : T} {m : StateMutation} {error : ReducerError}

theorem putRecord_eq_ok : putRecord J f key r = .ok m ↔
    ∃ bytes, Stored.encode J r = .ok bytes ∧ m = .put key bytes := by
  simp only [putRecord, bind_eq_ok, mapError_eq_ok]
  exact exists_congr fun bytes => and_congr_right fun _ =>
    ⟨fun h => (ok.inj h).symm, fun h => congrArg _ h.symm⟩

theorem get?_of_findRecord {current : Option T} (h : findRecord J f state key = .ok current) :
    Stored.get? T J state key = current :=
  Stored.get?_of_mapM h

/-- Every mutation puts a value, in one of the namespaces. -/
def PutsIn (nss : List String) (mutations : List StateMutation) : Prop :=
  ∀ m ∈ mutations, ∃ k v, m = .put k v ∧ k.ns ∈ nss

variable {nss nss' : List String} {ms ms' : List StateMutation} {k : StateKey} {v : List UInt8}

theorem putsIn_nil : PutsIn nss [] := by
  intro m hm
  cases hm

theorem putsIn_cons : PutsIn nss (m :: ms) ↔ (∃ k v, m = .put k v ∧ k.ns ∈ nss) ∧ PutsIn nss ms :=
  List.forall_mem_cons

theorem putsIn_append : PutsIn nss (ms ++ ms') ↔ PutsIn nss ms ∧ PutsIn nss ms' :=
  List.forall_mem_append

theorem PutsIn.put (h : k.ns ∈ nss) (hms : PutsIn nss ms) : PutsIn nss (.put k v :: ms) :=
  putsIn_cons.mpr ⟨⟨k, v, rfl, h⟩, hms⟩

theorem PutsIn.own {T : Type} [Stored T] {r : T} (hk : Stored.keyOf r = .ok k)
    (hns : Stored.ns T ∈ nss) (hms : PutsIn nss ms) : PutsIn nss (.put k v :: ms) :=
  .put (Stored.ns_keyOf hk ▸ hns) hms

theorem putsIn_putRecord {T : Type} [Stored T] {J : SerdeJson}
    {f : RecordCodecError → ReducerError} {r : T} (h : putRecord J f k r = .ok m)
    (hns : k.ns ∈ nss) (hms : PutsIn nss ms) : PutsIn nss (m :: ms) := by
  obtain ⟨bytes, -, rfl⟩ := putRecord_eq_ok.mp h
  exact .put hns hms

theorem PutsIn.mono (h : PutsIn nss ms) (hsub : nss ⊆ nss') : PutsIn nss' ms := by
  intro m hm
  obtain ⟨k, v, rfl, hk⟩ := h m hm
  exact ⟨k, v, rfl, hsub hk⟩

theorem PutsIn.ns_mem (h : PutsIn nss ms) (hm : m ∈ ms) : m.key.ns ∈ nss := by
  obtain ⟨k, v, rfl, hk⟩ := h m hm
  exact hk

theorem PutsIn.frame {s : Entries} (h : PutsIn nss ms) (hk : k.ns ∉ nss) :
    (writeAll s ms)[k]? = s[k]? := by
  apply getElem?_writeAll_of_forall_ne
  rintro m hm rfl
  exact hk (h.ns_mem hm)

theorem PutsIn.puts {T : Type} [Stored T] {J : SerdeJson} (h : PutsIn nss ms)
    (hns : Stored.ns T ∉ nss) : Stored.Puts T J ms [] := by
  induction ms with
  | nil => exact .nil
  | cons m rest ih =>
    refine .other ?_ (ih (putsIn_cons.mp h).2)
    rintro hm
    exact hns (hm ▸ h.ns_mem List.mem_cons_self)

end AlphaDesk
