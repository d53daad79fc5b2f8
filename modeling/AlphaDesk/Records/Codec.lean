import AlphaDesk.Domain.Text
import AlphaDesk.Events.Payload
import AlphaDesk.Foundation.Wire
import AlphaDesk.State.Image

/-! # The codec of state records

Records are stored as the JSON text of a flat object under a framed key. A text
is read only when it is exactly what would be written for the record in it.
-/

namespace AlphaDesk

open Bytes Wire

/-- The part of the JSON library that the codec relies on: a compact writer of flat
objects, and a parser that undoes it. -/
structure SerdeJson where
  toVec : Object → List UInt8
  fromSlice : List UInt8 → Option Object
  toVec_ne_nil : ∀ o, toVec o ≠ []
  fromSlice_toVec : ∀ o, fromSlice (toVec o) = some o

inductive RecordCodecError
  | invalidKey
  | codec
  | nonCanonical
  | invalidRecord
  | keyMismatch
  | limitExceeded
  deriving DecidableEq

def maxRecordBytes : ℕ := 16 * 1024

/-- A state key made of nonempty identities, each behind its length. -/
def framedKey (ns : String) (identities : List (List UInt8)) :
    Except RecordCodecError StateKey :=
  if [] ∈ identities then .error .invalidKey
  else
    let encoded := identities.flatMap frame
    if maxAbsoluteKeyBytes < encoded.length then .error .invalidKey
    else (StateKey.tryNew ns encoded).mapError fun _ => .invalidKey

theorem ns_framedKey {ns : String} {identities : List (List UInt8)} {k : StateKey}
    (h : framedKey ns identities = .ok k) : k.ns = ns ∧ k.key = identities.flatMap frame := by
  unfold framedKey at h
  split at h
  · cases h
  · dsimp only at h
    split at h
    · cases h
    · cases hk : StateKey.tryNew ns (identities.flatMap frame) with
      | error e => simp [hk, Except.mapError] at h
      | ok k' =>
        rw [hk] at h
        obtain rfl : k' = k := Except.ok.inj h
        obtain ⟨hn, hk'⟩ := StateKey.tryNew_eq_ok_iff.mp hk
        exact ⟨hn.symm, hk'.symm⟩

theorem framedKey_inj {ns ns' : String} {identities identities' : List (List UInt8)} {k : StateKey}
    (h : framedKey ns identities = .ok k) (h' : framedKey ns' identities' = .ok k) :
    identities = identities' := by
  have hk := (ns_framedKey h).2
  refine flatMap_frame_inj ?_ (hk.symm.trans (ns_framedKey h').2)
  have hle := k.length_key_le
  rw [maxAbsoluteKeyBytes] at hle
  rw [← hk]
  omega

instance : Scalar StringId :=
  Scalar.ofText StringId.value (fun s => (StringId.new s).toOption) fun i => by
    rw [StringId.new_value]
    rfl

instance : Scalar Decimal :=
  Scalar.ofText Decimal.toText (fun s => (Decimal.fromText s).toOption) fun d => by
    rw [Decimal.fromText_toText]
    rfl

instance : Scalar Address :=
  Scalar.ofText Address.toApiString (fun s => (Address.parseApi s).toOption) fun a => by
    rw [parseApi_toApiString]
    rfl

instance : Scalar (List StringId) :=
  Scalar.ofTexts StringId.value (fun s => (StringId.new s).toOption) fun i => by
    rw [StringId.new_value]
    rfl

instance : Scalar (List Address) :=
  Scalar.ofTexts Address.toApiString (fun s => (Address.parseApi s).toOption) fun a => by
    rw [parseApi_toApiString]
    rfl

instance : Scalar Hash32 := Scalar.ofText Hash32.toHex Hash32.ofHex Hash32.ofHex_toHex

instance : Scalar ProtocolTime where
  base := .signed 64
  write t := .number t.unixMicros
  read
    | .number n => (ProtocolTime.fromUnixMicros n).toOption
    | _ => none
  accepts_write t := by
    have := t.lt
    simp only [Base.accepts, Bool.and_eq_true, decide_eq_true_eq]
    omega
  read_write t := by
    have h : (0 : ℤ) ≤ t.unixMicros ∧ (t.unixMicros : ℤ) < 2 ^ 63 :=
      ⟨Int.natCast_nonneg _, by exact_mod_cast t.lt⟩
    dsimp only [ProtocolTime.fromUnixMicros]
    rw [dif_pos h]
    rfl

instance : Scalar UInt64 where
  base := .unsigned 64
  write n := .number n.toNat
  read
    | .number n => some (UInt64.ofNat n.toNat)
    | _ => none
  accepts_write n := by
    have := n.toNat_lt
    simp only [Base.accepts, Bool.and_eq_true, decide_eq_true_eq]
    omega
  read_write n := by simp

instance : Scalar UInt32 where
  base := .unsigned 32
  write n := .number n.toNat
  read
    | .number n => some (UInt32.ofNat n.toNat)
    | _ => none
  accepts_write n := by
    have := n.toNat_lt
    simp only [Base.accepts, Bool.and_eq_true, decide_eq_true_eq]
    omega
  read_write n := by simp

instance : Scalar UInt8 where
  base := .unsigned 8
  write n := .number n.toNat
  read
    | .number n => some (UInt8.ofNat n.toNat)
    | _ => none
  accepts_write n := by
    have := n.toNat_lt
    simp only [Base.accepts, Bool.and_eq_true, decide_eq_true_eq]
    omega
  read_write n := by simp

instance : Named AccountAbstractionModeV1 where
  all := [.standard, .unified, .portfolio, .dexAbstraction]
  name
    | .standard => "standard"
    | .unified => "unified"
    | .portfolio => "portfolio"
    | .dexAbstraction => "dex_abstraction"
  find_name a := by cases a <;> rfl

instance : Named MarginModeV1 where
  all := [.cross, .isolated, .strictIsolated]
  name
    | .cross => "cross"
    | .isolated => "isolated"
    | .strictIsolated => "strict_isolated"
  find_name a := by cases a <;> rfl

instance : Named OrderSide where
  all := [.buy, .sell]
  name
    | .buy => "buy"
    | .sell => "sell"
  find_name a := by cases a <;> rfl

instance : Named EventKind where
  all := EventKind.all
  name := EventKind.asWireName
  find_name k := EventKind.find_all k (EventKind.mem_all k)

/-- How a record is stored: the fields of its object, the record they make, and the check that
both the writer and the reader apply. -/
structure Format (T : Type) where
  {Fields : Type}
  layout : Layout Fields
  fields : T → Fields
  record : Fields → Option T
  valid : T → Bool
  nodup : (layout.fields.map Prod.fst).Nodup := by decide
  record_fields : ∀ t, record (fields t) = some t := by exact fun _ => rfl

namespace Format

variable {T : Type} (J : SerdeJson) (F : Format T)

def encodeJson (vs : List Value) : Except RecordCodecError (List UInt8) :=
  let bytes := J.toVec (object F.layout.fields vs)
  if maxRecordBytes < bytes.length then .error .limitExceeded else .ok bytes

def decodeJson (bytes : List UInt8) : Except RecordCodecError (List Value) :=
  if bytes = [] ∨ maxRecordBytes < bytes.length then .error .limitExceeded
  else match (J.fromSlice bytes).bind (conform F.layout.fields) with
    | none => .error .codec
    | some vs => do
      if (← F.encodeJson J vs) = bytes then return vs else throw .nonCanonical

def encode (t : T) : Except RecordCodecError (List UInt8) :=
  if F.valid t then F.encodeJson J (F.layout.write (F.fields t)) else .error .invalidRecord

def decode (bytes : List UInt8) : Except RecordCodecError T := do
  match (F.layout.read (← F.decodeJson J bytes)).bind F.record with
  | none => throw .invalidRecord
  | some t => if F.valid t then return t else throw .invalidRecord

variable {J F} {t : T} {bytes : List UInt8}

theorem valid_of_encode (h : F.encode J t = .ok bytes) : F.valid t = true := by
  unfold encode at h
  split at h
  next hv => exact hv
  next => cases h

theorem decode_encode (h : F.encode J t = .ok bytes) : F.decode J bytes = .ok t := by
  have hv : F.valid t = true := valid_of_encode h
  unfold encode at h
  rw [if_pos hv] at h
  have henc := h
  unfold encodeJson at h
  dsimp only at h
  split at h
  next => cases h
  next hle =>
    obtain rfl := Except.ok.inj h
    have hconform := conform_object (F.layout.accepts_write (F.fields t)) F.nodup
    have hjson : F.decodeJson J (J.toVec (object F.layout.fields (F.layout.write (F.fields t)))) =
        .ok (F.layout.write (F.fields t)) := by
      unfold decodeJson
      rw [if_neg (by simp [J.toVec_ne_nil, hle]), J.fromSlice_toVec]
      simp [hconform, henc]
    simp [decode, hjson, F.layout.read_write, F.record_fields, hv]

end Format

/-! A writer of flat objects to evaluate the model with: names and values as byte strings, each
byte behind a one and each string before a zero. -/

def packStrings (l : List (List UInt8)) : List UInt8 := l.flatMap fun s => s.flatMap ([1, ·]) ++ [0]

def unpackStrings : List UInt8 → List (List UInt8)
  | 0 :: rest => [] :: unpackStrings rest
  | 1 :: b :: rest =>
    match unpackStrings rest with
    | s :: l => (b :: s) :: l
    | [] => []
  | _ => []

theorem unpackStrings_packStrings (l : List (List UInt8)) : unpackStrings (packStrings l) = l := by
  induction l with
  | nil => rfl
  | cons s l ih =>
    induction s with
    | nil => exact congrArg _ ih
    | cons b s ihs =>
      change unpackStrings (1 :: b :: packStrings (s :: l)) = _
      rw [unpackStrings, ihs]

def packValue : Value → List UInt8
  | .null => [0]
  | .text s => 1 :: utf8 s
  | .number n => (if n < 0 then 2 else 3) :: utf8 (String.ofList (Nat.toDigits 10 n.natAbs))
  | .texts l => 4 :: packStrings (l.map utf8)

def unpackValue : List UInt8 → Option Value
  | [0] => some .null
  | 1 :: s => (fromUtf8 s).map .text
  | 2 :: s => (fromUtf8 s).map fun d => .number (-Digits.number d.toList)
  | 3 :: s => (fromUtf8 s).map fun d => .number (Digits.number d.toList)
  | 4 :: s => ((unpackStrings s).mapM fromUtf8).map .texts
  | _ => none

theorem unpackValue_packValue (v : Value) : unpackValue (packValue v) = some v := by
  cases v with
  | null => rfl
  | text s => simp [packValue, unpackValue]
  | number n =>
    rw [packValue]
    split
    next hn => simp [unpackValue, Digits.number_toDigits, abs_of_neg hn]
    next hn => simp [unpackValue, Digits.number_toDigits, abs_of_nonneg (not_lt.mp hn)]
  | texts l =>
    have hl : (l.map utf8).mapM fromUtf8 = some l := by
      induction l with
      | nil => rfl
      | cons s l ih => simp [List.mapM_cons, ih]
    simp [packValue, unpackValue, unpackStrings_packStrings, hl]

def packEntries (o : Object) : List (List UInt8) := o.flatMap fun e => [utf8 e.1, packValue e.2]

def unpackEntries : List (List UInt8) → Option Object
  | [] => some []
  | name :: value :: rest => do
    return (← fromUtf8 name, ← unpackValue value) :: (← unpackEntries rest)
  | _ => none

theorem unpackEntries_packEntries (o : Object) : unpackEntries (packEntries o) = some o := by
  induction o with
  | nil => rfl
  | cons e o ih =>
    change unpackEntries (utf8 e.1 :: packValue e.2 :: packEntries o) = _
    simp [unpackEntries, unpackValue_packValue, ih]

def packedJson : SerdeJson where
  toVec o := 5 :: packStrings (packEntries o)
  fromSlice
    | 5 :: bytes => unpackEntries (unpackStrings bytes)
    | _ => none
  toVec_ne_nil _ := List.cons_ne_nil _ _
  fromSlice_toVec o := by
    simp only [unpackStrings_packStrings, unpackEntries_packEntries]

end AlphaDesk
