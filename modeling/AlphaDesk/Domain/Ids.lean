import AlphaDesk.Foundation.Bytes
import Mathlib.Data.List.DropRight

/-! # Identifiers

String identifiers, account addresses, block heights and protocol times. An
identifier carries the proof that it passed its constructor's check, and is
ordered by its UTF-8 bytes.
-/

namespace AlphaDesk

open Bytes

inductive ValueError
  | empty
  | invalid
  | excessPrecision (allowed : ℕ)
  | scaleOutOfRange (scale maximum : ℕ)
  | scaleMismatch (left right : ℕ)
  | downwardExactRescale (sourceScale targetScale : ℕ)
  | outOfRange
  | divisionByZero
  | overflow

/-- The Unicode `White_Space` property. -/
def isWhitespace (c : Char) : Bool :=
  let n := c.toNat
  (0x09 ≤ n && n ≤ 0x0D) || n == 0x20 || n == 0x85 || n == 0xA0 || n == 0x1680 ||
    (0x2000 ≤ n && n ≤ 0x200A) || n == 0x2028 || n == 0x2029 || n == 0x202F ||
    n == 0x205F || n == 0x3000

def trim (s : String) : String :=
  String.ofList ((s.toList.dropWhile isWhitespace).rdropWhile isWhitespace)

/-- What every string identifier's constructor requires of its text. -/
def validId (s : String) : Bool := !s.isEmpty && trim s == s

/-- A nonempty text without surrounding whitespace. -/
structure StringId where
  value : String
  valid : validId value = true
  deriving DecidableEq

namespace StringId

def new (s : String) : Except ValueError StringId :=
  if h : validId s = true then .ok ⟨s, h⟩ else .error .invalid

def asBytes (i : StringId) : List UInt8 := utf8 i.value

theorem value_injective : Function.Injective value := by
  rintro ⟨s, hs⟩ ⟨t, ht⟩ h
  obtain rfl : s = t := h
  rfl

theorem asBytes_injective : Function.Injective asBytes := utf8_injective.comp value_injective

theorem new_value (i : StringId) : new i.value = .ok i := dif_pos i.valid

theorem value_of_new {s : String} {i : StringId} (h : new s = .ok i) : i.value = s := by
  unfold new at h
  split at h
  · exact congrArg value (Except.ok.inj h.symm)
  · cases h

theorem asBytes_ne_nil (i : StringId) : i.asBytes ≠ [] := by
  intro h
  have he : i.value = "" := utf8_injective (h.trans (by decide : [] = utf8 ""))
  have hv := i.valid
  rw [he] at hv
  exact absurd hv (by decide)

instance : Ord StringId := ⟨compareOn asBytes⟩

instance : Std.TransOrd StringId :=
  inferInstanceAs (Std.TransCmp (compareOn asBytes))

instance : Std.LawfulEqOrd StringId where
  compare_self := (inferInstance : Std.ReflCmp (compareOn asBytes)).compare_self
  eq_of_compare h := asBytes_injective (Std.LawfulEqOrd.eq_of_compare h)

end StringId

abbrev ChainId := StringId
abbrev TransactionId := StringId
abbrev EventId := StringId
abbrev VaultId := StringId
abbrev DexId := StringId
abbrev MarketId := StringId
abbrev AssetId := StringId
abbrev OutcomeId := StringId
abbrev OrderId := StringId
abbrev ClientOrderId := StringId
abbrev TradeId := StringId
abbrev LiquidationId := StringId
abbrev SourceId := StringId

abbrev BlockHeight := UInt64

abbrev TwapId := UInt64

abbrev Hash32 := Vector UInt8 32

/-- The BLAKE3 functions the source calls: plain hashing and key derivation. -/
structure Blake3 where
  hash : List UInt8 → Hash32
  deriveKey : String → List UInt8 → Hash32

abbrev Address := Vector UInt8 20

/-- Nonnegative microseconds since the epoch. -/
structure ProtocolTime where
  unixMicros : ℕ
  lt : unixMicros < 2 ^ 63
  deriving DecidableEq

theorem ProtocolTime.zero_lt : 0 < 2 ^ 63 := by decide

/-- Times wrap, as machine integers do. -/
instance (n : ℕ) : OfNat ProtocolTime n := ⟨⟨n % 2 ^ 63, Nat.mod_lt n ProtocolTime.zero_lt⟩⟩

theorem toNat_lt_of_micros {value : ℤ} (h : 0 ≤ value ∧ value < 2 ^ 63) :
    value.toNat < 2 ^ 63 := by
  omega

def ProtocolTime.fromUnixMicros (value : ℤ) : Except ValueError ProtocolTime :=
  if h : 0 ≤ value ∧ value < 2 ^ 63 then .ok ⟨value.toNat, toNat_lt_of_micros h⟩
  else .error .outOfRange

namespace Address

def hexDigit (n : ℕ) : Char := if n < 10 then Char.ofNat (48 + n) else Char.ofNat (87 + n)

def hexValue (c : Char) : Option ℕ :=
  let n := c.toNat
  if 48 ≤ n ∧ n ≤ 57 then some (n - 48)
  else if 97 ≤ n ∧ n ≤ 102 then some (n - 87)
  else none

def hexEncode (bs : List UInt8) : List Char :=
  bs.flatMap fun b => [hexDigit (b.toNat / 16), hexDigit (b.toNat % 16)]

def hexDecode : List Char → Option (List UInt8)
  | [] => some []
  | [_] => none
  | hi :: lo :: rest => do
    let h ← hexValue hi
    let l ← hexValue lo
    let bs ← hexDecode rest
    return UInt8.ofNat (16 * h + l) :: bs

def toApiString (a : Address) : String := String.ofList ('0' :: 'x' :: hexEncode a.toList)

def parseApi (s : String) : Except ValueError Address :=
  match s.toList with
  | '0' :: 'x' :: digits =>
    match hexDecode digits with
    | some bs => if h : bs.length = 20 then .ok ⟨bs.toArray, by simpa using h⟩ else .error .invalid
    | none => .error .invalid
  | _ => .error .invalid

end Address

end AlphaDesk
