import AlphaDesk.Domain.Ids
import AlphaDesk.Foundation.OrderedMap
import AlphaDesk.Foundation.Reader

/-! # State images and their bytes

A state key is a namespaced byte string. A state image is the whole ledger state: the
entries in key order, the chain they belong to and the watermark of the last block
applied. It is written as length-framed fields followed by its entries, and the decoder
reads the fields back through a cursor, checking every bound and the order of the keys.
-/

namespace AlphaDesk

open Bytes

def isAsciiLowercase (b : UInt8) : Bool := 97 ≤ b.toNat && b.toNat ≤ 122

def isAsciiUppercase (b : UInt8) : Bool := 65 ≤ b.toNat && b.toNat ≤ 90

def isAsciiDigit (b : UInt8) : Bool := 48 ≤ b.toNat && b.toNat ≤ 57

def isAsciiAlphanumeric (b : UInt8) : Bool :=
  isAsciiLowercase b || isAsciiUppercase b || isAsciiDigit b

inductive StateKeyError
  | invalidNamespace
  | invalidKey

def maxAbsoluteKeyBytes : ℕ := 64 * 1024

def maxNamespaceBytes : ℕ := 96

def validNamespace (value : String) : Bool :=
  let bytes := utf8 value
  !bytes.isEmpty && bytes.length ≤ maxNamespaceBytes &&
    bytes.head?.any isAsciiLowercase && bytes.getLast?.any isAsciiAlphanumeric &&
    bytes.all fun b => isAsciiLowercase b || isAsciiDigit b || [46, 45, 95].contains b.toNat

def validKey (key : List UInt8) : Bool := !key.isEmpty && key.length ≤ maxAbsoluteKeyBytes

structure StateKey where
  ns : String
  key : List UInt8
  namespace_valid : validNamespace ns = true
  key_valid : validKey key = true
  deriving DecidableEq

namespace StateKey

def tryNew (ns : String) (key : List UInt8) : Except StateKeyError StateKey :=
  if hn : validNamespace ns = true then
    if hk : validKey key = true then .ok ⟨ns, key, hn, hk⟩ else .error .invalidKey
  else .error .invalidNamespace

theorem length_key_le (k : StateKey) : k.key.length ≤ maxAbsoluteKeyBytes := by
  have h := k.key_valid
  simp only [validKey, Bool.and_eq_true, decide_eq_true_eq] at h
  exact h.2

/-- The bytes a key counts for, failing as `usize` addition does. -/
def encodedLen (k : StateKey) : Option ℕ :=
  let n := (utf8 k.ns).length + k.key.length
  if n < 2 ^ 64 then some n else none

theorem tryNew_eq_ok_iff {ns : String} {key : List UInt8} {k : StateKey} :
    tryNew ns key = .ok k ↔ ns = k.ns ∧ key = k.key := by
  obtain ⟨ns', key', hn, hk⟩ := k
  unfold tryNew
  constructor
  · intro h
    split at h
    · split at h
      · simpa using h
      · cases h
    · cases h
  · rintro ⟨rfl, rfl⟩
    rw [dif_pos hn, dif_pos hk]

def parts (k : StateKey) : List UInt8 × List UInt8 := (utf8 k.ns, k.key)

theorem parts_injective : Function.Injective parts := by
  rintro ⟨ns, key, _, _⟩ ⟨ns', key', _, _⟩ h
  obtain ⟨h₁, h₂⟩ := Prod.mk.inj h
  obtain rfl : ns = ns' := utf8_injective h₁
  obtain rfl : key = key' := h₂
  rfl

/-- Keys are ordered by namespace bytes, then by key bytes. -/
def cmp (a b : StateKey) : Ordering :=
  compareLex (compareOn fun k : StateKey => utf8 k.ns) (compareOn StateKey.key) a b

instance : Ord StateKey := ⟨cmp⟩

instance : Std.TransOrd StateKey :=
  inferInstanceAs (Std.TransCmp
    (compareLex (compareOn fun k : StateKey => utf8 k.ns) (compareOn StateKey.key)))

instance : Std.LawfulEqOrd StateKey where
  compare_self := Std.ReflOrd.compare_self
  eq_of_compare {a b} h := by
    obtain ⟨h₁, h₂⟩ := compareLex_eq_eq.mp h
    exact parts_injective (Prod.ext (Std.LawfulEqOrd.eq_of_compare h₁)
      (Std.LawfulEqOrd.eq_of_compare h₂))

end StateKey

abbrev Entries := Std.ExtTreeMap StateKey (List UInt8)

inductive StateMutation
  | put (key : StateKey) (value : List UInt8)
  | delete (key : StateKey)

namespace StateMutation

def key : StateMutation → StateKey
  | put k _ => k
  | delete k => k

def value : StateMutation → Option (List UInt8)
  | put _ v => some v
  | delete _ => none

end StateMutation

structure AppliedMutation where
  key : StateKey
  previous : Option (List UInt8)
  current : Option (List UInt8)

structure StateWatermark where
  blockHeight : BlockHeight
  canonicalBlockHash : Hash32
  deriving DecidableEq

/-- The texts a reducer set may be versioned by. -/
def validReducerVersion (value : String) : Bool :=
  let bytes := utf8 value
  !bytes.isEmpty && bytes.length ≤ 128 &&
    bytes.head?.any isAsciiAlphanumeric && bytes.getLast?.any isAsciiAlphanumeric &&
    bytes.all fun b => isAsciiAlphanumeric b || [46, 45, 95, 43, 64].contains b.toNat

/-- The whole ledger state at a block boundary. -/
@[ext]
structure StateImage where
  chainId : ChainId
  firstHeight : BlockHeight
  reducerSetVersion : String
  watermark : Option StateWatermark
  entries : Entries
  version_valid : validReducerVersion reducerSetVersion = true
  firstHeight_le : ∀ w ∈ watermark, firstHeight ≤ w.blockHeight
  entries_empty : watermark = none → entries = ∅
  deriving DecidableEq

namespace StateImage

def empty (chainId : ChainId) (firstHeight : BlockHeight) (version : String)
    (hv : validReducerVersion version = true) : StateImage where
  chainId := chainId
  firstHeight := firstHeight
  reducerSetVersion := version
  watermark := none
  entries := ∅
  version_valid := hv
  firstHeight_le := by simp
  entries_empty := fun _ => rfl

def blockHeight (s : StateImage) : Option BlockHeight := s.watermark.map (·.blockHeight)

def canonicalBlockHash (s : StateImage) : Option Hash32 := s.watermark.map (·.canonicalBlockHash)

/-- Replace the entries behind a new watermark. -/
def commit (s : StateImage) (w : StateWatermark) (entries : Entries)
    (hw : s.firstHeight ≤ w.blockHeight) : StateImage :=
  { s with
    watermark := some w
    entries := entries
    firstHeight_le := by simpa using hw
    entries_empty := by simp }

variable {s : StateImage} {w : StateWatermark} {entries : Entries}
  {hw : s.firstHeight ≤ w.blockHeight}

end StateImage

inductive StateImageError
  | invalidLimits
  | limitExceeded
  | truncated
  | invalidSchema
  | invalidField (field : String)
  | nonCanonicalOrder
  | trailingBytes

/-- Deterministic bounds on an encoded image. -/
structure StateImageLimits where
  maxStateBytes : UInt64
  maxEntries : UInt64
  maxKeyBytes : UInt64
  maxValueBytes : UInt64
  nonzero : maxStateBytes ≠ 0 ∧ maxEntries ≠ 0 ∧ maxKeyBytes ≠ 0 ∧ maxValueBytes ≠ 0
  key_le : maxKeyBytes.toNat ≤ maxAbsoluteKeyBytes

namespace StateImageLimits

def production : StateImageLimits where
  maxStateBytes := 4 * 1024 * 1024 * 1024
  maxEntries := 50000000
  maxKeyBytes := 4 * 1024
  maxValueBytes := 16 * 1024 * 1024
  nonzero := by decide
  key_le := by decide

/-- The limits that admit every image whose bytes fit in memory. -/
def widest : StateImageLimits where
  maxStateBytes := 0xFFFFFFFFFFFFFFFF
  maxEntries := 0xFFFFFFFFFFFFFFFF
  maxKeyBytes := 64 * 1024
  maxValueBytes := 0xFFFFFFFFFFFFFFFF
  nonzero := by decide
  key_le := by decide

end StateImageLimits

def stateImageSchema : List UInt8 := utf8 "hyperliquid-alpha-desk/state-image/v1"

def stateHashContext : String := "hyperliquid-alpha-desk/state-hash/v1"

def encodeEntry (e : StateKey × List UInt8) : List UInt8 :=
  frame (utf8 e.1.ns) ++ (frame e.1.key ++ frame e.2)

def encodeWatermark : Option StateWatermark → List UInt8
  | some w => 1 :: (beBytes 8 w.blockHeight.toNat ++ w.canonicalBlockHash.toList)
  | none => [0]

def encodeEntries (entries : Entries) : List UInt8 :=
  beBytes 8 entries.size ++ entries.toList.flatMap encodeEntry

namespace StateImage

def canonicalBytes (s : StateImage) : List UInt8 :=
  frame stateImageSchema ++ (frame s.chainId.asBytes ++ (beBytes 8 s.firstHeight.toNat ++
    (frame (utf8 s.reducerSetVersion) ++ (encodeWatermark s.watermark ++
      encodeEntries s.entries))))

def stateHash (B : Blake3) (s : StateImage) : Hash32 :=
  B.deriveKey stateHashContext s.canonicalBytes

end StateImage

/-- A position in a byte slice, whose length fits in a `usize`. -/
structure StateCursor where
  bytes : List UInt8
  offset : ℕ
  length_lt : bytes.length < UInt64.size
  offset_le : offset ≤ bytes.length

abbrev Cursor (α : Type) := StateT StateCursor (Except StateImageError) α

namespace StateCursor

def new (bytes : List UInt8) (h : bytes.length < UInt64.size) : StateCursor :=
  ⟨bytes, 0, h, Nat.zero_le _⟩

def rest (c : StateCursor) : List UInt8 := c.bytes.drop c.offset

def isFinished (c : StateCursor) : Bool := c.offset == c.bytes.length

def take (length : ℕ) : Cursor (List UInt8) := fun c =>
  if c.offset + length < UInt64.size then
    if h : c.offset + length ≤ c.bytes.length then
      .ok ((c.bytes.drop c.offset).take length,
        { c with offset := c.offset + length, offset_le := h })
    else .error .truncated
  else .error .limitExceeded

def byte : Cursor UInt8 := do
  let v ← take 1
  return v.headD 0

def u64 : Cursor UInt64 := do
  let v ← take 8
  return UInt64.ofNat (beNat v)

def hash : Cursor Hash32 := do
  let v ← take 32
  return Vector.ofFn fun i => v.getD i 0

def frame (maxBytes : ℕ) : Cursor (List UInt8) := do
  let length ← u64
  if length.toNat > maxBytes then throw .limitExceeded else take length.toNat

def count (maxCount : ℕ) : Cursor ℕ := do
  let n ← u64
  if n.toNat > maxCount then throw .limitExceeded else return n.toNat

end StateCursor

def decodeText (bytes : List UInt8) (field : String) : Except StateImageError String :=
  match fromUtf8 bytes with
  | some s => .ok s
  | none => .error (.invalidField field)

section Decode

open StateCursor

/-- A framed text, as `decode_text` reads it from the cursor. -/
def readText (maxBytes : ℕ) (field : String) : Cursor String := do
  decodeText (← frame maxBytes) field

def readSchema : Cursor Unit := do
  let v ← frame 128
  if v = stateImageSchema then return () else throw .invalidSchema

def readChainId : Cursor ChainId := do
  match StringId.new (← readText 256 "chain_id") with
  | .ok id => return id
  | .error _ => throw (.invalidField "chain_id")

def readVersion : Cursor { v : String // validReducerVersion v = true } := do
  let text ← readText 128 "reducer_set_version"
  if h : validReducerVersion text = true then return ⟨text, h⟩
  else throw (.invalidField "reducer_set_version")

def readWatermark (firstHeight : BlockHeight) :
    Cursor (Option { w : StateWatermark // firstHeight ≤ w.blockHeight }) := do
  let tag ← byte
  if tag = 0 then return none
  else if tag = 1 then do
    let blockHeight ← u64
    if h : firstHeight ≤ blockHeight then return some ⟨⟨blockHeight, ← hash⟩, h⟩
    else throw (.invalidField "block_height")
  else throw (.invalidField "watermark_present")

def readKey (limits : StateImageLimits) : Cursor StateKey := do
  let ns ← readText maxNamespaceBytes "state namespace"
  let key ← frame limits.maxKeyBytes.toNat
  match StateKey.tryNew ns key with
  | .ok k => return k
  | .error _ => throw (.invalidField "state key")

/-- One entry, whose key must lie above the previous one. -/
def readEntry (limits : StateImageLimits) (previous : Option StateKey) :
    Cursor (StateKey × List UInt8) := do
  let key ← readKey limits
  if previous.any (fun prior => (compare prior key).isGE) then throw .nonCanonicalOrder
  else return (key, ← frame limits.maxValueBytes.toNat)

def readEntries (limits : StateImageLimits) :
    ℕ → Option StateKey → Entries → Cursor Entries
  | 0, _, entries => return entries
  | n + 1, previous, entries => do
    let e ← readEntry limits previous
    readEntries limits n (some e.1) (entries.insert e.1 e.2)

def readImage (limits : StateImageLimits) : Cursor StateImage := do
  readSchema
  let chainId ← readChainId
  let firstHeight ← u64
  let version ← readVersion
  let watermark ← readWatermark firstHeight
  let entryCount ← count limits.maxEntries.toNat
  match watermark with
  | none =>
    -- without a watermark the entry loop is allowed to run zero times only
    if entryCount ≠ 0 then throw (.invalidField "uncheckpointed state entries")
    else return StateImage.empty chainId firstHeight version.1 version.2
  | some w =>
    let entries ← readEntries limits entryCount none ∅
    return (StateImage.empty chainId firstHeight version.1 version.2).commit w.1 entries w.2

end Decode

namespace StateImage

def decodeCanonical (bytes : List UInt8) (limits : StateImageLimits) :
    Except StateImageError StateImage :=
  if h : bytes.length ≤ limits.maxStateBytes.toNat then
    match readImage limits (StateCursor.new bytes (h.trans_lt (UInt64.toNat_lt_size _))) with
    | .ok (s, c) => if c.isFinished then .ok s else .error .trailingBytes
    | .error e => .error e
  else .error .limitExceeded

end StateImage

end AlphaDesk
