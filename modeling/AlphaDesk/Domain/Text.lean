import AlphaDesk.Domain.Decimal
import AlphaDesk.Foundation.Digits

/-! # The texts of values

Decimals are written with all the digits of their scale, addresses and hashes in
lowercase hexadecimal. Each text is read back as the value it was written from.
-/

namespace AlphaDesk

open Bytes Digits Address

namespace Decimal

/-- The digits of the magnitude: the whole part and the fraction at its full width. -/
def magnitudeText (magnitude scale : ℕ) : List Char :=
  let whole := Nat.toDigits 10 (magnitude / 10 ^ scale)
  if scale = 0 then whole else whole ++ '.' :: fixed scale (magnitude % 10 ^ scale)

def toText (d : Decimal) : String :=
  String.ofList (if d.raw < 0 then '-' :: magnitudeText d.raw.natAbs d.scale
    else magnitudeText d.raw.natAbs d.scale)

def signed (negative : Bool) (magnitude scale : ℕ) : Except ValueError Decimal :=
  if hs : scale ≤ maxDecimalScale then
    if negative then fromBig (-magnitude) scale hs else fromBig magnitude scale hs
  else .error (.scaleOutOfRange scale maxDecimalScale)

def fromParts (negative : Bool) (whole fraction : List Char) : Except ValueError Decimal :=
  -- a second point fails here, since it is no digit
  if whole = [] ∨ whole.all isDigit = false ∨ fraction.all isDigit = false then .error .invalid
  else if 255 < fraction.length then .error (.scaleOutOfRange 255 maxDecimalScale)
  else if maxDecimalScale < fraction.length then
    .error (.scaleOutOfRange fraction.length maxDecimalScale)
  else if 2 ^ 128 ≤ number whole then .error .overflow
  else
    let magnitude := number whole * 10 ^ fraction.length + number fraction
    if 2 ^ 128 ≤ magnitude then .error .overflow
    else signed negative magnitude fraction.length

def fromUnsigned (negative : Bool) (cs : List Char) : Except ValueError Decimal :=
  if cs = [] then .error .invalid
  else
    let whole := cs.takeWhile (· ≠ '.')
    let rest := cs.dropWhile (· ≠ '.')
    if rest = ['.'] then .error .invalid else fromParts negative whole rest.tail

def fromText (s : String) : Except ValueError Decimal :=
  match s.toList with
  | [] => .error .empty
  | '-' :: rest => fromUnsigned true rest
  | '+' :: rest => fromUnsigned false rest
  | cs => fromUnsigned false cs

/-- Digits and, behind a point, the digits of the fraction. -/
def numeral (whole fraction : List Char) : List Char :=
  if fraction = [] then whole else whole ++ '.' :: fraction

def signText : Option Bool → List Char
  | none => []
  | some negative => if negative then ['-'] else ['+']

variable {negative : Bool} {whole fraction : List Char} {d : Decimal}

theorem signed_eq_ok_iff {magnitude scale : ℕ} : signed negative magnitude scale = .ok d ↔
    d.raw = (if negative then -1 else 1) * (magnitude : ℤ) ∧ d.scale = scale := by
  unfold signed
  split
  · cases negative <;> simp [fromBig_eq_ok_iff]
  next hs =>
    refine iff_of_false (by simp) fun h => ?_
    exact hs (h.2 ▸ d.scale_le)

theorem fromParts_eq_ok_iff : fromParts negative whole fraction = .ok d ↔
    (whole ≠ [] ∧ whole.all isDigit = true ∧ fraction.all isDigit = true) ∧
      d.scale = fraction.length ∧ d.raw = (if negative then -1 else 1) *
        (number whole * 10 ^ fraction.length + number fraction : ℕ) := by
  unfold fromParts
  rw [Except.ite_error_eq_ok]
  refine and_congr (by simp [not_or]) ?_
  simp only [Except.ite_error_eq_ok, signed_eq_ok_iff]
  constructor
  · rintro ⟨-, -, -, -, hraw, hscale⟩
    exact ⟨hscale, hraw⟩
  · rintro ⟨hscale, hraw⟩
    have hs : fraction.length ≤ 38 := hscale ▸ d.scale_le
    have hmagnitude : number whole * 10 ^ fraction.length + number fraction < 2 ^ 128 := by
      obtain ⟨hlow, hhigh⟩ := d.raw_range
      split at hraw <;> omega
    have hwhole : number whole ≤ number whole * 10 ^ fraction.length :=
      Nat.le_mul_of_pos_right _ (by positivity)
    have hmax : maxDecimalScale = 38 := rfl
    exact ⟨by omega, by omega, by omega, by omega, hraw, hscale⟩

theorem fromUnsigned_numeral (hne : whole ≠ []) (hwhole : whole.all isDigit = true) :
    fromUnsigned negative (numeral whole fraction) = fromParts negative whole fraction := by
  obtain ⟨htake, hdrop⟩ := span_digits hwhole (by decide : isDigit '.' = false) fraction
  unfold numeral
  split
  next hnone =>
    have hall : ∀ c ∈ whole, decide (c ≠ '.') = true := by
      intro c hc
      rw [decide_eq_true_iff]
      rintro rfl
      exact absurd (List.all_eq_true.mp hwhole '.' hc) (by decide)
    rw [fromUnsigned, if_neg hne, List.takeWhile_eq_self_iff.mpr hall,
      List.dropWhile_eq_nil_iff.mpr hall, hnone]
    rfl
  next hsome =>
    rw [fromUnsigned, if_neg (by simp), htake, hdrop]
    exact if_neg (by simpa using hsome)

theorem numeral_of_fromUnsigned {cs : List Char} (h : fromUnsigned negative cs = .ok d) :
    ∃ whole fraction, cs = numeral whole fraction ∧ fromParts negative whole fraction = .ok d := by
  obtain ⟨-, h⟩ := Except.of_check h
  obtain ⟨hpoint, h⟩ := Except.of_check h
  refine ⟨_, _, ?_, h⟩
  have hsplit := List.takeWhile_append_dropWhile (p := (· ≠ '.')) (l := cs)
  have hhead := List.head?_dropWhile_not (· ≠ '.') cs
  unfold numeral
  cases hrest : cs.dropWhile (· ≠ '.') with
  | nil =>
    rw [hrest, List.append_nil] at hsplit
    exact hsplit.symm
  | cons c rest =>
    rw [hrest] at hsplit hhead hpoint
    obtain rfl : c = '.' := by simpa using hhead
    rw [List.tail_cons, if_neg (by simpa using hpoint), hsplit]

theorem fromText_sign (sign : Option Bool) (hne : whole ≠ []) (hwhole : whole.all isDigit = true)
    {s : String} (hs : s.toList = signText sign ++ numeral whole fraction) :
    fromText s = fromParts (sign.getD false) whole fraction := by
  rw [← fromUnsigned_numeral hne hwhole, fromText, hs]
  match sign with
  | some true => rfl
  | some false => rfl
  | none =>
    obtain ⟨c, rest, rfl⟩ := List.exists_cons_of_ne_nil hne
    have hc : isDigit c = true := List.all_eq_true.mp hwhole c List.mem_cons_self
    obtain ⟨more, hcons⟩ : ∃ more, numeral (c :: rest) fraction = c :: more := by
      unfold numeral
      split <;> exact ⟨_, rfl⟩
    rw [signText, List.nil_append, hcons]
    -- a digit is no sign
    split
    next h => cases h
    next h =>
      obtain ⟨rfl, -⟩ := List.cons.inj h
      cases hc
    next h =>
      obtain ⟨rfl, -⟩ := List.cons.inj h
      cases hc
    next => rfl

theorem fromText_eq_ok_iff {s : String} : fromText s = .ok d ↔ ∃ sign whole fraction,
    s.toList = signText sign ++ numeral whole fraction ∧
      fromParts (sign.getD false) whole fraction = .ok d := by
  constructor
  · intro h
    unfold fromText at h
    split at h
    next => cases h
    next rest hs =>
      obtain ⟨whole, fraction, rfl, hparts⟩ := numeral_of_fromUnsigned h
      exact ⟨some true, whole, fraction, hs, hparts⟩
    next rest hs =>
      obtain ⟨whole, fraction, rfl, hparts⟩ := numeral_of_fromUnsigned h
      exact ⟨some false, whole, fraction, hs, hparts⟩
    next =>
      obtain ⟨whole, fraction, hs, hparts⟩ := numeral_of_fromUnsigned h
      exact ⟨none, whole, fraction, hs, hparts⟩
  · rintro ⟨sign, whole, fraction, hs, hparts⟩
    obtain ⟨⟨hne, hwhole, -⟩, -⟩ := fromParts_eq_ok_iff.mp hparts
    rw [fromText_sign sign hne hwhole hs, hparts]

theorem raw_eq_iff {w f k : ℕ} (hscale : d.scale = k) :
    d.raw = (if negative then -1 else 1) * (w * 10 ^ k + f : ℕ) ↔
      d.value = (if negative then -1 else 1) * (w + f / 10 ^ k) := by
  rw [value, scaled, hscale, div_eq_iff (by positivity), ← Int.cast_inj (α := ℚ)]
  refine Eq.congr_right ?_
  push_cast
  field_simp

theorem fromText_toText (d : Decimal) : fromText d.toText = .ok d := by
  have hmod : d.raw.natAbs % 10 ^ d.scale < 10 ^ d.scale := Nat.mod_lt _ (by positivity)
  have hdiv := Nat.div_add_mod' d.raw.natAbs (10 ^ d.scale)
  refine fromText_eq_ok_iff.mpr ⟨if d.raw < 0 then some true else none,
    Nat.toDigits 10 (d.raw.natAbs / 10 ^ d.scale), fixed d.scale (d.raw.natAbs % 10 ^ d.scale), ?_,
    fromParts_eq_ok_iff.mpr ⟨⟨toDigits_ne_nil _, all_isDigit_toDigits _, all_isDigit_fixed _ _⟩,
      (length_fixed _ _).symm, ?_⟩⟩
  · unfold toText magnitudeText numeral
    simp only [String.toList_ofList, ← List.length_eq_zero_iff, length_fixed]
    split <;> rfl
  · rw [length_fixed, number_toDigits, number_fixed hmod, hdiv]
    split
    next hneg => exact (by omega : d.raw = -1 * (d.raw.natAbs : ℤ))
    next hpos => exact (by omega : d.raw = 1 * (d.raw.natAbs : ℤ))

/-- Texts are read and written exactly, and decimals are compared by value. -/
theorem text_and_comparison_exact :
    (∀ d : Decimal, fromText d.toText = .ok d) ∧
    (∀ (s : String) (d : Decimal), fromText s = .ok d ↔ ∃ sign whole fraction,
      s.toList = signText sign ++ numeral whole fraction ∧ whole ≠ [] ∧
      whole.all isDigit = true ∧ fraction.all isDigit = true ∧ fraction.length ≤ 38 ∧
      d.scale = fraction.length ∧ d.value = (if sign.getD false then -1 else 1) *
        (number whole + number fraction / 10 ^ fraction.length)) ∧
    ∀ a b : Decimal, (numEq a b = true ↔ a.value = b.value) ∧
      (compare a b = .eq ↔ a.value = b.value) ∧
      (a.canonicalParts = b.canonicalParts ↔ a.value = b.value) ∧
      compare a b = compare a.value b.value := by
  refine ⟨fromText_toText, fun s d => ?_, fun a b => ⟨numEq_iff, compare_eq_eq_iff, ?_,
    numericCmp_eq_compare a b⟩⟩
  · rw [fromText_eq_ok_iff]
    refine exists_congr fun sign => exists_congr fun whole => exists_congr fun fraction =>
      and_congr_right fun _ => ?_
    rw [fromParts_eq_ok_iff]
    constructor
    · rintro ⟨⟨hne, hwhole, hfraction⟩, hscale, hraw⟩
      exact ⟨hne, hwhole, hfraction, hscale ▸ d.scale_le, hscale, (raw_eq_iff hscale).mp hraw⟩
    · rintro ⟨hne, hwhole, hfraction, -, hscale, hvalue⟩
      exact ⟨⟨hne, hwhole, hfraction⟩, hscale, (raw_eq_iff hscale).mpr hvalue⟩
  · rw [← numEq_iff, numEq, beq_iff_eq]

end Decimal

theorem hexValue_hexDigit : ∀ n < 16, hexValue (hexDigit n) = some n := by decide

theorem hexDecode_hexEncode (bs : List UInt8) :
    hexDecode (hexEncode bs) = some bs := by
  induction bs with
  | nil => rfl
  | cons b bs ih =>
    have hb : b.toNat < 256 := b.toNat_lt
    have hcons : hexEncode (b :: bs) = hexDigit (b.toNat / 16) ::
        hexDigit (b.toNat % 16) :: hexEncode bs := rfl
    have hsum : 16 * (b.toNat / 16) + b.toNat % 16 = b.toNat := by omega
    rw [hcons, hexDecode, hexValue_hexDigit _ (by omega), hexValue_hexDigit _ (by omega),
      ih]
    exact congrArg (some <| · :: bs) (by rw [hsum, UInt8.ofNat_toNat])

theorem parseApi_toApiString (a : Address) : parseApi a.toApiString = .ok a := by
  unfold parseApi toApiString
  simp [hexDecode_hexEncode, Vector.toList]

def Hash32.toHex (h : Hash32) : String := String.ofList (hexEncode h.toList)

/-- Sixty-four lowercase hexadecimal digits. -/
def Hash32.ofHex (s : String) : Option Hash32 :=
  (hexDecode s.toList).bind fun bs =>
    if h : bs.length = 32 then some ⟨bs.toArray, by simpa using h⟩ else none

theorem Hash32.ofHex_toHex (h : Hash32) : ofHex h.toHex = some h := by
  unfold ofHex toHex
  simp [hexDecode_hexEncode, Vector.toList]

end AlphaDesk
