import Mathlib.Data.List.Basic
import Mathlib.Tactic

/-! # Byte strings

Numbers of a fixed width in either byte order, the UTF-8 bytes of a text, and byte
strings framed by their length, each with the decoder that inverts it. A reader takes
bytes from the front of its input or fails; it yields a value from a byte string when
it reads exactly that string, and yields compose along the text of a reader.
-/

namespace Bytes

instance lawfulBEq : LawfulBEq (List UInt8) := inferInstance

/-- The `w` big-endian bytes of `n`, most significant first. -/
def beBytes : ℕ → ℕ → List UInt8
  | 0, _ => []
  | w + 1, n => UInt8.ofNat (n / 256 ^ w) :: beBytes w (n % 256 ^ w)

def beNat : List UInt8 → ℕ
  | [] => 0
  | b :: bs => b.toNat * 256 ^ bs.length + beNat bs

@[simp] theorem length_beBytes (w n : ℕ) : (beBytes w n).length = w := by
  induction w generalizing n with
  | zero => rfl
  | succ w ih => simp [beBytes, ih]

theorem beNat_lt (bs : List UInt8) : beNat bs < 256 ^ bs.length := by
  induction bs with
  | nil => simp [beNat]
  | cons b bs ih =>
    have hb : b.toNat + 1 ≤ 256 := b.toNat_lt
    calc beNat (b :: bs) < b.toNat * 256 ^ bs.length + 256 ^ bs.length := by
          simpa [beNat] using ih
      _ = (b.toNat + 1) * 256 ^ bs.length := by ring
      _ ≤ 256 * 256 ^ bs.length := Nat.mul_le_mul_right _ hb
      _ = 256 ^ (b :: bs).length := by rw [List.length_cons, pow_succ, mul_comm]

theorem beNat_beBytes {w n : ℕ} (h : n < 256 ^ w) : beNat (beBytes w n) = n := by
  induction w generalizing n with
  | zero => simp [beBytes, beNat] at *; omega
  | succ w ih =>
    have hpos : 0 < 256 ^ w := by positivity
    have hq : n / 256 ^ w < 256 := by
      rw [Nat.div_lt_iff_lt_mul hpos]
      rwa [pow_succ, mul_comm] at h
    have hd : (UInt8.ofNat (n / 256 ^ w)).toNat = n / 256 ^ w := by
      exact Nat.mod_eq_of_lt hq
    rw [beBytes, beNat, hd, length_beBytes, ih (Nat.mod_lt _ hpos)]
    exact Nat.div_add_mod' n (256 ^ w)

theorem beBytes_beNat (bs : List UInt8) : beBytes bs.length (beNat bs) = bs := by
  induction bs with
  | nil => rfl
  | cons b bs ih =>
    have hlt := beNat_lt bs
    have hpos : 0 < 256 ^ bs.length := by positivity
    have hq : (b.toNat * 256 ^ bs.length + beNat bs) / 256 ^ bs.length = b.toNat := by
      rw [mul_comm, Nat.mul_add_div hpos, Nat.div_eq_of_lt hlt, add_zero]
    have hr : (b.toNat * 256 ^ bs.length + beNat bs) % 256 ^ bs.length = beNat bs := by
      rw [mul_comm, Nat.mul_add_mod, Nat.mod_eq_of_lt hlt]
    rw [List.length_cons, beBytes, beNat, hq, hr, ih, UInt8.ofNat_toNat]

theorem beBytes_append_cancel {w m n : ℕ} {x y : List UInt8} (hm : m < 256 ^ w) (hn : n < 256 ^ w)
    (h : beBytes w m ++ x = beBytes w n ++ y) : m = n ∧ x = y := by
  obtain ⟨hb, hrest⟩ := List.append_inj h (by simp)
  have hmn := congrArg beNat hb
  rw [beNat_beBytes hm, beNat_beBytes hn] at hmn
  exact ⟨hmn, hrest⟩

/-- The `w` little-endian bytes of `n`, least significant first. -/
def leBytes : ℕ → ℕ → List UInt8
  | 0, _ => []
  | w + 1, n => UInt8.ofNat (n % 256) :: leBytes w (n / 256)

def leNat : List UInt8 → ℕ
  | [] => 0
  | b :: bs => b.toNat + 256 * leNat bs

@[simp] theorem length_leBytes (w n : ℕ) : (leBytes w n).length = w := by
  induction w generalizing n with
  | zero => rfl
  | succ w ih => simp [leBytes, ih]

theorem leNat_leBytes {w n : ℕ} (h : n < 256 ^ w) : leNat (leBytes w n) = n := by
  induction w generalizing n with
  | zero => simp [leBytes, leNat] at *; omega
  | succ w ih =>
    have hq : n / 256 < 256 ^ w := by
      rw [Nat.div_lt_iff_lt_mul (by decide)]
      rwa [pow_succ] at h
    rw [leBytes, leNat, UInt8.toNat_ofNat', Nat.mod_mod, ih hq]
    exact Nat.mod_add_div n 256

/-- The number that `w` bits denote in two's complement. -/
def twosComplement (w n : ℕ) : ℤ := if n < 2 ^ (w - 1) then n else n - 2 ^ w

@[simp] theorem twosComplement_of_lt {w n : ℕ} (h : n < 2 ^ (w - 1)) : twosComplement w n = n :=
  if_pos h

def utf8 (s : String) : List UInt8 := s.toByteArray.data.toList

/-- The text a byte string encodes, when it is valid UTF-8. -/
def fromUtf8 (bs : List UInt8) : Option String := String.fromUTF8? ⟨bs.toArray⟩

theorem utf8_injective : Function.Injective utf8 := by
  intro s t h
  apply String.toByteArray_inj.mp
  apply ByteArray.ext
  exact Array.toList_inj.mp h

@[simp] theorem utf8_inj {s t : String} : utf8 s = utf8 t ↔ s = t := utf8_injective.eq_iff

@[simp] theorem fromUtf8_utf8 (s : String) : fromUtf8 (utf8 s) = some s := by
  have hb : (⟨(utf8 s).toArray⟩ : ByteArray) = s.toByteArray := by
    apply ByteArray.ext
    simp [utf8]
  unfold fromUtf8
  rw [hb, String.fromUTF8?, dif_pos s.isValidUTF8]
  rfl

theorem utf8_of_fromUtf8 {bs : List UInt8} {s : String} (h : fromUtf8 bs = some s) :
    utf8 s = bs := by
  unfold fromUtf8 String.fromUTF8? at h
  split at h
  · obtain rfl := Option.some.inj h
    simp [utf8, String.fromUTF8]
  · cases h

theorem utf8_ofList (cs : List Char) :
    utf8 (String.ofList cs) = cs.flatMap String.utf8EncodeChar := by
  rw [utf8, String.toByteArray_ofList, List.utf8Encode]
  simp

/-- A byte string behind its length as an unsigned 64-bit big-endian number. -/
def frame (bs : List UInt8) : List UInt8 := beBytes 8 bs.length ++ bs

theorem length_frame (bs : List UInt8) : (frame bs).length = 8 + bs.length := by
  simp [frame]

theorem frame_append_cancel {a b x y : List UInt8} (ha : a.length < 256 ^ 8)
    (hb : b.length < 256 ^ 8) (h : frame a ++ x = frame b ++ y) : a = b ∧ x = y := by
  simp only [frame, List.append_assoc] at h
  obtain ⟨hlen, hrest⟩ := List.append_inj h (by simp)
  have hl : a.length = b.length := by
    have := congrArg beNat hlen
    rwa [beNat_beBytes ha, beNat_beBytes hb] at this
  exact List.append_inj hrest hl

/-- A sequence of framed strings determines the strings, as long as lengths fit their frames. -/
theorem flatMap_frame_inj {as bs : List (List UInt8)} (hlen : (as.flatMap frame).length < 256 ^ 8)
    (h : as.flatMap frame = bs.flatMap frame) : as = bs := by
  induction as generalizing bs with
  | nil =>
    cases bs with
    | nil => rfl
    | cons b bs =>
      have := congrArg List.length h
      simp only [List.flatMap_nil, List.length_nil, List.flatMap_cons, List.length_append,
        length_frame] at this
      omega
  | cons a as ih =>
    cases bs with
    | nil =>
      have := congrArg List.length h
      simp only [List.flatMap_nil, List.length_nil, List.flatMap_cons, List.length_append,
        length_frame] at this
      omega
    | cons b bs =>
      have hlen' := congrArg List.length h
      simp only [List.flatMap_cons, List.length_append, length_frame] at h hlen hlen'
      obtain ⟨rfl, hrest⟩ := frame_append_cancel (by omega) (by omega) h
      rw [ih (by omega) hrest]

/-- Nonempty encodings one after the other are at least as long as they are many. -/
theorem length_le_length_flatMap {α : Type} {f : α → List UInt8} (hf : ∀ a, f a ≠ [])
    (l : List α) : l.length ≤ (l.flatMap f).length := by
  induction l with
  | nil => simp
  | cons a l ih =>
    have := List.length_pos_iff.mpr (hf a)
    simp only [List.length_cons, List.flatMap_cons, List.length_append]
    omega

/-- Encodings that tell where they end can be read one after the other, as many as are known
to follow. What one encoding determines may be less than the value it encodes. -/
theorem flatMap_append_cancel {α : Type} {f : α → List UInt8} {P : α → Prop} {R : α → α → Prop}
    (hf : ∀ a b x y, P a → P b → f a ++ x = f b ++ y → R a b ∧ x = y) {as bs : List α}
    {x y : List UInt8} (hlen : as.length = bs.length) (ha : ∀ a ∈ as, P a) (hb : ∀ b ∈ bs, P b)
    (h : as.flatMap f ++ x = bs.flatMap f ++ y) : List.Forall₂ R as bs ∧ x = y := by
  induction as generalizing bs with
  | nil =>
    obtain rfl := List.length_eq_zero_iff.mp hlen.symm
    exact ⟨.nil, h⟩
  | cons a as ih =>
    cases bs with
    | nil => cases hlen
    | cons b bs =>
      simp only [List.flatMap_cons, List.append_assoc] at h
      obtain ⟨hab, hrest⟩ := hf a b _ _ (ha a List.mem_cons_self) (hb b List.mem_cons_self) h
      obtain ⟨hall, hxy⟩ := ih (Nat.succ.inj hlen) (fun c hc => ha c (List.mem_cons_of_mem a hc))
        (fun c hc => hb c (List.mem_cons_of_mem b hc)) hrest
      exact ⟨.cons hab hall, hxy⟩

end Bytes

abbrev ByteReader (ε α : Type) := StateT (List UInt8) (Except ε) α

namespace ByteReader

open Bytes

variable {ε α β : Type}

def take (e : ε) (n : ℕ) : ByteReader ε (List UInt8) := fun bytes =>
  if n ≤ bytes.length then .ok (bytes.take n, bytes.drop n) else .error e

def byte (e : ε) : ByteReader ε UInt8 := do
  let v ← take e 1
  return v.headD 0

def bigEndian (e : ε) (w : ℕ) : ByteReader ε ℕ := do
  let v ← take e w
  return beNat v

def littleEndian (e : ε) (w : ℕ) : ByteReader ε ℕ := do
  let v ← take e w
  return leNat v

def hash32 (e : ε) : ByteReader ε (Vector UInt8 32) := do
  let v ← take e 32
  return Vector.ofFn fun i => v.getD i 0

def repeated (p : ByteReader ε α) : ℕ → ByteReader ε (List α)
  | 0 => return []
  | n + 1 => do
    let a ← p
    let as ← repeated p n
    return a :: as

def complete (e : ε) (p : ByteReader ε α) (bytes : List UInt8) : Except ε α :=
  match p bytes with
  | .ok (a, []) => .ok a
  | .ok (_, _ :: _) => .error e
  | .error e' => .error e'

/-- The reader takes exactly these bytes and returns the value. -/
def Yields (p : ByteReader ε α) (bytes : List UInt8) (a : α) : Prop :=
  ∀ rest, p (bytes ++ rest) = .ok (a, rest)

namespace Yields

variable {p : ByteReader ε α} {f : α → ByteReader ε β} {bytes bytes' : List UInt8} {a : α} {b : β}

theorem pure (a : α) : Yields (pure a : ByteReader ε α) [] a := fun _ => rfl

theorem bind (hp : Yields p bytes a) (hf : Yields (f a) bytes' b) :
    Yields (p >>= f) (bytes ++ bytes') b := by
  intro rest
  change (p (bytes ++ bytes' ++ rest) >>= fun r => f r.1 r.2) = _
  rw [List.append_assoc, hp]
  exact hf rest

theorem bind_nil (hp : Yields p [] a) (hf : Yields (f a) bytes b) : Yields (p >>= f) bytes b :=
  bind hp hf

theorem bind_return (hp : Yields p bytes a) (hf : Yields (f a) [] b) :
    Yields (p >>= f) bytes b := by
  simpa using bind hp hf

theorem lift {x : Except ε α} (h : x = .ok a) :
    Yields (liftM x : ByteReader ε α) [] a := by
  subst h
  exact fun _ => rfl

theorem check {c : Prop} [Decidable c] {e : ε} (hc : ¬c) (hp : Yields p bytes a) :
    Yields (if c then throw e else p) bytes a := by
  rwa [if_neg hc]

theorem complete (hp : Yields p bytes a) (e : ε) : ByteReader.complete e p bytes = .ok a := by
  have h := hp []
  rw [List.append_nil] at h
  rw [ByteReader.complete, h]

theorem take (e : ε) (bytes : List UInt8) : Yields (take e bytes.length) bytes bytes := by
  intro rest
  rw [ByteReader.take, if_pos (by simp), List.take_left, List.drop_left]

theorem byte (e : ε) (b : UInt8) : Yields (byte e) [b] b :=
  bind_return (take e [b]) (pure b)

theorem bigEndian (e : ε) {w n : ℕ} (h : n < 256 ^ w) :
    Yields (bigEndian e w) (beBytes w n) n := by
  have ht := take e (beBytes w n)
  rw [length_beBytes] at ht
  refine bind_return ht ?_
  rw [beNat_beBytes h]
  exact pure n

theorem littleEndian (e : ε) {w n : ℕ} (h : n < 256 ^ w) :
    Yields (littleEndian e w) (leBytes w n) n := by
  have ht := take e (leBytes w n)
  rw [length_leBytes] at ht
  refine bind_return ht ?_
  rw [leNat_leBytes h]
  exact pure n

theorem hash32 (e : ε) (v : Vector UInt8 32) : Yields (hash32 e) v.toList v := by
  have ht := take e v.toList
  rw [Vector.length_toList] at ht
  refine bind_return ht ?_
  have hv : (Vector.ofFn fun i : Fin 32 => v.toList.getD i 0) = v := by
    ext i hi
    simp
  rw [hv]
  exact pure v

theorem repeated {enc : α → List UInt8} {as : List α} (h : ∀ a ∈ as, Yields p (enc a) a) :
    Yields (repeated p as.length) (as.flatMap enc) as := by
  induction as with
  | nil => exact pure []
  | cons a as ih =>
    rw [List.flatMap_cons]
    refine bind (h a List.mem_cons_self) (bind_return (ih ?_) (pure (a :: as)))
    intro a' ha'
    exact h a' (List.mem_cons_of_mem a ha')

end Yields

end ByteReader
