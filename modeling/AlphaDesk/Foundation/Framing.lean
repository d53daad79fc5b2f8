import Mathlib.Data.List.Basic
import Mathlib.Tactic

/-! # Files of frames

A file of frames is read from the front: each frame holds an item, and behind the
last frame the file ends, breaks off in the middle of a frame, or holds what is no
frame. A loop over such a file is a fold over its items.
-/

/-- What stands at the front of a byte string. -/
inductive Front (α : Type)
  | item (value : α) (size : ℕ)
  | ended
  | torn

/-- An item of a file, with the offsets at which its frame starts and stops. -/
structure Framed (α : Type) where
  start : ℕ
  value : α
  stop : ℕ

inductive Ending (ε : Type)
  | ended
  | torn (offset : ℕ)
  | failed (error : ε)

structure Frames (ε α : Type) where
  items : List (Framed α)
  ending : Ending ε

namespace Frames

open List

variable {ε α σ : Type}

variable (next : ℕ → List UInt8 → Except ε (Front α))

/-- The frames from an offset on. Every item takes bytes from the file, so a file has fewer
items than the fuel when that is more than its length. -/
def read : ℕ → ℕ → List UInt8 → Frames ε α
  | 0, _, _ => ⟨[], .ended⟩
  | fuel + 1, offset, bytes =>
    match next offset bytes with
    | .error e => ⟨[], .failed e⟩
    | .ok .ended => ⟨[], .ended⟩
    | .ok .torn => ⟨[], .torn offset⟩
    | .ok (.item value size) =>
      let later := read fuel (offset + size) (bytes.drop size)
      ⟨⟨offset, value, offset + size⟩ :: later.items, later.ending⟩

/-- The bytes are a frame of the item wherever they stand. -/
def Holds (frame : List UInt8) (value : α) : Prop :=
  ∀ offset rest, next offset (frame ++ rest) = .ok (.item value frame.length)

variable {β : Type} (frame : β → List UInt8) (value : β → α)

/-- The items in frames one after the other, from an offset on. -/
def placed : ℕ → List β → List (Framed α)
  | _, [] => []
  | offset, b :: bs =>
    ⟨offset, value b, offset + (frame b).length⟩ :: placed (offset + (frame b).length) bs

theorem map_value_placed (offset : ℕ) (bs : List β) :
    (placed frame value offset bs).map Framed.value = bs.map value := by
  induction bs generalizing offset with
  | nil => rfl
  | cons b bs ih => simp [placed, ih]

theorem placed_append (offset : ℕ) (as bs : List β) :
    placed frame value offset (as ++ bs) = placed frame value offset as ++
      placed frame value (offset + (as.flatMap frame).length) bs := by
  induction as generalizing offset with
  | nil => simp [placed]
  | cons a as ih => simp [placed, ih, Nat.add_assoc]

variable {frame value}

/-- Frames one after the other are read as their items, whatever follows them. -/
theorem read_append {next : ℕ → List UInt8 → Except ε (Front α)} {bs : List β}
    (h : ∀ b ∈ bs, Holds next (frame b) (value b)) (fuel offset : ℕ) (tail : List UInt8) :
    read next (bs.length + fuel) offset (bs.flatMap frame ++ tail) =
      let later := read next fuel (offset + (bs.flatMap frame).length) tail
      ⟨placed frame value offset bs ++ later.items, later.ending⟩ := by
  induction bs generalizing offset with
  | nil => simp [placed]
  | cons b bs ih =>
    have hfuel : (b :: bs).length + fuel = bs.length + fuel + 1 := by
      rw [length_cons]
      omega
    have hfront := h b mem_cons_self offset (bs.flatMap frame ++ tail)
    have hlater := ih (fun c hc => h c (mem_cons_of_mem b hc)) (offset + (frame b).length)
    rw [hfuel, flatMap_cons, append_assoc, read, hfront]
    simp only [drop_left, hlater, placed, cons_append, length_append,
      Nat.add_assoc]

/-- A file that was cut somewhere holds the frames before the cut and the beginning of the next. -/
theorem exists_split_of_prefix {file : List UInt8} {bs : List β} (h : file <+: bs.flatMap frame) :
    ∃ k ≤ bs.length, ∃ tail, file = (bs.take k).flatMap frame ++ tail ∧
      (tail = [] ∨ ∃ b, bs[k]? = some b ∧ tail <+: frame b ∧ tail ≠ frame b) := by
  induction bs generalizing file with
  | nil => exact ⟨0, le_rfl, [], by simpa using h, .inl rfl⟩
  | cons b bs ih =>
    by_cases hb : frame b <+: file
    · -- the first frame is whole, and the rest was cut
      obtain ⟨rest, rfl⟩ := hb
      obtain ⟨k, hk, tail, rfl, htail⟩ := ih ((prefix_append_right_inj _).mp h)
      refine ⟨k + 1, Nat.succ_le_succ hk, tail, ?_, htail⟩
      rw [take_succ_cons, flatMap_cons, append_assoc]
    · have hfile : file <+: frame b := by
        obtain hle | hle := prefix_or_prefix_of_prefix h (prefix_append _ _)
        · exact hle
        · exact absurd hle hb
      refine ⟨0, Nat.zero_le _, file, rfl, .inr ⟨b, rfl, hfile, ?_⟩⟩
      rintro rfl
      exact hb (prefix_refl _)

/-- A loop over the items up to the end of the file. Behind a frame that breaks off it ends with
the offset of that frame. -/
def fold (file : Frames ε α) (f : σ → Framed α → Except ε σ) (s : σ) : Except ε (σ × Option ℕ) := do
  let s ← file.items.foldlM f s
  match file.ending with
  | .ended => return (s, none)
  | .torn offset => return (s, some offset)
  | .failed e => throw e

theorem fold_ended (items : List (Framed α)) (f : σ → α → Except ε σ) (s : σ) :
    (⟨items, .ended⟩ : Frames ε α).fold (fun s item => f s item.value) s =
      ((items.map Framed.value).foldlM f s).map (·, none) := by
  rw [fold, foldlM_map]
  cases items.foldlM (fun s item => f s item.value) s <;> rfl

end Frames
