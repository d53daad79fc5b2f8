import Mathlib.Data.List.Basic
import Mathlib.Tactic

/-! # Flat records on the wire

A wire object is a list of named scalars. A layout names the fields of a record
in order and says how each is written and read; what a layout writes, it reads
back. Objects are matched with a layout by name, in any order, but without
unknown or repeated names.
-/

namespace Wire

variable {v : Value}

inductive Value
  | null
  | text (s : String)
  | number (n : ℤ)
  | texts (l : List String)

inductive Base
  | text
  | unsigned (bits : ℕ)
  | signed (bits : ℕ)
  | texts

def Base.accepts : Base → Value → Bool
  | .text, .text _ => true
  | .unsigned bits, .number n => 0 ≤ n && n < 2 ^ bits
  | .signed bits, .number n => -2 ^ (bits - 1) ≤ n && n < 2 ^ (bits - 1)
  | .texts, .texts _ => true
  | _, _ => false

@[simp] theorem Base.accepts_null (b : Base) : b.accepts .null = false := by
  cases b <;> rfl

structure Kind where
  base : Base
  optional : Bool

def Kind.accepts (k : Kind) (v : Value) : Bool :=
  match v with
  | .null => k.optional
  | v => k.base.accepts v

class Scalar (α : Type) where
  base : Base
  write : α → Value
  read : Value → Option α
  accepts_write : ∀ a, base.accepts (write a) = true
  read_write : ∀ a, read (write a) = some a

class Field (α : Type) where
  kind : Kind
  write : α → Value
  read : Value → Option α
  accepts_write : ∀ a, kind.accepts (write a) = true
  read_write : ∀ a, read (write a) = some a

variable {α β : Type}

theorem Scalar.write_ne_null [Scalar α] (a : α) : Scalar.write a ≠ .null := by
  intro h
  have ha := Scalar.accepts_write a
  rw [h, Base.accepts_null] at ha
  cases ha

theorem Kind.accepts_of_ne_null {k : Kind} (hv : v ≠ .null) : k.accepts v = k.base.accepts v := by
  cases v with
  | null => exact absurd rfl hv
  | _ => rfl

instance [Scalar α] : Field α where
  kind := ⟨Scalar.base α, false⟩
  write := Scalar.write
  read := Scalar.read
  accepts_write a := by
    rw [Kind.accepts_of_ne_null (Scalar.write_ne_null a)]
    exact Scalar.accepts_write a
  read_write := Scalar.read_write

instance [Scalar α] : Field (Option α) where
  kind := ⟨Scalar.base α, true⟩
  write
    | none => .null
    | some a => Scalar.write a
  read
    | .null => some none
    | v => (Scalar.read v).map some
  accepts_write
    | none => rfl
    | some a => by
      rw [Kind.accepts_of_ne_null (Scalar.write_ne_null a)]
      exact Scalar.accepts_write a
  read_write
    | none => rfl
    | some a => by
      have hn := Scalar.write_ne_null a
      have hr := Scalar.read_write a
      dsimp only
      split
      next h => exact absurd h hn
      next => rw [hr]; rfl

@[reducible]
def Scalar.ofText (print : α → String) (parse : String → Option α)
    (h : ∀ a, parse (print a) = some a) : Scalar α where
  base := .text
  write a := .text (print a)
  read
    | .text s => parse s
    | _ => none
  accepts_write _ := rfl
  read_write := h

@[reducible]
def Scalar.ofTexts (print : α → String) (parse : String → Option α)
    (h : ∀ a, parse (print a) = some a) : Scalar (List α) where
  base := .texts
  write l := .texts (l.map print)
  read
    | .texts l => l.mapM parse
    | _ => none
  accepts_write _ := rfl
  read_write l := by
    dsimp only
    induction l with
    | nil => rfl
    | cons a l ih => simp [List.mapM_cons, h, ih]

/-- A closed set of values, each with its own name. -/
class Named (α : Type) where
  all : List α
  name : α → String
  find_name : ∀ a, all.find? (name · == name a) = some a

def Named.parse [Named α] (s : String) : Option α := Named.all.find? (Named.name · == s)

theorem Named.parse_name [Named α] (a : α) : Named.parse (Named.name a) = some a :=
  Named.find_name a

instance [Named α] : Scalar α := Scalar.ofText Named.name Named.parse Named.parse_name

instance : Scalar String := Scalar.ofText id some fun _ => rfl

/-- The fields of a record, in the order they are written. -/
structure Layout (α : Type) where
  fields : List (String × Kind)
  write : α → List Value
  read : List Value → Option α
  accepts_write : ∀ a, List.Forall₂ (fun f v => f.2.accepts v = true) fields (write a)
  read_write : ∀ a, read (write a) = some a

namespace Layout

/-- A record of one field. -/
def last [Field α] (name : String) : Layout α where
  fields := [(name, Field.kind α)]
  write a := [Field.write a]
  read
    | [v] => Field.read v
    | _ => none
  accepts_write a := .cons (Field.accepts_write a) .nil
  read_write := Field.read_write

/-- A field in front of a record. -/
def and [Field α] (name : String) (rest : Layout β) : Layout (α × β) where
  fields := (name, Field.kind α) :: rest.fields
  write a := Field.write a.1 :: rest.write a.2
  read
    | v :: vs => do return (← Field.read v, ← rest.read vs)
    | [] => none
  accepts_write a := .cons (Field.accepts_write a.1) (rest.accepts_write a.2)
  read_write a := by simp [Field.read_write, rest.read_write]

/-- One record after another. -/
def append (first : Layout α) (rest : Layout β) : Layout (α × β) where
  fields := first.fields ++ rest.fields
  write a := first.write a.1 ++ rest.write a.2
  read vs := do
    return (← first.read (vs.take first.fields.length), ← rest.read (vs.drop first.fields.length))
  accepts_write a := List.rel_append (first.accepts_write a.1) (rest.accepts_write a.2)
  read_write a := by
    have hlen : first.fields.length = (first.write a.1).length :=
      (first.accepts_write a.1).length_eq
    simp [hlen, first.read_write, rest.read_write]

/-- A field of constant text in front of a record. -/
def tag (name text : String) (rest : Layout β) : Layout β where
  fields := (name, ⟨.text, false⟩) :: rest.fields
  write a := .text text :: rest.write a
  read
    | .text s :: vs => if s = text then rest.read vs else none
    | _ => none
  accepts_write a := .cons rfl (rest.accepts_write a)
  read_write a := by simp [rest.read_write]

end Layout

variable {fields : List (String × Kind)} {vs : List Value}

abbrev Object := List (String × Value)

/-- The object of the given values under the names of the fields. -/
def object (fields : List (String × Kind)) (vs : List Value) : Object :=
  (fields.map Prod.fst).zip vs

/-- The value of a field: null stands in for an optional field that is absent. -/
def fieldValue (o : Object) (f : String × Kind) : Option Value :=
  match o.lookup f.1 with
  | some v => if f.2.accepts v then some v else none
  | none => if f.2.optional then some .null else none

/-- Match an object with the fields by name. -/
def conform (fields : List (String × Kind)) (o : Object) : Option (List Value) :=
  if (o.map Prod.fst).Nodup ∧ ∀ n ∈ o.map Prod.fst, n ∈ fields.map Prod.fst then
    fields.mapM (fieldValue o)
  else none

theorem mapM_fieldValue (ha : List.Forall₂ (fun f v => f.2.accepts v = true) fields vs)
    (hn : (fields.map Prod.fst).Nodup) (o : Object)
    (ho : ∀ n v, (n, v) ∈ object fields vs → o.lookup n = some v) :
    fields.mapM (fieldValue o) = some vs := by
  induction ha with
  | nil => rfl
  | @cons f v fields vs hfv _ ih =>
    have hf : fieldValue o f = some v := by
      rw [fieldValue, ho f.1 v List.mem_cons_self]
      exact if_pos hfv
    have hrest := ih (List.nodup_cons.mp hn).2 fun n w hm => ho n w (List.mem_cons_of_mem _ hm)
    rw [List.mapM_cons, hf, hrest]
    rfl

theorem lookup_of_mem {o : Object} (hn : (o.map Prod.fst).Nodup) {n : String} (h : (n, v) ∈ o) :
    o.lookup n = some v := by
  induction o with
  | nil => cases h
  | cons e o ih =>
    obtain ⟨m, w⟩ := e
    rw [List.map_cons, List.nodup_cons] at hn
    rcases List.mem_cons.mp h with heq | hm
    · obtain ⟨rfl, rfl⟩ := Prod.mk.inj heq
      simp
    · have hne : n ≠ m := by
        rintro rfl
        exact hn.1 (List.mem_map.mpr ⟨(n, v), hm, rfl⟩)
      rw [List.lookup_cons, beq_false_of_ne hne]
      exact ih hn.2 hm

/-- The object a layout writes is matched to the values it was written from. -/
theorem conform_object (ha : List.Forall₂ (fun f v => f.2.accepts v = true) fields vs)
    (hn : (fields.map Prod.fst).Nodup) : conform fields (object fields vs) = some vs := by
  have hlen : (fields.map Prod.fst).length ≤ vs.length := by
    rw [List.length_map]
    exact ha.length_eq.le
  have hnames : (object fields vs).map Prod.fst = fields.map Prod.fst := List.map_fst_zip hlen
  unfold conform
  rw [hnames, if_pos ⟨hn, fun n h => h⟩]
  exact mapM_fieldValue ha hn _ fun n v h => lookup_of_mem (hnames ▸ hn) h

end Wire
