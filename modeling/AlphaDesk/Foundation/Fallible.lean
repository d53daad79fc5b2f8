import Mathlib.Data.List.Basic
import Mathlib.Tactic

/-! # Fallible computations

Inversion rules for computations in `Except`: what a success of a sequence, a
check or a loop says about its parts.
-/

namespace Except

open List

variable {ε α β γ : Type} {x : Except ε α} {f : α → Except ε β} {l : List α} {r : List β} {e : ε}
  {a : α} {b : β} {o : Option α} {p : Prop}

@[simp] theorem ok_bind (a : α) (f : α → Except ε β) : (.ok a >>= f : Except ε β) = f a := rfl

@[simp] theorem error_bind (e : ε) (f : α → Except ε β) :
    (.error e >>= f : Except ε β) = .error e := rfl

@[simp] theorem pure_eq (a : α) : (pure a : Except ε α) = .ok a := rfl

theorem ok_unique {a b : α} (h : x = .ok a) (h' : x = .ok b) : a = b :=
  ok.inj (h.symm.trans h')

theorem bind_eq_ok : (x >>= f) = .ok b ↔ ∃ a, x = .ok a ∧ f a = .ok b := by
  cases x with
  | error e => simp
  | ok a => simp

theorem of_bind (h : (x >>= f) = .ok b) : ∃ a, x = .ok a ∧ f a = .ok b := bind_eq_ok.mp h

theorem bind_eq_error : (x >>= f) = .error e ↔ x = .error e ∨ ∃ a, x = .ok a ∧ f a = .error e := by
  cases x with
  | error e' => simp
  | ok a => simp

theorem ite_error_eq_ok [Decidable p] : (if p then .error e else x) = .ok a ↔ ¬p ∧ x = .ok a := by
  by_cases hp : p <;> simp [hp]

theorem of_check [Decidable p] (h : (if p then .error e else x) = .ok a) : ¬p ∧ x = .ok a :=
  ite_error_eq_ok.mp h

theorem ite_else_error_eq_ok [Decidable p] :
    (if p then x else .error e) = .ok a ↔ p ∧ x = .ok a := by
  by_cases hp : p <;> simp [hp]

theorem dite_else_error_eq_ok [Decidable p] {x : p → Except ε α} :
    (if h : p then x h else .error e) = .ok a ↔ ∃ h, x h = .ok a := by
  by_cases hp : p <;> simp [hp]

theorem map_eq_ok {f : α → β} : x.map f = .ok b ↔ ∃ a, x = .ok a ∧ f a = b := by
  cases x <;> simp [Except.map]

theorem mapError_eq_ok {f : ε → γ} : x.mapError f = .ok a ↔ x = .ok a := by
  cases x <;> simp [Except.mapError]

theorem mapError_eq_error {f : ε → γ} {e : γ} :
    x.mapError f = .error e ↔ ∃ e', x = .error e' ∧ f e' = e := by
  cases x <;> simp [Except.mapError]

theorem mem_toOption : a ∈ x.toOption ↔ x = .ok a := by
  cases x <;> simp [Except.toOption]

instance decidableExistsOk {p : α → Prop} [DecidablePred p] : Decidable (∃ a, x = .ok a ∧ p a) :=
  match x with
  | .ok a => decidable_of_iff (p a) (by simp)
  | .error _ => isFalse (by simp)

def ofOption (e : ε) : Option α → Except ε α
  | some a => .ok a
  | none => .error e

@[simp] theorem ofOption_some (e : ε) (a : α) : ofOption e (some a) = .ok a := rfl

@[simp] theorem ofOption_none (e : ε) : ofOption e (none : Option α) = .error e := rfl

theorem ofOption_eq_ok : ofOption e o = .ok a ↔ o = some a := by
  cases o <;> simp

theorem ofOption_eq_error {e e' : ε} : ofOption e o = .error e' ↔ o = none ∧ e = e' := by
  cases o <;> simp

theorem option_mapM_eq_ok {r : Option β} :
    o.mapM f = .ok r ↔ (o = none ∧ r = none) ∨ ∃ a b, o = some a ∧ f a = .ok b ∧ r = some b := by
  cases o with
  | none => simp [eq_comm]
  | some a =>
    cases hf : f a <;> simp [Functor.map, Except.map, hf, eq_comm]

/-- What a fallible fold preserves: an invariant kept by every successful step. -/
theorem foldlM_invariant {f : β → α → Except ε β} (P : β → Prop) {b b' : β}
    (hstep : ∀ b a b', a ∈ l → P b → f b a = .ok b' → P b') (hb : P b) (h : l.foldlM f b = .ok b') :
    P b' := by
  induction l generalizing b with
  | nil =>
    obtain rfl := ok.inj h
    exact hb
  | cons a l ih =>
    obtain ⟨b₁, h₁, h₂⟩ := of_bind h
    exact ih (fun b a b' ha => hstep b a b' (mem_cons_of_mem _ ha))
      (hstep b a b₁ mem_cons_self hb h₁) h₂

theorem foldlM_error {f : β → α → Except ε β} (h : l.foldlM f b = .error e) :
    ∃ b', ∃ a ∈ l, f b' a = .error e := by
  induction l generalizing b with
  | nil => cases h
  | cons a l ih =>
    rw [foldlM_cons] at h
    cases hf : f b a with
    | error e' =>
      rw [hf] at h
      exact ⟨b, a, mem_cons_self, hf.trans h⟩
    | ok b₁ =>
      rw [hf] at h
      obtain ⟨b', a', ha', he⟩ := ih h
      exact ⟨b', a', mem_cons_of_mem _ ha', he⟩

theorem mapM_eq_ok : l.mapM f = .ok r ↔ List.Forall₂ (fun a b => f a = .ok b) l r := by
  induction l generalizing r with
  | nil =>
    rw [mapM_nil, forall₂_nil_left_iff]
    exact ⟨fun h => (ok.inj h).symm, fun h => h ▸ rfl⟩
  | cons a l ih =>
    rw [mapM_cons, bind_eq_ok]
    constructor
    · rintro ⟨b, hb, h⟩
      obtain ⟨bs, hbs, h⟩ := of_bind h
      obtain rfl := ok.inj h
      exact .cons hb (ih.mp hbs)
    · rintro (_ | ⟨hb, hbs⟩)
      exact ⟨_, hb, bind_eq_ok.mpr ⟨_, ih.mpr hbs, rfl⟩⟩

theorem exists_of_mapM_eq_ok (h : l.mapM f = .ok r) (ha : a ∈ l) : ∃ b ∈ r, f a = .ok b := by
  have hall := mapM_eq_ok.mp h
  clear h
  induction hall with
  | nil => cases ha
  | cons hab _ ih =>
    rcases mem_cons.mp ha with rfl | ha
    · exact ⟨_, mem_cons_self, hab⟩
    · obtain ⟨b, hb, hf⟩ := ih ha
      exact ⟨b, mem_cons_of_mem _ hb, hf⟩

theorem mapM_error (h : l.mapM f = .error e) : ∃ a ∈ l, f a = .error e := by
  induction l with
  | nil => cases h
  | cons a l ih =>
    rw [mapM_cons] at h
    cases hf : f a with
    | error e' =>
      rw [hf, error_bind] at h
      obtain rfl := error.inj h
      exact ⟨a, mem_cons_self, hf⟩
    | ok b =>
      rw [hf, ok_bind] at h
      cases hl : l.mapM f with
      | error e' =>
        rw [hl, error_bind] at h
        obtain ⟨a', ha', he⟩ := ih (hl.trans h)
        exact ⟨a', mem_cons_of_mem _ ha', he⟩
      | ok bs =>
        rw [hl] at h
        cases h

end Except
