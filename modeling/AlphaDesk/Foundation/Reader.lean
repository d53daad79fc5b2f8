import Mathlib.Data.List.Basic
import Mathlib.Tactic

/-! # Exact readers

A reader consumes a prefix of its input or fails. It is exact for an encoding
when it reads back every valid value that stands in front of the input and
accepts nothing else. Exactness composes along the monadic structure of a
reader, so a decoder is proved exact by following its text.
-/

variable {σ ε β α γ : Type} {f : α → StateT σ (Except ε) γ} {s s' : σ} {a : α}

theorem StateT.except_bind_eq_ok {p : StateT σ (Except ε) α} {s'' : σ} {c : γ} :
    (p >>= f) s = .ok (c, s'') ↔ ∃ a s', p s = .ok (a, s') ∧ f a s' = .ok (c, s'') := by
  change (p s >>= fun r => f r.1 r.2) = _ ↔ _
  cases h : p s with
  | error e => simp [bind, Except.bind]
  | ok r =>
    obtain ⟨a, s'⟩ := r
    constructor
    · intro hf
      exact ⟨a, s', rfl, hf⟩
    · rintro ⟨a', s₁, he, hf⟩
      obtain ⟨rfl, rfl⟩ := Prod.mk.inj (Except.ok.inj he)
      exact hf

theorem StateT.except_lift_eq_ok {x : Except ε α} :
    (liftM x : StateT σ (Except ε) α) s = .ok (a, s') ↔ x = .ok a ∧ s' = s := by
  cases x with
  | error e =>
    constructor
    · intro h
      cases h
    · rintro ⟨h, -⟩
      cases h
  | ok b =>
    change Except.ok (b, s) = .ok (a, s') ↔ _
    simp [eq_comm]

theorem StateT.except_pure_eq_ok {b : α} :
    (pure b : StateT σ (Except ε) α) s = .ok (a, s') ↔ b = a ∧ s' = s := by
  change Except.ok (b, s) = .ok (a, s') ↔ _
  simp [eq_comm]

/-- `p` reads exactly the encodings `enc a` of the values with `valid a`, where
`rest` is the input a state has not consumed yet. -/
structure Reads (rest : σ → List β) (p : StateT σ (Except ε) α) (enc : α → List β)
    (valid : α → Prop) : Prop where
  accepts : ∀ {s a tail}, valid a → rest s = enc a ++ tail →
    ∃ s', p s = .ok (a, s') ∧ rest s' = tail
  consumed : ∀ {s a s'}, p s = .ok (a, s') → valid a ∧ rest s = enc a ++ rest s'

namespace Reads

variable {rest : σ → List β} {p : StateT σ (Except ε) α} {enc : α → List β} {valid : α → Prop}

theorem congr {enc' : α → List β} {valid' : α → Prop} (h : Reads rest p enc valid)
    (hv : ∀ a, valid' a ↔ valid a) (he : ∀ a, valid a → enc' a = enc a) :
    Reads rest p enc' valid' where
  accepts := by
    intro s a tail ha hs
    have ha' := (hv a).mp ha
    exact h.accepts ha' (by rw [hs, he a ha'])
  consumed := by
    intro s a s' hp
    obtain ⟨ha, hs⟩ := h.consumed hp
    exact ⟨(hv a).mpr ha, by rw [hs, he a ha]⟩

theorem pure (c : α) : Reads rest (pure c : StateT σ (Except ε) α) (fun _ => []) (· = c) where
  accepts := by
    rintro s a tail rfl hs
    exact ⟨s, rfl, hs⟩
  consumed := by
    intro s a s' h
    obtain ⟨rfl, rfl⟩ := StateT.except_pure_eq_ok.mp h
    exact ⟨rfl, rfl⟩

/-- Reading in sequence: `part` recovers the first component from the result. -/
theorem bind (hp : Reads rest p enc valid) (part : γ → α) (encC : α → γ → List β)
    (validC : α → γ → Prop) (hf : ∀ a, valid a → Reads rest (f a) (encC a) (validC a))
    (hpart : ∀ a c, validC a c → part c = a) :
    Reads rest (p >>= f) (fun c => enc (part c) ++ encC (part c) c)
      (fun c => valid (part c) ∧ validC (part c) c) where
  accepts := by
    rintro s c tail ⟨ha, hc⟩ hs
    rw [List.append_assoc] at hs
    obtain ⟨s', hps, hs'⟩ := hp.accepts ha hs
    obtain ⟨s'', hfs, hs''⟩ := (hf _ ha).accepts hc hs'
    exact ⟨s'', StateT.except_bind_eq_ok.mpr ⟨_, _, hps, hfs⟩, hs''⟩
  consumed := by
    intro s c s'' h
    obtain ⟨a, s', hps, hfs⟩ := StateT.except_bind_eq_ok.mp h
    obtain ⟨ha, hs⟩ := hp.consumed hps
    obtain ⟨hc, hs'⟩ := (hf a ha).consumed hfs
    obtain rfl := hpart a c hc
    exact ⟨⟨ha, hc⟩, by rw [hs, hs', List.append_assoc]⟩

theorem convert {g : α → StateT σ (Except ε) γ} (hp : Reads rest p enc valid) (back : γ → α)
    (ok : γ → Prop)
    (hg : ∀ a c s s', valid a → (g a s = .ok (c, s') ↔ (a = back c ∧ ok c) ∧ s' = s)) :
    Reads rest (p >>= g) (fun c => enc (back c)) (fun c => valid (back c) ∧ ok c) where
  accepts := by
    rintro s c tail ⟨hv, hok⟩ hs
    obtain ⟨s', hps, hs'⟩ := hp.accepts hv hs
    have hgs := (hg _ c s' s' hv).mpr ⟨⟨rfl, hok⟩, rfl⟩
    exact ⟨s', StateT.except_bind_eq_ok.mpr ⟨_, _, hps, hgs⟩, hs'⟩
  consumed := by
    intro s c s'' h
    obtain ⟨a, s', hps, hgs⟩ := StateT.except_bind_eq_ok.mp h
    obtain ⟨hv, hs⟩ := hp.consumed hps
    obtain ⟨⟨rfl, hok⟩, rfl⟩ := (hg _ _ _ _ hv).mp hgs
    exact ⟨⟨hv, hok⟩, hs⟩

theorem check {c : Prop} [Decidable c] {e : ε} (h : ¬c → Reads rest p enc valid) :
    Reads rest (if c then throw e else p) enc (fun a => ¬c ∧ valid a) := by
  by_cases hc : c
  · refine ⟨fun ha => absurd hc ha.1, ?_⟩
    intro s a s' hr
    rw [if_pos hc] at hr
    cases hr
  · rw [if_neg hc]
    exact (h hc).congr (fun a => by simp [hc]) (fun _ _ => rfl)

end Reads
