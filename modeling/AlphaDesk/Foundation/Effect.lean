import Mathlib.Control.Monad.Basic
import Mathlib.Logic.Basic

/-! # Stateful computations that may fail

A computation reads and writes a state and returns a value or an error; what it
wrote before an error stays written. A triple says what holds behind a success and
what behind an error. Triples follow the text of a computation.
-/

/-- Computations on the state `σ` with errors `ε`. -/
abbrev Effect (σ ε : Type) := ExceptT ε (StateM σ)

namespace Effect

variable {σ ε α β : Type} {m : Effect σ ε α} {f : α → Effect σ ε β} {x : Except ε α} {a : α} {e : ε}
  {s t : σ}

def mk (f : σ → Except ε α × σ) : Effect σ ε α := ExceptT.mk fun s => f s

/-- The reply and the state a computation leaves when it starts in a state. -/
def exec (m : Effect σ ε α) (s : σ) : Except ε α × σ := Id.run (StateT.run (ExceptT.run m) s)

def ofExcept (x : Except ε α) : Effect σ ε α := mk fun s => (x, s)

@[simp] theorem exec_mk (f : σ → Except ε α × σ) (s : σ) : (mk f).exec s = f s := rfl

theorem exec_bind (m : Effect σ ε α) (f : α → Effect σ ε β) (s : σ) :
    (m >>= f).exec s = exec (ExceptT.bindCont (m := StateM σ) f (m.exec s).1) (m.exec s).2 := rfl

theorem exec_bind_of_ok (h : (m.exec s).1 = .ok a) :
    (m >>= f).exec s = (f a).exec (m.exec s).2 := by
  rw [exec_bind, h]
  rfl

theorem exec_bind_of_error (h : (m.exec s).1 = .error e) :
    (m >>= f).exec s = (.error e, (m.exec s).2) := by
  rw [exec_bind, h]
  rfl

/-- A sequence behind a success of its first part, which is known with the state it leaves. -/
theorem exec_bind_of_eq_ok (h : m.exec s = (.ok a, t)) : (m >>= f).exec s = (f a).exec t := by
  rw [exec_bind_of_ok (congrArg Prod.fst h), h]

theorem exec_bind_of_eq_error (h : m.exec s = (.error e, t)) :
    (m >>= f).exec s = (.error e, t) := by
  rw [exec_bind_of_error (congrArg Prod.fst h), h]

theorem exec_ofExcept_ok_bind (a : α) (f : α → Effect σ ε β) (s : σ) :
    (ofExcept (.ok a) >>= f).exec s = (f a).exec s := rfl

theorem exec_bind_eq_ok {b : β} :
    (m >>= f).exec s = (.ok b, t) ↔
      ∃ a u, m.exec s = (.ok a, u) ∧ (f a).exec u = (.ok b, t) := by
  constructor
  · intro h
    cases hr : (m.exec s).1 with
    | ok a =>
      rw [exec_bind_of_ok hr] at h
      exact ⟨a, _, Prod.ext hr rfl, h⟩
    | error e =>
      rw [exec_bind_of_error hr] at h
      exact nomatch congrArg Prod.fst h
  · rintro ⟨a, u, hm, hf⟩
    rw [exec_bind_of_eq_ok hm, hf]

theorem exec_ofExcept_eq_ok : (ofExcept x).exec s = (.ok a, t) ↔ x = .ok a ∧ t = s :=
  ⟨fun h => ⟨congrArg Prod.fst h, (congrArg Prod.snd h).symm⟩, fun ⟨hx, ht⟩ => Prod.ext hx ht.symm⟩

theorem exec_ofExcept_bind_eq_ok {b : β} :
    (ofExcept x >>= f).exec s = (.ok b, t) ↔ ∃ a, x = .ok a ∧ (f a).exec s = (.ok b, t) := by
  simp [exec_bind_eq_ok, exec_ofExcept_eq_ok, and_assoc]

/-- Started where `P` holds, the computation succeeds with `Q` or fails with `E`. -/
def Triple (P : σ → Prop) (m : Effect σ ε α) (Q : α → σ → Prop) (E : ε → σ → Prop) : Prop :=
  ∀ s, P s → (∀ a, (m.exec s).1 = .ok a → Q a (m.exec s).2) ∧
    ∀ e, (m.exec s).1 = .error e → E e (m.exec s).2

/-- What holds at the start holds wherever the computation ends. -/
abbrev Keeps (P : σ → Prop) (m : Effect σ ε α) : Prop := Triple P m (fun _ => P) (fun _ => P)

namespace Triple

variable {P P' : σ → Prop} {Q Q' : α → σ → Prop} {R : β → σ → Prop} {E E' : ε → σ → Prop}

theorem conseq (h : Triple P m Q E) (hP : ∀ s, P' s → P s) (hQ : ∀ a s, Q a s → Q' a s)
    (hE : ∀ e s, E e s → E' e s) : Triple P' m Q' E' := by
  intro s hs
  obtain ⟨hok, herr⟩ := h s (hP s hs)
  exact ⟨fun a ha => hQ a _ (hok a ha), fun e he => hE e _ (herr e he)⟩

theorem pre (h : Triple P m Q E) (hP : ∀ s, P' s → P s) : Triple P' m Q E :=
  fun s hs => h s (hP s hs)

theorem post (h : Triple P m Q E) (hQ : ∀ a s, Q a s → Q' a s) : Triple P m Q' E :=
  h.conseq (fun _ h => h) hQ fun _ _ h => h

theorem of_exec_ok (h : ∀ s, P s → ∃ a, (m.exec s).1 = .ok a ∧ Q a (m.exec s).2) :
    Triple P m Q E := by
  intro s hs
  obtain ⟨a, hexec, hQ⟩ := h s hs
  rw [hexec]
  refine ⟨?_, nofun⟩
  rintro _ ⟨⟩
  exact hQ

theorem pure (h : ∀ s, P s → Q a s) : Triple P (pure a : Effect σ ε α) Q E :=
  of_exec_ok fun s hs => ⟨a, rfl, h s hs⟩

theorem throw (h : ∀ s, P s → E e s) : Triple P (throw e : Effect σ ε α) Q E := by
  intro s hs
  refine ⟨nofun, ?_⟩
  intro e' he
  obtain rfl := Except.error.inj he
  exact h s hs

theorem bind (hm : Triple P m Q E) (hf : ∀ a, Triple (Q a) (f a) R E) :
    Triple P (m >>= f) R E := by
  intro s hs
  obtain ⟨hok, herr⟩ := hm s hs
  cases hr : (m.exec s).1 with
  | ok a =>
    rw [exec_bind_of_ok hr]
    exact hf a _ (hok a hr)
  | error e =>
    rw [exec_bind_of_error hr]
    refine ⟨nofun, ?_⟩
    intro e' he
    obtain rfl := Except.error.inj he
    exact herr e hr

theorem ofExcept (hok : ∀ a, x = .ok a → ∀ s, P s → Q a s)
    (herr : ∀ e, x = .error e → ∀ s, P s → E e s) : Triple P (ofExcept x) Q E :=
  fun s hs => ⟨fun a ha => hok a ha s hs, fun e he => herr e he s hs⟩

/-- What the precondition says whatever the state may be used beforehand. -/
theorem given {p : Prop} (hp : ∀ s, P s → p) (h : p → Triple P m Q E) : Triple P m Q E :=
  fun s hs => h (hp s hs) s hs

theorem bind_ok {a : α} (hx : x = .ok a) (h : Triple P (f a) R E) :
    Triple P (Effect.ofExcept x >>= f) R E := by
  subst hx
  exact h

theorem ofExcept_bind (hf : ∀ a, x = .ok a → Triple P (f a) R E)
    (herr : ∀ e, x = .error e → ∀ s, P s → E e s) : Triple P (Effect.ofExcept x >>= f) R E := by
  cases x with
  | ok a => exact hf a rfl
  | error e => exact (throw (herr e rfl)).bind (Q := fun _ _ => False) fun _ _ => False.elim

/-- A reply that is known to be a success is passed on. -/
theorem bind_ofExcept (hx : ∀ s, P s → ∃ a, x = .ok a) (hf : ∀ a, x = .ok a → Triple P (f a) R E) :
    Triple P (Effect.ofExcept x >>= f) R E := by
  refine ofExcept_bind hf fun e he s hs => ?_
  obtain ⟨a, ha⟩ := hx s hs
  cases ha.symm.trans he

theorem ite {c : Prop} [Decidable c] {m' : Effect σ ε α} (h : Triple P m Q E)
    (h' : Triple P m' Q E) : Triple P (if c then m else m') Q E := by
  split
  next => exact h
  next => exact h'

theorem keeps_pure : Keeps P (Pure.pure a : Effect σ ε α) := Triple.pure fun _ h => h

theorem keeps_throw : Keeps P (MonadExcept.throw e : Effect σ ε α) :=
  Triple.throw fun _ h => h

theorem keeps_ofExcept : Keeps P (Effect.ofExcept x) :=
  Triple.ofExcept (fun _ _ _ h => h) fun _ _ _ h => h

/-- A loop: what ties the items done to the accumulator and the state, kept by every round. -/
theorem foldlM {f : β → α → Effect σ ε β} {I : List α → β → σ → Prop} {items : List α} {b : β}
    (hstep : ∀ done a later b, items = done ++ a :: later →
      Triple (I done b) (f b a) (I (done ++ [a])) E) :
    Triple (I [] b) (items.foldlM f b) (I items) E := by
  suffices h : ∀ (rest done : List α) (b : β), items = done ++ rest →
      Triple (I done b) (rest.foldlM f b) (I items) E from h items [] b rfl
  intro rest
  induction rest with
  | nil =>
    intro done b hitems
    rw [List.append_nil] at hitems
    subst hitems
    exact Triple.pure fun _ h => h
  | cons a rest ih =>
    intro done b hitems
    refine (hstep done a rest b hitems).bind fun b' => ?_
    exact ih (done ++ [a]) b' (by rw [hitems, List.append_assoc, List.singleton_append])

/-- Whatever the reply, what both outcomes ensure holds in the state that is left. -/
theorem always {T : σ → Prop} (h : Triple P m (fun _ => T) (fun _ => T)) (hs : P s) :
    T (m.exec s).2 := by
  obtain ⟨hok, herr⟩ := h s hs
  cases hr : (m.exec s).1 with
  | ok a => exact hok a hr
  | error e => exact herr e hr

end Triple

end Effect
