import Mathlib.Data.List.Basic
import Mathlib.Tactic

/-! # Runs of a state machine

A run folds a step function over its inputs. What every step keeps holds at the
end of the run, and inputs that leave the state alone can be dropped from it. A
step may return an output beside the state it leaves. A path is a run of a step
relation, with the labels of its steps as its history.
-/

namespace Run

open List

variable {σ ι : Type} (step : σ → ι → σ) {inputs : List ι} {i : ι}

/-- The state after the inputs, taken in order. -/
def final (s : σ) (inputs : List ι) : σ := inputs.foldl step s

@[simp] theorem final_nil (s : σ) : final step s [] = s := rfl

@[simp] theorem final_cons (s : σ) (i : ι) (inputs : List ι) :
    final step s (i :: inputs) = final step (step s i) inputs := rfl

theorem final_append (s : σ) (before after : List ι) :
    final step s (before ++ after) = final step (final step s before) after :=
  foldl_append

theorem final_concat (s : σ) (inputs : List ι) (i : ι) :
    final step s (inputs ++ [i]) = step (final step s inputs) i := by
  rw [final_append, final_cons, final_nil]

/-- What holds at the start and is kept by every step holds after every run. -/
theorem invariant {P : σ → Prop} {s : σ} (hs : P s) (hstep : ∀ s i, P s → P (step s i))
    (inputs : List ι) : P (final step s inputs) := by
  induction inputs generalizing s with
  | nil => exact hs
  | cons i inputs ih => exact ih (hstep s i hs)

variable (effective : σ → ι → Bool)

/-- The inputs that are effective in the state in which they arrive. -/
def effectives (s : σ) : List ι → List ι
  | [] => []
  | i :: inputs =>
    if effective s i then i :: effectives (step s i) inputs else effectives (step s i) inputs

variable {step effective}

theorem effectives_concat (s : σ) (inputs : List ι) (i : ι) :
    effectives step effective s (inputs ++ [i]) = effectives step effective s inputs ++
      if effective (final step s inputs) i then [i] else [] := by
  induction inputs generalizing s with
  | nil => rfl
  | cons j inputs ih =>
    simp only [cons_append, effectives, ih, final_cons]
    split <;> rfl

theorem length_effectives_le (s : σ) (inputs : List ι) :
    (effectives step effective s inputs).length ≤ inputs.length := by
  induction inputs generalizing s with
  | nil => exact le_rfl
  | cons i inputs ih =>
    rw [effectives]
    split
    next => exact Nat.succ_le_succ (ih (step s i))
    next => exact (ih (step s i)).trans (Nat.le_succ _)

theorem effectives_concat_eq_iff {s : σ} :
    effectives step effective s (inputs ++ [i]) = inputs ++ [i] ↔
      effectives step effective s inputs = inputs ∧ effective (final step s inputs) i = true := by
  rw [effectives_concat]
  constructor
  · intro h
    split at h
    next he => exact ⟨(append_inj' h rfl).1, he⟩
    next =>
      have hlength := congrArg length h
      have hle : (effectives step effective s inputs).length ≤ inputs.length :=
        length_effectives_le s inputs
      simp only [append_nil, length_append, length_singleton] at hlength
      omega
  · rintro ⟨h, he⟩
    rw [h, if_pos he]

/-- Inputs without effect may be dropped: the effective ones give the same run. -/
theorem final_effectives (h : ∀ s i, effective s i = false → step s i = s) (s : σ)
    (inputs : List ι) :
    final step s (effectives step effective s inputs) = final step s inputs := by
  induction inputs generalizing s with
  | nil => rfl
  | cons i inputs ih =>
    rw [effectives]
    split
    next => exact ih (step s i)
    next he =>
      have hs : step s i = s := h s i (Bool.eq_false_iff.mpr he)
      rw [final_cons, hs, ih s]

/-- A property of the state that effective inputs establish for themselves and that
other inputs keep ties the last effective input to the end of the run. -/
theorem effectives_mem {P : σ → ι → Prop}
    (hnew : ∀ s i, effective s i = true → P (step s i) i)
    (hold : ∀ s i j, P s i → P (step s j) i) (s : σ) (inputs : List ι) :
    ∀ i ∈ effectives step effective s inputs, P (final step s inputs) i := by
  induction inputs using reverseRecOn with
  | nil => simp [effectives]
  | append_singleton inputs j ih =>
    intro i hi
    rw [effectives_concat, mem_append] at hi
    rw [final_concat]
    rcases hi with hi | hi
    · exact hold _ i j (ih i hi)
    · split at hi
      next he =>
        obtain rfl := mem_singleton.mp hi
        exact hnew _ i he
      next => cases hi

/-- What holds of every input together with the inputs before it. -/
def Along (P : List ι → ι → Prop) (inputs : List ι) : Prop :=
  ∀ before i later, inputs = before ++ i :: later → P before i

variable {P : List ι → ι → Prop}

theorem along_nil : Along P [] := by
  intro before i later h
  simp at h

theorem along_concat : Along P (inputs ++ [i]) ↔ Along P inputs ∧ P inputs i := by
  constructor
  · intro h
    refine ⟨?_, h inputs i [] rfl⟩
    rintro before j later rfl
    exact h before j (later ++ [i]) (by simp)
  · rintro ⟨h, hi⟩ before j later heq
    rcases eq_nil_or_concat later with rfl | ⟨later, k, rfl⟩
    · obtain ⟨rfl, hij⟩ := append_inj' heq rfl
      obtain rfl := singleton_inj.mp hij
      exact hi
    · rw [concat_eq_append, ← cons_append, ← append_assoc] at heq
      exact h before j later (append_inj' heq rfl).1

theorem along_singleton : Along P [i] ↔ P [] i := by
  rw [← nil_append [i], along_concat]
  exact and_iff_right along_nil

variable {ο : Type} (react : σ → ι → ο × σ)

/-- What the steps of a run return, in order. -/
def outputs (s : σ) : List ι → List ο
  | [] => []
  | i :: inputs => (react s i).1 :: outputs (react s i).2 inputs

theorem outputs_append (s : σ) (before after : List ι) :
    outputs react s (before ++ after) = outputs react s before ++
      outputs react (final (fun s i => (react s i).2) s before) after := by
  induction before generalizing s with
  | nil => rfl
  | cons i before ih => simp [outputs, ih]

theorem outputs_concat (s : σ) (inputs : List ι) (i : ι) :
    outputs react s (inputs ++ [i]) = outputs react s inputs ++
      [(react (final (fun s i => (react s i).2) s inputs) i).1] :=
  outputs_append react s inputs [i]

theorem length_outputs (s : σ) (inputs : List ι) :
    (outputs react s inputs).length = inputs.length := by
  induction inputs generalizing s with
  | nil => rfl
  | cons i inputs ih => simp [outputs, ih]

/-- The steps from one state to another, with their labels in order. -/
inductive Path (step : σ → ι → σ → Prop) (s : σ) : List ι → σ → Prop
  | nil : Path step s [] s
  | snoc {labels : List ι} {t u : σ} {i : ι} :
    Path step s labels t → step t i u → Path step s (labels ++ [i]) u

namespace Path

variable {step : σ → ι → σ → Prop} {s t u : σ} {before after : List ι}

theorem append (h : Path step s before t) (h' : Path step t after u) :
    Path step s (before ++ after) u := by
  induction h' with
  | nil => rwa [append_nil]
  | snoc _ hstep ih =>
    rw [← append_assoc]
    exact .snoc ih hstep

theorem mono {step' : σ → ι → σ → Prop} (hsub : ∀ s i t, step s i t → step' s i t)
    (h : Path step s before t) : Path step' s before t := by
  induction h with
  | nil => exact .nil
  | snoc _ hstep ih => exact .snoc ih (hsub _ _ _ hstep)

/-- What ties a state to its history at the start and is kept by every step. -/
theorem history_invariant {P : List ι → σ → Prop} (hs : P [] s)
    (hstep : ∀ labels t i u, P labels t → step t i u → P (labels ++ [i]) u)
    (h : Path step s before t) : P before t := by
  induction h with
  | nil => exact hs
  | snoc _ hi ih => exact hstep _ _ _ _ ih hi

theorem related {Q : σ → σ → Prop} (hrefl : ∀ s, Q s s)
    (htrans : ∀ s t u, Q s t → Q t u → Q s u) (hstep : ∀ s i t, step s i t → Q s t)
    (h : Path step s before t) : Q s t := by
  induction h with
  | nil => exact hrefl _
  | snoc _ hi ih => exact htrans _ _ _ ih (hstep _ _ _ hi)

end Path

end Run
