import Mathlib.Data.List.Basic
import Mathlib.Tactic

/-! # Interruptible sequences of operations

A sequence of atomic operations runs until it is done, until an operation is
refused by the state it meets, or until it is interrupted after a given number
of operations. The trace records what was performed and how the sequence ended.
-/

namespace Interruptible

variable {σ ι : Type}

/-- How a sequence ended: the operation named is the one that did not take effect. -/
inductive Ending (ι : Type)
  | finished
  | refused (op : ι)
  | interrupted (op : ι)

@[ext]
structure Trace (σ ι : Type) where
  performed : List ι
  ending : Ending ι
  state : σ

/-- A trace behind operations performed before it. -/
def Trace.after (done : List ι) (t : Trace σ ι) : Trace σ ι :=
  { t with performed := done ++ t.performed }

variable (apply : ι → σ → Option σ)

/-- Perform the operations in order, at most as many as the budget allows. -/
def exec : Option ℕ → List ι → σ → Trace σ ι
  | _, [], s => ⟨[], .finished, s⟩
  | some 0, op :: _, s => ⟨[], .interrupted op, s⟩
  | budget, op :: ops, s =>
    match apply op s with
    | none => ⟨[], .refused op, s⟩
    | some s' => (exec (budget.map Nat.pred) ops s').after [op]

variable {apply} {budget : Option ℕ} {s t : σ} {ops xs : List ι}

@[simp] theorem exec_nil (budget : Option ℕ) (s : σ) :
    exec apply budget [] s = ⟨[], .finished, s⟩ := by
  cases budget <;> rfl

@[simp] theorem exec_zero (op : ι) (ops : List ι) (s : σ) :
    exec apply (some 0) (op :: ops) s = ⟨[], .interrupted op, s⟩ := rfl

theorem exec_cons (hb : budget ≠ some 0) (op : ι) (ops : List ι) (s : σ) :
    exec apply budget (op :: ops) s = match apply op s with
      | none => ⟨[], .refused op, s⟩
      | some s' => (exec apply (budget.map Nat.pred) ops s').after [op] := by
  rcases budget with - | (- | n)
  · rfl
  · exact absurd rfl hb
  · rfl

/-- What every operation of the sequence keeps holds wherever the sequence ends. -/
theorem exec_invariant {P : σ → Prop} (hop : ∀ op ∈ ops, ∀ s s', P s → apply op s = some s' → P s')
    (budget : Option ℕ) (hs : P s) : P (exec apply budget ops s).state := by
  induction ops generalizing budget s with
  | nil => simpa using hs
  | cons op ops ih =>
    by_cases hb : budget = some 0
    · subst hb
      simpa using hs
    · rw [exec_cons hb]
      cases ha : apply op s with
      | none => exact hs
      | some s' =>
        have hs' : P s' := hop op List.mem_cons_self s s' hs ha
        exact ih (fun o ho => hop o (List.mem_cons_of_mem _ ho)) _ hs'

/-- A sequence that no state refuses is either interrupted part way or finished. -/
theorem exec_total (hrun : ops.foldlM (fun s op => apply op s) s = some t) (budget : Option ℕ) :
    (∃ op ∈ ops, ∃ done, done <+: ops ∧ done.length < ops.length ∧
      budget = some done.length ∧ (exec apply budget ops s).ending = .interrupted op ∧
      (exec apply budget ops s).performed = done) ∨
    (exec apply budget ops s = ⟨ops, .finished, t⟩ ∧ ∀ n ∈ budget, ops.length ≤ n) := by
  induction ops generalizing budget s with
  | nil =>
    obtain rfl : s = t := Option.some.inj hrun
    exact .inr ⟨exec_nil budget s, fun n _ => Nat.zero_le n⟩
  | cons op ops ih =>
    by_cases hb : budget = some 0
    · subst hb
      exact .inl ⟨op, List.mem_cons_self, [], List.nil_prefix, Nat.succ_pos _, rfl, rfl, rfl⟩
    · rw [List.foldlM_cons] at hrun
      obtain ⟨s', ha, hrest⟩ := Option.bind_eq_some_iff.mp hrun
      rw [exec_cons hb, ha]
      rcases ih hrest (budget.map Nat.pred) with
        ⟨o, ho, done, hpre, hlt, hdone, hend, hperf⟩ | ⟨heq, hlen⟩
      · refine .inl ⟨o, List.mem_cons_of_mem _ ho, op :: done, (List.prefix_cons_inj op).mpr hpre,
          Nat.succ_lt_succ hlt, ?_, hend, congrArg (op :: ·) hperf⟩
        rcases budget with - | (- | n)
        · cases hdone
        · exact absurd rfl hb
        · simpa using hdone
      · refine .inr ⟨by simp only [heq]; rfl, ?_⟩
        rintro n rfl
        rcases n with - | n
        · exact absurd rfl hb
        · exact Nat.succ_le_succ (hlen n rfl)

theorem exec_append {ys : List ι} (h : exec apply budget xs s = ⟨xs, .finished, t⟩) :
    exec apply budget (xs ++ ys) s =
      (exec apply (budget.map (· - xs.length)) ys t).after xs := by
  induction xs generalizing budget s with
  | nil =>
    obtain rfl : s = t := by simpa using h
    cases budget <;> rfl
  | cons op xs ih =>
    have hb : budget ≠ some 0 := by
      rintro rfl
      simp at h
    rw [exec_cons hb] at h
    rw [List.cons_append, exec_cons hb]
    cases ha : apply op s with
    | none => simp [ha] at h
    | some s' =>
      have hx : exec apply (budget.map Nat.pred) xs s' = ⟨xs, .finished, t⟩ := by
        simpa [ha, Trace.after, Trace.ext_iff] using h
      have hm : (budget.map Nat.pred).map (· - xs.length) =
          budget.map (· - (op :: xs).length) := by
        rw [Option.map_map]
        refine congrArg (Option.map · budget) (funext fun n => ?_)
        simp only [Function.comp, Nat.pred_eq_sub_one, List.length_cons]
        omega
      simp only [ih hx, hm, Trace.after, List.cons_append, List.nil_append]

theorem exec_append_of_lt (ys : List ι) {n : ℕ} (hn : n < xs.length) (s : σ) :
    exec apply (some n) (xs ++ ys) s = exec apply (some n) xs s := by
  induction xs generalizing n s with
  | nil => simp at hn
  | cons op xs ih =>
    rcases n with - | n
    · rfl
    · rw [List.cons_append, exec_cons (by simp), exec_cons (by simp)]
      cases apply op s with
      | none => rfl
      | some s' =>
        have hrest := ih (Nat.lt_of_succ_lt_succ hn) s'
        simp only [Option.map_some, Nat.pred_succ, hrest]

end Interruptible
