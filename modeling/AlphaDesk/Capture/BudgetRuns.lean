import AlphaDesk.Capture.Budget

/-! # Runs of the request budget

What the calls of a run take from a pool is bounded by what it held and gained since. The
bound follows call by call: the level of a pool rises by no more than the time is worth
and what is refunded, and falls by what is taken. Calls that grant nothing leave no trace
for the calls behind them.
-/

namespace AlphaDesk

open TokenBucket

namespace RequestBudget

variable (k : PoolKind) (b : RequestBudget) (now : ℕ) (call : BudgetCall)

/-- What a grant or an extra charge takes from a pool. An exchange that refuses empties the pools,
but takes nothing. -/
def takenFrom : ℕ :=
  if call.is429 then 0
  else ((b.refill now).pool k).available - ((b.step now call).1.pool k).available

def refundedTo : ℕ :=
  ((b.step now call).1.pool k).available - ((b.refill now).pool k).available

variable {k : PoolKind} {b : RequestBudget} {now : ℕ} {call : BudgetCall}

@[simp] theorem cap_step : ((b.step now call).1.pool k).cap = (b.pool k).cap := by
  cases moves_step b now call with
  | none h => rw [h, cap_pool_refill]
  | take weights h => rw [h, cap_take, cap_pool_refill]
  | refund lease weights h => rw [h, cap_refund, cap_pool_refill]
  | drain h => rw [h, cap_drain, cap_pool_refill]

theorem Capped.step (h : b.Capped) : (b.step now call).1.Capped := fun k => by
  rw [cap_step]
  exact h k

theorem level_step (k : PoolKind) (b : RequestBudget) (now : ℕ) (call : BudgetCall) :
    takenFrom k b now call * minuteMillis + ((b.step now call).1.pool k).level ≤
      refundedTo k b now call * minuteMillis + ((b.refill now).pool k).level := by
  unfold takenFrom refundedTo
  cases moves_step b now call with
  | none h =>
    rw [h]
    simp
  | take weights h hle _ _ hcall =>
    rw [h, if_neg (by simp [hcall])]
    simp only [level, available_take, remainder_take,
      minuteMillis]
    omega
  | refund lease weights h hcall =>
    have hnot : call.is429 = false := by
      cases call <;> first | rfl | cases hcall
    rw [h, if_neg (by simp [hnot])]
    simp only [level, available_refund, remainder_refund,
      minuteMillis]
    omega
  | drain h hcall =>
    rw [h, if_pos hcall, level_drain, zero_mul]
    exact Nat.zero_le _

theorem taken_priority_eq_zero (hcall : call.isProtected = false) :
    takenFrom .priority b now call = 0 := by
  unfold takenFrom
  cases moves_step b now call with
  | none h => simp [h]
  | take weights h _ hunprotected => simp [h, hunprotected hcall]
  | refund lease weights h =>
    rw [h, available_refund]
    split
    · rfl
    · exact Nat.sub_eq_zero_of_le (le_min ((b.refill now).pool .priority).available_le le_self_add)
  | drain _ hcall => rw [if_pos hcall]

theorem taken_granted {lease : BudgetLease} (hreply : (b.step now call).2 = .granted lease) :
    takenFrom k b now call = lease.fromPool k := by
  unfold takenFrom
  cases moves_step b now call with
  | none _ h => exact absurd hreply (h lease)
  | take weights h hle _ hgrant hcall =>
    have := hle k
    rw [h, if_neg (by simp [hcall]), available_take, ← hgrant lease hreply]
    omega
  | refund _ _ _ _ _ h => exact absurd hreply (h lease)
  | drain _ _ h => exact absurd hreply (h lease)

theorem refunded_le : refundedTo k b now call ≤ call.returned.elim 0 (·.fromPool k) := by
  unfold refundedTo
  cases moves_step b now call with
  | none h => simp [h]
  | take weights h => simp [h]
  | refund lease weights h hcall hle =>
    have := hle k
    rw [h, hcall, available_refund, Option.elim_some]
    omega
  | drain h => simp [h, drain]

/-- A call sees the time before it only through its refill. -/
theorem step_refill (hb : b.Capped) {τ : ℕ} (hτ : b.lastRefillMillis ≤ τ) (hnow : τ ≤ now) :
    (b.refill τ).step now call = b.step now call := by
  have h := refill_refill hb hτ hnow
  cases call <;>
    simp only [step, reserve, commit, release, on429, snapshot, h]

abbrev BudgetRun := List (ℕ × BudgetCall)

/-- The times of a run do not decrease from a start. -/
def InOrder : ℕ → BudgetRun → Prop
  | _, [] => True
  | start, c :: calls => start ≤ c.1 ∧ InOrder c.1 calls

def after (b : RequestBudget) (calls : BudgetRun) : RequestBudget :=
  calls.foldl (fun b c => (b.step c.1 c.2).1) b

def replies : RequestBudget → BudgetRun → List BudgetReply
  | _, [] => []
  | b, c :: calls => (b.step c.1 c.2).2 :: replies (b.step c.1 c.2).1 calls

def totalTaken (k : PoolKind) : RequestBudget → BudgetRun → ℕ
  | _, [] => 0
  | b, c :: calls => takenFrom k b c.1 c.2 + totalTaken k (b.step c.1 c.2).1 calls

def totalRefunded (k : PoolKind) : RequestBudget → BudgetRun → ℕ
  | _, [] => 0
  | b, c :: calls => refundedTo k b c.1 c.2 + totalRefunded k (b.step c.1 c.2).1 calls

/-- The time by which the clock of a run goes forward, step by step. -/
def forward : ℕ → BudgetRun → ℕ
  | _, [] => 0
  | last, c :: calls => (c.1 - last) + forward c.1 calls

variable {calls : BudgetRun}

theorem forward_le {start t : ℕ} (horder : InOrder start calls) (ht : start ≤ t)
    (hcalls : ∀ c ∈ calls, c.1 ≤ t) : forward start calls ≤ t - start := by
  induction calls generalizing start with
  | nil => exact Nat.zero_le _
  | cons c calls ih =>
    have hc := hcalls c List.mem_cons_self
    have hrest := ih horder.2 hc fun c' hc' => hcalls c' (List.mem_cons_of_mem c hc')
    have hfirst := horder.1
    rw [forward]
    omega

theorem cap_after (b : RequestBudget) (calls : BudgetRun) (k : PoolKind) :
    ((b.after calls).pool k).cap = (b.pool k).cap := by
  induction calls generalizing b with
  | nil => rfl
  | cons c calls ih => exact (ih _).trans cap_step

theorem level_run (hb : b.Capped) (k : PoolKind) (calls : BudgetRun) :
    totalTaken k b calls * minuteMillis + ((b.after calls).pool k).level ≤
      totalRefunded k b calls * minuteMillis + (b.pool k).level +
        (b.pool k).cap * forward b.lastRefillMillis calls := by
  induction calls generalizing b with
  | nil => simp [totalTaken, totalRefunded, after]
  | cons c calls ih =>
    have hrun := ih (b := (b.step c.1 c.2).1) hb.step
    have hstep := level_step k b c.1 c.2
    have hrefill := level_refill_le (k := k) hb c.1
    rw [(frame_step b c.1 c.2).1, cap_step] at hrun
    have hafter : b.after (c :: calls) = (b.step c.1 c.2).1.after calls := rfl
    rw [totalTaken, totalRefunded, forward, hafter, add_mul, add_mul, mul_add]
    linarith only [hrun, hstep, hrefill]

theorem totals_refill (hb : b.Capped) {s : ℕ} (hs : b.lastRefillMillis ≤ s)
    (horder : InOrder s calls) :
    totalTaken k (b.refill s) calls = totalTaken k b calls ∧
      totalRefunded k (b.refill s) calls = totalRefunded k b calls := by
  cases calls with
  | nil => exact ⟨rfl, rfl⟩
  | cons c calls =>
    have hstep : (b.refill s).step c.1 c.2 = b.step c.1 c.2 := step_refill hb hs horder.1
    have hrefill := refill_refill hb hs horder.1
    simp only [totalTaken, totalRefunded, takenFrom, refundedTo, hstep, hrefill, and_self]

/-- A call that asks only, or a reservation that is refused. -/
def quiet (b : RequestBudget) (now : ℕ) (call : BudgetCall) : Bool :=
  match call, (b.step now call).2 with
  | .snapshot, _ => true
  | .reserve _ _ _, .refused _ => true
  | _, _ => false

theorem step_quiet {now : ℕ} {call : BudgetCall} (h : b.quiet now call = true) :
    (b.step now call).1 = b.refill now := by
  cases call with
  | snapshot => rfl
  | reserve jobId priority cost =>
    unfold quiet step reserve at h
    unfold step reserve
    dsimp only at h ⊢
    cases hparts : (b.refill now).grantParts now jobId priority cost with
    | error e => rfl
    | ok parts =>
      rw [hparts] at h
      cases h
  | commit lease actual => simp [quiet] at h
  | release lease => simp [quiet] at h
  | on429 lease => simp [quiet] at h

/-- The replies to the kept calls of a run in which other calls were inserted. -/
def keptReplies : RequestBudget → List (Bool × ℕ × BudgetCall) → List BudgetReply
  | _, [] => []
  | b, (kept, now, call) :: marked =>
    (if kept then [(b.step now call).2] else []) ++ keptReplies (b.step now call).1 marked

/-- The inserted calls are quiet when they are made. -/
def InsertedQuiet : RequestBudget → List (Bool × ℕ × BudgetCall) → Prop
  | _, [] => True
  | b, (kept, now, call) :: marked =>
    (kept = true ∨ b.quiet now call = true) ∧ InsertedQuiet (b.step now call).1 marked

def keptCalls (marked : List (Bool × ℕ × BudgetCall)) : BudgetRun :=
  marked.filterMap fun c => if c.1 then some c.2 else none

theorem keptReplies_eq {ahead : RequestBudget} {marked : List (Bool × ℕ × BudgetCall)}
    (hb : b.Capped) (hle : b.lastRefillMillis ≤ ahead.lastRefillMillis)
    (hahead : ahead = b.refill ahead.lastRefillMillis)
    (horder : InOrder ahead.lastRefillMillis (marked.map Prod.snd))
    (hquiet : InsertedQuiet ahead marked) :
    keptReplies ahead marked = replies b (keptCalls marked) := by
  induction marked generalizing b ahead with
  | nil => rfl
  | cons c marked ih =>
    obtain ⟨kept, now, call⟩ := c
    obtain ⟨hnow, horder⟩ := horder
    obtain ⟨hfirst, hquiet⟩ := hquiet
    have hlast := (frame_step ahead now call).1
    rw [keptReplies]
    cases kept with
    | true =>
      have hstep : ahead.step now call = b.step now call := by
        rw [hahead]
        exact step_refill hb hle hnow
      have htail := ih hb.step (show _ ≤ (ahead.step now call).1.lastRefillMillis by rw [hstep])
        (by rw [hstep]; exact refill_last.symm) (by rw [hlast]; exact horder)
        hquiet
      rw [htail]
      simp [keptCalls, replies, hstep]
    | false =>
      obtain hfirst | hfirst := hfirst
      · cases hfirst
      have hstep := step_quiet hfirst
      have htail := ih hb
        (show _ ≤ (ahead.step now call).1.lastRefillMillis by rw [hlast]; exact hle.trans hnow)
        (by rw [hlast, hstep, hahead]; exact refill_refill hb hle hnow)
        (by rw [hlast]; exact horder) hquiet
      rw [htail]
      simp [keptCalls]

/-- The circuit is open until a time, unless the clock has reached it. -/
def PausedUntil (u : ℕ) (b : RequestBudget) : Prop :=
  u ≤ b.lastRefillMillis ∨ ∃ v ∈ b.circuitOpenUntilMillis, u ≤ v

/-- A refusal of the exchange does not end the pause in force earlier. -/
def keepsPause (b : RequestBudget) (now : ℕ) (call : BudgetCall) : Bool :=
  match (b.step now call).2 with
  | .openUntil u => b.circuitOpenUntilMillis.all fun v => now < v → v ≤ u
  | _ => true

variable {u cost : ℕ} {lease : BudgetLease} {jobId : String} {priority : SchedulePriority}

theorem PausedUntil.step (h : b.PausedUntil u) (hlast : b.lastRefillMillis ≤ now)
    (hkeeps : b.keepsPause now call = true) : (b.step now call).1.PausedUntil u := by
  obtain ⟨hmillis, hcircuit⟩ := frame_step b now call
  rcases le_or_gt u now with hu | hnow
  · exact .inl (hmillis.symm ▸ hu)
  obtain hpast | ⟨v, hv, huv⟩ := h
  · omega
  have hopen := hnow.trans_le huv
  obtain ⟨w, hreply, hw⟩ | ⟨-, hsame⟩ := hcircuit
  · rw [keepsPause, hreply, hv] at hkeeps
    exact .inr ⟨w, hw, huv.trans (of_decide_eq_true hkeeps hopen)⟩
  · exact .inr ⟨v, hsame ▸ mem_circuit_refill hlast hv hopen, huv⟩

variable {egressId : String} {ceiling : UInt32} {envelopePercent priorityReservePercent : UInt8}
  {start : ℕ} {seed : UInt64}

theorem tryNew_eq_ok
    (h : tryNew egressId ceiling envelopePercent priorityReservePercent start seed = .ok b) :
    b.Capped ∧ b.lastRefillMillis = start ∧
      (b.pool .priority).cap + (b.pool .general).cap = b.envelope ∧
      ∀ k, (b.pool k).level = (b.pool k).cap * minuteMillis := by
  obtain ⟨-, h⟩ := Except.of_check h
  obtain ⟨-, h⟩ := Except.of_check h
  obtain ⟨henvelope, h⟩ := Except.of_check h
  obtain ⟨hpriority, h⟩ := Except.of_check h
  obtain rfl := Except.ok.inj h
  simp only [not_or, not_lt, not_le] at henvelope hpriority
  refine ⟨fun k => ?_, rfl, Nat.add_sub_cancel' hpriority.2.2.le, fun k => ?_⟩ <;> cases k
  · exact hpriority.1
  · exact (Nat.sub_le _ _).trans henvelope.1
  · exact Nat.add_zero _
  · exact Nat.add_zero _

theorem lastRefillMillis_after_le {calls : BudgetRun} {s : ℕ}
    (horder : InOrder b.lastRefillMillis calls) (hcalls : ∀ c ∈ calls, c.1 ≤ s)
    (hb : b.lastRefillMillis ≤ s) : (b.after calls).lastRefillMillis ≤ s := by
  induction calls generalizing b with
  | nil => exact hb
  | cons c calls ih =>
    have hlast := (frame_step b c.1 c.2).1
    exact ih (hlast.symm ▸ horder.2) (fun c' hc' => hcalls c' (List.mem_cons_of_mem c hc'))
      (hlast.symm ▸ hcalls c List.mem_cons_self)

/-- The budget is a pair of token buckets, behind any calls whose times do not decrease. -/
theorem budget_is_token_bucket
    (h : tryNew egressId ceiling envelopePercent priorityReservePercent start seed = .ok b)
    {calls : BudgetRun} (horder : InOrder start calls) :
    (∀ k, ((b.after calls).pool k).available ≤ (b.pool k).cap ∧
      ((b.after calls).pool k).cap = (b.pool k).cap) ∧
    (∀ k s t part, start ≤ s → (∀ c ∈ calls, c.1 ≤ s) → s ≤ t → InOrder s part →
      (∀ c ∈ part, c.1 ≤ t) →
      totalTaken k (b.after calls) part ≤ totalRefunded k (b.after calls) part +
        (((b.after calls).refill s).pool k).available +
        ((b.pool k).cap * (t - s) + (((b.after calls).refill s).pool k).remainder) / 60000) ∧
    (∀ now call, call.isProtected = false → takenFrom .priority (b.after calls) now call = 0) ∧
    (∀ k now call lease, ((b.after calls).step now call).2 = .granted lease →
      takenFrom k (b.after calls) now call = lease.fromPool k) ∧
    (∀ k now call, refundedTo k (b.after calls) now call ≤
      call.returned.elim 0 (·.fromPool k)) ∧
    (∀ marked, InOrder (b.after calls).lastRefillMillis (marked.map Prod.snd) →
      InsertedQuiet (b.after calls) marked →
      keptReplies (b.after calls) marked = replies (b.after calls) (keptCalls marked)) := by
  obtain ⟨hcapped, hstart, -⟩ := tryNew_eq_ok h
  have hafter : (b.after calls).Capped := fun k => by
    rw [cap_after]
    exact hcapped k
  refine ⟨fun k => ⟨?_, cap_after b calls k⟩, ?_, fun _ _ => taken_priority_eq_zero,
    fun _ _ _ _ => taken_granted, fun _ _ _ => refunded_le, ?_⟩
  · rw [← cap_after b calls k]
    exact ((b.after calls).pool k).available_le
  · intro k s t part hs hcalls hst hpart ht
    have hlast := lastRefillMillis_after_le (hstart ▸ horder) hcalls (hstart ▸ hs)
    have hlevel := level_run (hafter.refill s) k part
    obtain ⟨htaken, hrefunded⟩ := totals_refill (k := k) hafter hlast hpart
    have hforward := Nat.mul_le_mul_left (b.pool k).cap (forward_le hpart hst ht)
    rw [htaken, hrefunded, lastRefillMillis_refill, cap_pool_refill, level,
      level, cap_after] at hlevel
    simp only [minuteMillis] at hlevel
    omega
  · intro marked hmarked hquiet
    exact keptReplies_eq hafter le_rfl refill_last.symm hmarked hquiet

/-- A reservation and its commit on a budget of a thousand two hundred a minute. -/
theorem budget_is_token_bucket_sample :
    ∃ b, tryNew "egress" 1200 75 40 0 7 = .ok b ∧
      InOrder 0 [(10, .reserve "job" .p2 20), (30, .snapshot)] ∧
      ((b.after [(10, .reserve "job" .p2 20), (30, .snapshot)]).pool .general).available ≤
        (b.pool .general).cap := by
  obtain ⟨b, hb, -⟩ : ∃ b, tryNew "egress" 1200 75 40 0 7 = .ok b ∧ True := by decide +kernel
  have horder : InOrder 0 [(10, .reserve "job" .p2 20), (30, .snapshot)] := by
    simp [InOrder]
  exact ⟨b, hb, horder, ((budget_is_token_bucket hb horder).1 .general).1⟩

/-- What a run takes and does not give back is within the envelope and what it gains in a time, if
the clock goes forward by no more than that time in all. A clock that never goes back does not. -/
theorem taken_le_envelope
    (h : tryNew egressId ceiling envelopePercent priorityReservePercent start seed = .ok b)
    (calls : BudgetRun) {s t : ℕ} (hs : s ≤ start) (ht : start ≤ t)
    (hcalls : ∀ c ∈ calls, s ≤ c.1 ∧ c.1 ≤ t) :
    (forward start calls ≤ t - s →
      (totalTaken .priority b calls + totalTaken .general b calls) * 60000 ≤
        (totalRefunded .priority b calls + totalRefunded .general b calls) * 60000 +
          b.envelope * 60000 + b.envelope * (t - s)) ∧
    (InOrder start calls → forward start calls ≤ t - s) := by
  obtain ⟨hcapped, hstart, hsum, hfull⟩ := tryNew_eq_ok h
  constructor
  · intro hforward
    have hpriority := level_run hcapped .priority calls
    have hgeneral := level_run hcapped .general calls
    have htime := Nat.mul_le_mul_left b.envelope hforward
    rw [hfull, hstart] at hpriority hgeneral
    rw [← hsum] at htime ⊢
    linarith only [hpriority, hgeneral, htime, Nat.zero_le ((b.after calls).pool .priority).level,
      Nat.zero_le ((b.after calls).pool .general).level]
  · intro horder
    exact (forward_le horder ht fun c hc => (hcalls c hc).2).trans (Nat.sub_le_sub_left hs t)

theorem taken_le_envelope_sample :
    ∃ b, tryNew "egress" 1200 75 40 0 7 = .ok b ∧ forward 0 [(10, .reserve "job" .p2 20)] ≤ 10 - 0 ∧
      (totalTaken .priority b [(10, .reserve "job" .p2 20)] +
        totalTaken .general b [(10, .reserve "job" .p2 20)]) * 60000 ≤
      (totalRefunded .priority b [(10, .reserve "job" .p2 20)] +
        totalRefunded .general b [(10, .reserve "job" .p2 20)]) * 60000 + b.envelope * 60000 +
          b.envelope * (10 - 0) := by
  obtain ⟨b, hb, -⟩ : ∃ b, tryNew "egress" 1200 75 40 0 7 = .ok b ∧ True := by decide +kernel
  exact ⟨b, hb, by decide, (taken_le_envelope hb _ le_rfl (Nat.zero_le _) (by simp)).1 (by decide)⟩

/-- A clock that goes back a minute lets the pools fill up a second time: the envelope of 900 is
taken three times in a minute. -/
theorem minted_by_clock :
    ∃ b, tryNew "egress" 1200 75 40 0 7 = .ok b ∧
      let calls := [(0, .reserve "job" .p0 900), (60000, .reserve "job" .p0 900), (0, .snapshot),
        (60000, .reserve "job" .p0 900)]
      b.envelope = 900 ∧ totalTaken .priority b calls + totalTaken .general b calls = 3 * 900 ∧
      totalRefunded .priority b calls + totalRefunded .general b calls = 0 := by
  decide +kernel

end RequestBudget

end AlphaDesk
