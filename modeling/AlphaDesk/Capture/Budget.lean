import AlphaDesk.Domain.Ids
import AlphaDesk.Foundation.Fallible
import AlphaDesk.Foundation.TokenBucket

/-! # The request budget

Requests to an exchange spend a weight per minute from two pools. Protected requests use
the priority pool first, the others only the general one. A lease returns what was not
used, and a refusal of the exchange empties the pools and opens the circuit for a while.
The pools are token buckets, refilled at the start of every call.
-/

namespace AlphaDesk

inductive SchedulePriority
  | p0
  | p1
  | p2
  | p3
  | p4
  | p5
  deriving DecidableEq

def SchedulePriority.isProtected : SchedulePriority → Bool
  | p0 | p1 => true
  | p2 | p3 | p4 | p5 => false

inductive BudgetError
  | invalidConfig
  | insufficient
  | circuitOpen
  | leaseMismatch
  | invalidLease
  deriving DecidableEq

inductive PoolKind
  | priority
  | general

structure BudgetLease where
  egressId : String
  jobId : String
  reserved : ℕ
  fromPriority : ℕ
  fromGeneral : ℕ
  isProtected : Bool
  deriving DecidableEq

def BudgetLease.fromPool (lease : BudgetLease) : PoolKind → ℕ
  | .priority => lease.fromPriority
  | .general => lease.fromGeneral

structure EgressBudgetSnapshot where
  egressId : String
  ceilingWeightPerMinute : ℕ
  envelopeWeightPerMinute : ℕ
  availablePriority : ℕ
  availableGeneral : ℕ
  circuitOpenUntilMillis : Option ℕ
  http429Count : ℕ
  requestsOk : ℕ
  deriving DecidableEq

/-- The milliseconds of a minute, in which a pool gains its cap. -/
abbrev minuteMillis : ℕ := 60000

structure RequestBudget where
  egressId : String
  ceiling : ℕ
  envelope : ℕ
  priority : TokenBucket minuteMillis
  general : TokenBucket minuteMillis
  lastRefillMillis : ℕ
  circuitOpenUntilMillis : Option ℕ
  consecutive429 : ℕ
  http429Count : ℕ
  requestsOk : ℕ
  seed : UInt64

def u32Max : ℕ := 2 ^ 32 - 1

def u64Max : ℕ := 2 ^ 64 - 1

def fullPool (cap : ℕ) : TokenBucket minuteMillis := ⟨cap, cap, 0, le_rfl, by decide⟩

/-- The content and the remainder of a pool after some time, with sums and products that stop at
the largest integer of their width. -/
def refillPool (available cap elapsedMillis remainder : ℕ) : ℕ × ℕ :=
  if cap = 0 then (0, 0)
  else if cap ≤ available then (cap, 0)
  else
    let credit := min u64Max (min u64Max (cap * elapsedMillis) + remainder)
    let add := if credit / 60000 ≤ u32Max then credit / 60000 else u32Max
    let next := min cap (min u32Max (available + add))
    (next, if cap ≤ next then 0 else credit % 60000)

theorem refillPool_bounds (pool : TokenBucket minuteMillis) (elapsed : ℕ) :
    (refillPool pool.available pool.cap elapsed pool.remainder).1 ≤ pool.cap ∧
      (refillPool pool.available pool.cap elapsed pool.remainder).2 < minuteMillis := by
  have hpos : 0 < minuteMillis := pool.period_pos
  fun_cases refillPool pool.available pool.cap elapsed pool.remainder with
  | case1 => exact ⟨Nat.zero_le _, hpos⟩
  | case2 => exact ⟨le_rfl, hpos⟩
  | case3 =>
    refine ⟨min_le_left _ _, ?_⟩
    split
    · exact hpos
    · exact Nat.mod_lt _ hpos

namespace RequestBudget

def tryNew (egressId : String) (ceiling : UInt32) (envelopePercent priorityReservePercent : UInt8)
    (nowMillis : ℕ) (seed : UInt64) : Except BudgetError RequestBudget :=
  if egressId.isEmpty ∨ trim egressId ≠ egressId then .error .invalidConfig
  else if ceiling = 0 ∨ ¬(70 ≤ envelopePercent ∧ envelopePercent ≤ 80) ∨
      ¬(1 ≤ priorityReservePercent ∧ priorityReservePercent ≤ 90) then .error .invalidConfig
  else
    let envelope := ceiling.toNat * envelopePercent.toNat / 100
    if u32Max < envelope ∨ envelope = 0 then .error .invalidConfig
    else
      let priorityCap := envelope * priorityReservePercent.toNat / 100
      if u32Max < priorityCap ∨ priorityCap = 0 ∨ envelope ≤ priorityCap then
        .error .invalidConfig
      else .ok ⟨egressId, ceiling.toNat, envelope, fullPool priorityCap,
        fullPool (envelope - priorityCap), nowMillis, none, 0, 0, 0, seed⟩

variable (b : RequestBudget)

def pool : PoolKind → TokenBucket minuteMillis
  | .priority => b.priority
  | .general => b.general

def refilledPool (pool : TokenBucket minuteMillis) (elapsedMillis : ℕ) :
    TokenBucket minuteMillis where
  cap := pool.cap
  available := (refillPool pool.available pool.cap elapsedMillis pool.remainder).1
  remainder := (refillPool pool.available pool.cap elapsedMillis pool.remainder).2
  available_le := (refillPool_bounds pool elapsedMillis).1
  remainder_lt := (refillPool_bounds pool elapsedMillis).2

/-- The pools gain what the time since the last call is worth. A clock that went back costs them
their remainders. -/
def refill (nowMillis : ℕ) : RequestBudget :=
  if nowMillis < b.lastRefillMillis then
    { b with
      lastRefillMillis := nowMillis
      priority := b.priority.dropRemainder
      general := b.general.dropRemainder }
  else
    let elapsed := nowMillis - b.lastRefillMillis
    if elapsed = 0 then b
    else
      { b with
        priority := refilledPool b.priority elapsed
        general := refilledPool b.general elapsed
        lastRefillMillis := nowMillis
        circuitOpenUntilMillis := b.circuitOpenUntilMillis.filter (nowMillis < ·) }

def ensureCircuit (nowMillis : ℕ) : Except BudgetError Unit :=
  if b.circuitOpenUntilMillis.any (nowMillis < ·) then .error .circuitOpen else .ok ()

/-- The parts of a weight that the two pools can give. -/
def split (isProtected : Bool) (weight : ℕ) : Except BudgetError (ℕ × ℕ) :=
  if isProtected then
    let fromPriority := min weight b.priority.available
    let fromGeneral := weight - fromPriority
    if b.general.available < fromGeneral then .error .insufficient
    else .ok (fromPriority, fromGeneral)
  else if b.general.available < weight then .error .insufficient
  else .ok (0, weight)

def take (fromPriority fromGeneral : ℕ) : RequestBudget :=
  { b with priority := b.priority.take fromPriority, general := b.general.take fromGeneral }

/-- Give an amount of a lease back, first what was taken from the general pool. -/
def refund (fromPriority fromGeneral amount : ℕ) : RequestBudget :=
  if amount = 0 then b
  else
    let toGeneral := min amount fromGeneral
    let toPriority := min (amount - toGeneral) fromPriority
    { b with general := b.general.refund toGeneral, priority := b.priority.refund toPriority }

def chargeExtra (isProtected : Bool) (extra : ℕ) : Except BudgetError RequestBudget :=
  if extra = 0 then .ok b
  else do
    let (fromPriority, fromGeneral) ← b.split isProtected extra
    return b.take fromPriority fromGeneral

def backoffMillis (attempt : ℕ) : ℕ :=
  let factor := 2 ^ min attempt 5
  let base := min u64Max (1000 * factor)
  let jitter := (b.seed + UInt64.ofNat attempt) * 0x9E3779B97F4A7C15
  min u64Max (base + jitter.toNat % (base / 4 + 1))

/-- The parts of a grant, behind its checks. -/
def grantParts (nowMillis : ℕ) (jobId : String) (priority : SchedulePriority) (cost : ℕ) :
    Except BudgetError (ℕ × ℕ) := do
  b.ensureCircuit nowMillis
  if cost = 0 ∨ jobId.isEmpty then throw .invalidLease
  else b.split priority.isProtected cost

def succeed : RequestBudget :=
  { b with consecutive429 := 0, requestsOk := min u64Max (b.requestsOk + 1) }

end RequestBudget

inductive BudgetCall
  | reserve (jobId : String) (priority : SchedulePriority) (cost : ℕ)
  | commit (lease : BudgetLease) (actual : ℕ)
  | release (lease : BudgetLease)
  | on429 (lease : BudgetLease)
  | snapshot
  deriving DecidableEq

inductive BudgetReply
  | granted (lease : BudgetLease)
  | done
  | openUntil (millis : ℕ)
  | report (snapshot : EgressBudgetSnapshot)
  | refused (error : BudgetError)
  deriving DecidableEq

namespace RequestBudget

variable (b : RequestBudget) (nowMillis : ℕ)

def snapshot : RequestBudget × BudgetReply :=
  let b := b.refill nowMillis
  (b, .report ⟨b.egressId, b.ceiling, b.envelope, b.priority.available, b.general.available,
    b.circuitOpenUntilMillis, b.http429Count, b.requestsOk⟩)

def reserve (jobId : String) (priority : SchedulePriority) (cost : ℕ) :
    RequestBudget × BudgetReply :=
  let b := b.refill nowMillis
  match b.grantParts nowMillis jobId priority cost with
  | .error e => (b, .refused e)
  | .ok (fromPriority, fromGeneral) =>
    (b.take fromPriority fromGeneral, .granted ⟨b.egressId, jobId, cost, fromPriority, fromGeneral,
      priority.isProtected⟩)

def commit (lease : BudgetLease) (actual : ℕ) : RequestBudget × BudgetReply :=
  let b := b.refill nowMillis
  if lease.egressId ≠ b.egressId then (b, .refused .leaseMismatch)
  else if actual ≤ lease.reserved then
    ((b.refund lease.fromPriority lease.fromGeneral (lease.reserved - actual)).succeed, .done)
  else
    match b.chargeExtra lease.isProtected (actual - lease.reserved) with
    | .error e => (b, .refused e)
    | .ok b => (b.succeed, .done)

def release (lease : BudgetLease) : RequestBudget × BudgetReply :=
  let b := b.refill nowMillis
  if lease.egressId ≠ b.egressId then (b, .refused .leaseMismatch)
  else (b.refund lease.fromPriority lease.fromGeneral lease.reserved, .done)

def on429 (lease : BudgetLease) : RequestBudget × BudgetReply :=
  let b := b.refill nowMillis
  if lease.egressId ≠ b.egressId then (b, .refused .leaseMismatch)
  else
    let attempt := min u32Max (b.consecutive429 + 1)
    let until_ := min u64Max (nowMillis + b.backoffMillis attempt)
    ({ b with
        http429Count := min u64Max (b.http429Count + 1)
        consecutive429 := attempt
        priority := b.priority.drain
        general := b.general.drain
        circuitOpenUntilMillis := some until_ }, .openUntil until_)

def step (call : BudgetCall) : RequestBudget × BudgetReply :=
  match call with
  | .reserve jobId priority cost => b.reserve nowMillis jobId priority cost
  | .commit lease actual => b.commit nowMillis lease actual
  | .release lease => b.release nowMillis lease
  | .on429 lease => b.on429 nowMillis lease
  | .snapshot => b.snapshot nowMillis

variable {b : RequestBudget} {k : PoolKind}

/-- A pool of a 32-bit cap is filled long before its credit leaves the 64 bits. -/
theorem refilledPool_eq {pool : TokenBucket minuteMillis} (hcap : pool.cap ≤ u32Max) {elapsed : ℕ}
    (helapsed : elapsed ≠ 0) : refilledPool pool elapsed = pool.refill elapsed := by
  have hparts : refillPool pool.available pool.cap elapsed pool.remainder =
      ((pool.refill elapsed).available, (pool.refill elapsed).remainder) := by
    unfold refillPool
    by_cases hfull : pool.cap ≤ pool.available
    · obtain ⟨ha, hr⟩ := pool.refill_full helapsed hfull
      rw [ha, hr, if_pos hfull]
      split
      next h0 => rw [h0]
      next => rfl
    · rw [if_neg (by omega), if_neg hfull]
      simp only [TokenBucket.refill, helapsed, hfull, or_self, false_or, if_false, minuteMillis]
      generalize pool.cap * elapsed = product
      rw [Prod.mk.injEq]
      -- the credit is exact, or large enough to fill the pool
      rcases le_or_gt (product + pool.remainder) u64Max with hsmall | hlarge
      · rw [min_eq_right (le_self_add.trans hsmall), min_eq_right hsmall]
        generalize (product + pool.remainder) / 60000 = add
        generalize (product + pool.remainder) % 60000 = rest
        generalize u32Max = largest at hcap
        split_ifs <;> omega
      · have hcredit : u64Max ≤ min u64Max product + pool.remainder := by
          rcases le_total u64Max product with h | h
          · rw [min_eq_left h]
            exact le_self_add
          · rw [min_eq_right h]
            exact hlarge.le
        have hbig : u32Max < u64Max / 60000 := by decide
        have hbig' : u32Max < (product + pool.remainder) / 60000 :=
          hbig.trans_le (Nat.div_le_div_right hlarge.le)
        rw [min_eq_left hcredit, if_neg hbig.not_ge]
        generalize (product + pool.remainder) / 60000 = add at hbig'
        generalize u32Max = largest at hcap hbig'
        rw [if_pos (by omega), if_pos (by omega)]
        omega
  ext
  · rfl
  · exact congrArg Prod.fst hparts
  · exact congrArg Prod.snd hparts

def Capped (b : RequestBudget) : Prop := ∀ k, (b.pool k).cap ≤ u32Max

@[simp] theorem lastRefillMillis_refill (now : ℕ) : (b.refill now).lastRefillMillis = now := by
  fun_cases refill b now with
  | case1 | case3 => rfl
  | case2 => omega

@[simp] theorem cap_pool_refill (now : ℕ) :
    ((b.refill now).pool k).cap = (b.pool k).cap := by
  unfold refill
  cases k <;> dsimp only <;> split_ifs <;> rfl

theorem Capped.refill (h : b.Capped) (now : ℕ) : (b.refill now).Capped := fun k => by
  rw [cap_pool_refill]
  exact h k

theorem pool_refill (hb : b.Capped) {now : ℕ} (hnow : b.lastRefillMillis ≤ now) :
    (b.refill now).pool k = (b.pool k).refill (now - b.lastRefillMillis) := by
  unfold refill
  rw [if_neg hnow.not_gt]
  dsimp only
  split
  next h => rw [h, TokenBucket.refill_zero]
  next h =>
    cases k with
    | priority => exact refilledPool_eq (hb .priority) h
    | general => exact refilledPool_eq (hb .general) h

/-- A clock that goes back gives a pool nothing. -/
theorem level_refill_le (hb : b.Capped) (now : ℕ) : ((b.refill now).pool k).level ≤
    (b.pool k).level + (b.pool k).cap * (now - b.lastRefillMillis) := by
  rcases le_or_gt b.lastRefillMillis now with hnow | hnow
  · rw [pool_refill hb hnow]
    exact TokenBucket.level_refill_le _ _
  · have hpool : (b.refill now).pool k = (b.pool k).dropRemainder := by
      rw [refill, if_pos hnow]
      cases k <;> rfl
    rw [hpool]
    dsimp only [TokenBucket.level, TokenBucket.dropRemainder]
    omega

theorem refill_of_lt {now : ℕ} (h : b.lastRefillMillis < now) : b.refill now =
    { b with
      priority := refilledPool b.priority (now - b.lastRefillMillis)
      general := refilledPool b.general (now - b.lastRefillMillis)
      lastRefillMillis := now
      circuitOpenUntilMillis := b.circuitOpenUntilMillis.filter (now < ·) } := by
  rw [refill, if_neg h.not_gt]
  exact if_neg (by omega)

theorem refill_last : b.refill b.lastRefillMillis = b := by
  simp [refill]

theorem mem_circuit_refill {now v : ℕ} (hlast : b.lastRefillMillis ≤ now)
    (hv : v ∈ b.circuitOpenUntilMillis) (hnow : now < v) :
    v ∈ (b.refill now).circuitOpenUntilMillis := by
  rcases hlast.eq_or_lt with rfl | hlt
  · rwa [refill_last]
  · rw [refill_of_lt hlt]
    exact Option.mem_filter_iff.mpr ⟨hv, decide_eq_true hnow⟩

theorem refill_refill (hb : b.Capped) {τ now : ℕ} (hτ : b.lastRefillMillis ≤ τ) (hnow : τ ≤ now) :
    (b.refill τ).refill now = b.refill now := by
  rcases eq_or_lt_of_le hτ with rfl | hlt
  · rw [refill_last]
  rcases eq_or_lt_of_le hnow with rfl | hlt'
  · simpa using (b.refill τ).refill_last
  have hsum : now - b.lastRefillMillis = (τ - b.lastRefillMillis) + (now - τ) := by omega
  have hpool : ∀ pool : TokenBucket minuteMillis, pool.cap ≤ u32Max →
      refilledPool (refilledPool pool (τ - b.lastRefillMillis)) (now - τ) =
        refilledPool pool (now - b.lastRefillMillis) := by
    intro pool hcap
    rw [refilledPool_eq (show (refilledPool pool _).cap ≤ u32Max from hcap) (by omega),
      refilledPool_eq hcap (by omega), refilledPool_eq hcap (by omega),
      TokenBucket.refill_refill, ← hsum]
  have hcircuit : (b.circuitOpenUntilMillis.filter (τ < ·)).filter (now < ·) =
      b.circuitOpenUntilMillis.filter (now < ·) := by
    rw [Option.filter_filter]
    congr 1
    funext u
    rw [← Bool.decide_and, decide_eq_decide]
    omega
  have hsecond := refill_of_lt (show (b.refill τ).lastRefillMillis < now by simpa using hlt')
  rw [hsecond, refill_of_lt (hlt.trans hlt'), refill_of_lt hlt]
  rw [hpool b.priority (hb .priority), hpool b.general (hb .general), hcircuit]

end RequestBudget

namespace BudgetCall

def isProtected : BudgetCall → Bool
  | reserve _ priority _ => priority.isProtected
  | commit lease _ | release lease | on429 lease => lease.isProtected
  | snapshot => false

def returned : BudgetCall → Option BudgetLease
  | commit lease _ | release lease => some lease
  | reserve _ _ _ | on429 _ | snapshot => none

def is429 : BudgetCall → Bool
  | on429 _ => true
  | reserve _ _ _ | commit _ _ | release _ | snapshot => false

end BudgetCall

namespace RequestBudget

/-- What a call does to the pools behind their refill. -/
inductive Moves (call : BudgetCall) (reply : BudgetReply) (r a : RequestBudget) : Prop
  | none (h : a.pool = r.pool) (hreply : ∀ lease, reply ≠ .granted lease)
  | take (weights : PoolKind → ℕ) (h : ∀ k, a.pool k = (r.pool k).take (weights k))
    (hle : ∀ k, weights k ≤ (r.pool k).available)
    (hunprotected : call.isProtected = false → weights .priority = 0)
    (hgrant : ∀ lease, reply = .granted lease → weights = lease.fromPool)
    (hcall : call.is429 = false)
  | refund (lease : BudgetLease) (weights : PoolKind → ℕ)
    (h : ∀ k, a.pool k = (r.pool k).refund (weights k)) (hcall : call.returned = some lease)
    (hle : ∀ k, weights k ≤ lease.fromPool k) (hreply : ∀ lease, reply ≠ .granted lease)
  | drain (h : ∀ k, a.pool k = (r.pool k).drain) (hcall : call.is429 = true)
    (hreply : ∀ lease, reply ≠ .granted lease)

variable {b : RequestBudget} {now : ℕ} {isProtected : Bool} {weight : ℕ} {parts : ℕ × ℕ}

theorem split_eq_ok (h : b.split isProtected weight = .ok parts) :
    parts.1 ≤ b.priority.available ∧ parts.2 ≤ b.general.available ∧
      (isProtected = false → parts.1 = 0) := by
  unfold split at h
  split at h
  next hp =>
    obtain ⟨hle, h⟩ := Except.of_check h
    obtain rfl := Except.ok.inj h
    exact ⟨min_le_right _ _, not_lt.mp hle, by simp [hp]⟩
  next hp =>
    obtain ⟨hle, h⟩ := Except.of_check h
    obtain rfl := Except.ok.inj h
    exact ⟨Nat.zero_le _, not_lt.mp hle, fun _ => rfl⟩

def partOf (parts : ℕ × ℕ) : PoolKind → ℕ
  | .priority => parts.1
  | .general => parts.2

theorem partOf_le (h : b.split isProtected weight = .ok parts) (k : PoolKind) :
    partOf parts k ≤ (b.pool k).available := by
  obtain ⟨hp, hg, -⟩ := split_eq_ok h
  cases k
  · exact hp
  · exact hg

theorem pool_take (b : RequestBudget) (parts : ℕ × ℕ) (k : PoolKind) :
    (b.take parts.1 parts.2).pool k = (b.pool k).take (partOf parts k) := by
  cases k <;> rfl

/-- A lease gives back to a pool no more than it took from it. -/
theorem exists_refund (b : RequestBudget) (lease : BudgetLease) (amount : ℕ) :
    ∃ weights : PoolKind → ℕ, (∀ k, weights k ≤ lease.fromPool k) ∧
      ∀ k, (b.refund lease.fromPriority lease.fromGeneral amount).pool k =
        (b.pool k).refund (weights k) := by
  by_cases hzero : amount = 0
  · refine ⟨fun _ => 0, fun _ => Nat.zero_le _, fun k => ?_⟩
    rw [RequestBudget.refund, if_pos hzero]
    ext
    · rfl
    · exact (min_eq_right (b.pool k).available_le).symm
    · rfl
  · refine ⟨partOf (min (amount - min amount lease.fromGeneral) lease.fromPriority,
      min amount lease.fromGeneral), fun k => ?_, fun k => ?_⟩
    · cases k
      · exact min_le_right _ _
      · exact min_le_right _ _
    · rw [RequestBudget.refund, if_neg hzero]
      cases k <;> rfl

theorem moves_reserve (jobId : String) (priority : SchedulePriority) (cost : ℕ) :
    Moves (.reserve jobId priority cost) (b.reserve now jobId priority cost).2 (b.refill now)
      (b.reserve now jobId priority cost).1 := by
  unfold reserve
  dsimp only
  split
  next => exact .none rfl (by simp)
  next fromPriority fromGeneral hparts =>
    obtain ⟨⟨⟩, -, hparts⟩ := Except.of_bind hparts
    obtain ⟨-, hparts⟩ := Except.of_check hparts
    refine .take (partOf (fromPriority, fromGeneral)) (pool_take _ (fromPriority, fromGeneral))
      (partOf_le hparts) (split_eq_ok hparts).2.2 ?_ rfl
    rintro _ ⟨⟩
    funext k
    cases k <;> rfl

theorem moves_commit (lease : BudgetLease) (actual : ℕ) :
    Moves (.commit lease actual) (b.commit now lease actual).2 (b.refill now)
      (b.commit now lease actual).1 := by
  fun_cases commit b now lease actual with
  | case1 | case3 => exact .none rfl (by simp)
  | case2 =>
    obtain ⟨weights, hle, h⟩ := exists_refund (b.refill now) lease (lease.reserved - actual)
    exact .refund lease weights (fun k => by rw [← h k]; cases k <;> rfl) rfl hle (by simp)
  | case4 refilled _ hmore charged hcharged =>
    rw [chargeExtra, if_neg (by omega)] at hcharged
    obtain ⟨parts, hparts, hcharged⟩ := Except.of_bind hcharged
    obtain rfl := Except.ok.inj hcharged
    refine .take (partOf parts) (fun k => ?_) (partOf_le hparts) (split_eq_ok hparts).2.2
      (by simp) rfl
    cases k <;> rfl

theorem moves_step (b : RequestBudget) (now : ℕ) (call : BudgetCall) :
    Moves call (b.step now call).2 (b.refill now) (b.step now call).1 := by
  cases call with
  | reserve jobId priority cost => exact moves_reserve jobId priority cost
  | commit lease actual => exact moves_commit lease actual
  | release lease =>
    unfold step release
    dsimp only
    split
    · exact .none rfl (by simp)
    · obtain ⟨weights, hle, h⟩ := exists_refund (b.refill now) lease lease.reserved
      exact .refund lease weights h rfl hle (by simp)
  | on429 lease =>
    unfold step on429
    dsimp only
    split
    · exact .none rfl (by simp)
    · exact .drain (fun k => by cases k <;> rfl) rfl (by simp)
  | snapshot => exact .none rfl (by simp [step, snapshot])

/-- Every call moves the time of the last refill, and only a refusal of the exchange opens the
circuit. -/
theorem frame_step (b : RequestBudget) (now : ℕ) (call : BudgetCall) :
    (b.step now call).1.lastRefillMillis = now ∧
      ((∃ u, (b.step now call).2 = .openUntil u ∧
        (b.step now call).1.circuitOpenUntilMillis = some u) ∨
      (∀ u, (b.step now call).2 ≠ .openUntil u) ∧
        (b.step now call).1.circuitOpenUntilMillis = (b.refill now).circuitOpenUntilMillis) := by
  have hlast := lastRefillMillis_refill (b := b) now
  have hrefund : ∀ p g n, ((b.refill now).refund p g n).lastRefillMillis = now ∧
      ((b.refill now).refund p g n).circuitOpenUntilMillis =
        (b.refill now).circuitOpenUntilMillis := by
    intro p g n
    unfold RequestBudget.refund
    split <;> exact ⟨hlast, rfl⟩
  cases call with
  | reserve jobId priority cost =>
    unfold step reserve
    dsimp only
    split <;> exact ⟨hlast, .inr ⟨nofun, rfl⟩⟩
  | commit lease actual =>
    unfold step commit
    dsimp only
    split_ifs
    · exact ⟨hlast, .inr ⟨nofun, rfl⟩⟩
    · obtain ⟨hmillis, hcircuit⟩ := hrefund lease.fromPriority lease.fromGeneral
        (lease.reserved - actual)
      exact ⟨hmillis, .inr ⟨nofun, hcircuit⟩⟩
    · split
      next => exact ⟨hlast, .inr ⟨nofun, rfl⟩⟩
      next charged hcharged =>
        rw [chargeExtra, if_neg (by omega)] at hcharged
        obtain ⟨parts, -, hcharged⟩ := Except.of_bind hcharged
        obtain rfl := Except.ok.inj hcharged
        exact ⟨hlast, .inr ⟨nofun, rfl⟩⟩
  | release lease =>
    unfold step release
    dsimp only
    split_ifs
    · exact ⟨hlast, .inr ⟨nofun, rfl⟩⟩
    · obtain ⟨hmillis, hcircuit⟩ := hrefund lease.fromPriority lease.fromGeneral lease.reserved
      exact ⟨hmillis, .inr ⟨nofun, hcircuit⟩⟩
  | on429 lease =>
    unfold step on429
    dsimp only
    split_ifs
    · exact ⟨hlast, .inr ⟨nofun, rfl⟩⟩
    · exact ⟨hlast, .inl ⟨_, rfl, rfl⟩⟩
  | snapshot => exact ⟨hlast, .inr ⟨nofun, rfl⟩⟩

end RequestBudget

end AlphaDesk
