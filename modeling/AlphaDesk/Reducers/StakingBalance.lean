import Mathlib.Algebra.BigOperators.Finprod
import AlphaDesk.Reducers.Relationships
import AlphaDesk.Reducers.Staking

/-! # What a staking event does

A staking event posts an amount to one side of the balances it names and leaves
every other balance alone. What leaves the liquid balance of an account is
credited to one of its delegations or to its pending withdrawals, and what comes
back from a delegation is credited to the liquid balance.
-/

namespace AlphaDesk

open Bytes Except Stored

variable (J : SerdeJson) (s : Entries) {O : Type} [StakingOwner O] (o : O)

def stakingRecord? : Option (StakingRecord O) :=
  (flowKey o).toOption.bind (get? (StakingRecord O) J s)

def stakingCredits : ℚ := (stakingRecord? J s o).elim 0 (·.credits.value)

def stakingDebits : ℚ := (stakingRecord? J s o).elim 0 (·.debits.value)

variable {J s o} {t : Entries} {k : StateKey} {r : StakingRecord O} {rs : List (StakingRecord O)}

theorem stakingRecord?_of_key (hk : flowKey o = .ok k) :
    stakingRecord? J s o = get? (StakingRecord O) J s k := by
  simp [stakingRecord?, hk, Except.toOption]

theorem stakingRecord?_of_mem (h : Updates (StakingRecord O) J s rs t) (hr : r ∈ rs) :
    stakingRecord? J t r.owner = some r := by
  obtain ⟨k, bytes, hk, -⟩ := h.written r hr
  rw [stakingRecord?_of_key hk]
  exact h.get?_of_mem hr hk

theorem stakingRecord?_of_forall_ne (h : Updates (StakingRecord O) J s rs t)
    (hne : ∀ r ∈ rs, r.owner ≠ o) : stakingRecord? J t o = stakingRecord? J s o := by
  cases hk : flowKey o with
  | error e => simp [stakingRecord?, hk, Except.toOption]
  | ok k =>
    rw [stakingRecord?_of_key hk, stakingRecord?_of_key hk]
    exact h.get?_of_forall_ne fun r hr hrk => hne r hr (flowKey_inj hrk hk)

variable {side : FlowSide} {amount : Quantity} {event : CanonicalEventEnvelope}
  {mayOpen : Except ReducerError Unit} {m : StateMutation} {ms : List StateMutation}

/-- A balance after an amount: the amount is added to one side, and the debits are covered. -/
structure PostedTo (J : SerdeJson) (s : Entries) (o : O) (side : FlowSide) (amount : ℚ)
    (r : StakingRecord O) : Prop where
  owner : r.owner = o
  credits : r.credits.value = stakingCredits J s o + sideAmount side .credit amount
  debits : r.debits.value = stakingDebits J s o + sideAmount side .debit amount
  covered : r.debits.value ≤ r.credits.value

theorem StakingRecord.value_apply {r r' : StakingRecord O}
    (h : r.apply event amount side = .ok r') :
    r'.owner = r.owner ∧
      r'.credits.value = r.credits.value + sideAmount side .credit amount.value ∧
      r'.debits.value = r.debits.value + sideAmount side .debit amount.value ∧
      r'.debits.value ≤ r'.credits.value := by
  cases side with
  | credit =>
    obtain ⟨credits, hc, h⟩ := of_bind h
    obtain ⟨hle, h⟩ := of_check h
    obtain rfl := ok.inj h
    simp only [Bool.not_eq_true', Bool.not_eq_false, Decimal.numLe_iff] at hle
    have := Decimal.value_checkedAdd (mapError_eq_ok.mp hc)
    exact ⟨rfl, by simp [sideAmount, this], by simp [sideAmount], hle⟩
  | debit =>
    obtain ⟨credits, hc, h⟩ := of_bind h
    obtain rfl := ok.inj hc
    obtain ⟨debits, hd, h⟩ := of_bind h
    obtain ⟨hle, h⟩ := of_check h
    obtain rfl := ok.inj h
    simp only [Bool.not_eq_true', Bool.not_eq_false, Decimal.numLe_iff] at hle
    have := Decimal.value_checkedAdd (mapError_eq_ok.mp hd)
    exact ⟨rfl, by simp [sideAmount], by simp [sideAmount, this], hle⟩

/-- An amount for one side of the balance of an owner, if there is one. -/
abbrev Posting (O : Type) := Option (O × FlowSide × ℚ)

inductive RecordsOf (J : SerdeJson) (s : Entries) : Posting O → List (StakingRecord O) → Prop
  | none : RecordsOf J s none []
  | some {o : O} {side : FlowSide} {x : ℚ} {r : StakingRecord O}
    (posted : PostedTo J s o side x r) : RecordsOf J s (some (o, side, x)) [r]

/-- Of one kind of owner, mutations put the records of a posting. -/
def PutsPosting (J : SerdeJson) (s : Entries) (p : Posting O) (ms : List StateMutation) : Prop :=
  ∃ rs, RecordsOf J s p rs ∧ Puts (StakingRecord O) J ms rs

theorem postedTo_of_stakingMutation
    (h : stakingMutation J s event o amount side mayOpen = .ok m) :
    ∃ k r bytes, keyOf r = .ok k ∧ encode J r = .ok bytes ∧ m = .put k bytes ∧
      PostedTo J s o side amount.value r := by
  obtain ⟨k, hk, h⟩ := of_bind h
  obtain ⟨existing, he, h⟩ := of_bind h
  have hk := mapError_eq_ok.mp hk
  have hg := get?_of_findRecord he
  have hrec := stakingRecord?_of_key (J := J) (s := s) hk
  obtain ⟨current, ⟨howner, hcredits, hdebits⟩, r, hr, h⟩ : ∃ current : StakingRecord O,
      (current.owner = o ∧ current.credits.value = stakingCredits J s o ∧
        current.debits.value = stakingDebits J s o) ∧
      ∃ r, current.apply event amount side = .ok r ∧
        putRecord J stakingCodecError k r = .ok m := by
    rw [stakingCredits, stakingDebits, hrec, hg]
    split at h
    next current =>
      exact ⟨current, ⟨flowKey_inj (keyOf_of_get? hg) hk, rfl, rfl⟩, of_bind h⟩
    next =>
      obtain ⟨_, -, h⟩ := of_bind h
      obtain ⟨current, hc, h⟩ := of_bind h
      obtain ⟨zero, hz, hc⟩ := of_bind hc
      obtain rfl := ok.inj hc
      have hzero : zero.value = 0 := by
        simpa using Decimal.value_checkedSub (mapError_eq_ok.mp hz)
      exact ⟨_, ⟨rfl, hzero, hzero⟩, of_bind h⟩
  obtain ⟨bytes, hb, rfl⟩ := putRecord_eq_ok.mp h
  obtain ⟨howner', hcredits', hdebits', hle⟩ := StakingRecord.value_apply hr
  rw [howner] at howner'
  exact ⟨k, r, bytes, (congrArg flowKey howner').trans hk, hb, rfl, howner', hcredits ▸ hcredits',
    hdebits ▸ hdebits', hle⟩

variable [DecidableEq O]

def postedAmount (p : Posting O) (side : FlowSide) (o : O) : ℚ :=
  p.elim 0 fun q => if o = q.1 then sideAmount q.2.1 side q.2.2 else 0

/-- The balances of a kind of owner before and after a posting. -/
structure Posted (J : SerdeJson) (s : Entries) (p : Posting O) (t : Entries) : Prop where
  credits : ∀ o, stakingCredits J t o = stakingCredits J s o + postedAmount p .credit o
  debits : ∀ o, stakingDebits J t o = stakingDebits J s o + postedAmount p .debit o
  covered : ∀ o : O, stakingDebits J s o ≤ stakingCredits J s o →
    stakingDebits J t o ≤ stakingCredits J t o
  held : ∀ o, (stakingRecord? J t o).isSome ↔
    (stakingRecord? J s o).isSome ∨ p.map Prod.fst = some o
  readable : Readable (StakingRecord O) J s → Readable (StakingRecord O) J t

theorem posted_of_updates {p : Posting O} (hp : RecordsOf J s p rs)
    (h : Updates (StakingRecord O) J s rs t) : Posted J s p t := by
  -- the balance of the owner is the record, and every other one stays
  have hcases : ∀ o, (∃ side x r, p = some (o, side, x) ∧ stakingRecord? J t o = some r ∧
        PostedTo J s o side x r) ∨
      p.map Prod.fst ≠ some o ∧ stakingRecord? J t o = stakingRecord? J s o := by
    intro o
    cases hp with
    | none => exact .inr ⟨by simp, stakingRecord?_of_forall_ne h (by simp)⟩
    | @some o' side x r hr =>
      by_cases ho : o' = o
      · subst ho
        have hself := stakingRecord?_of_mem h (List.mem_singleton_self r)
        exact .inl ⟨side, x, r, rfl, hr.owner ▸ hself, hr⟩
      · refine .inr ⟨by simpa using ho, stakingRecord?_of_forall_ne h ?_⟩
        simpa [hr.owner] using ho
  have hzero : ∀ {o side}, p.map Prod.fst ≠ some o → postedAmount p side o = 0 := by
    intro o side hne
    rcases p with _ | q
    · rfl
    · exact if_neg fun ho => hne (congrArg some ho.symm)
  refine ⟨fun o => ?_, fun o => ?_, fun o hle => ?_, fun o => ?_, h.readable⟩ <;>
    obtain ⟨side, x, r, rfl, ht, hr⟩ | ⟨hne, ht⟩ := hcases o
  · simp [stakingCredits, ht, hr.credits, postedAmount]
  · rw [hzero hne, stakingCredits, ht, add_zero, stakingCredits]
  · simp [stakingDebits, ht, hr.debits, postedAmount]
  · rw [hzero hne, stakingDebits, ht, add_zero, stakingDebits]
  · simpa [stakingDebits, stakingCredits, ht] using hr.covered
  · rwa [stakingDebits, stakingCredits, ht]
  · simp [ht]
  · simp [ht, hne]

inductive StakingMove
  | deposited (accountId : Address) (amount : ℚ)
  | delegated (accountId : Address) (validator : String) (amount : ℚ)
  | undelegated (accountId : Address) (validator : String) (amount : ℚ)
  | queued (accountId : Address) (amount : ℚ)
  | withdrawn (accountId : Address) (amount : ℚ)

def stakingMove : EventPayload → Option StakingMove
  | .stakingDeposit p =>
    (decodeStakingDepositAmount p).toOption.map fun d => .deposited d.accountId d.amount.value
  | .stakingDelegated p =>
    (decodeStakingDelegate p).toOption.map fun d =>
      .delegated d.accountId d.validator d.amount.value
  | .stakingUndelegated p =>
    (decodeStakingUndelegate p).toOption.map fun d =>
      .undelegated d.accountId d.validator d.amount.value
  | .stakingWithdrawalQueued p =>
    (decodeStakingWithdrawQueued p).toOption.map fun d => .queued d.accountId d.amount.value
  | .stakingWithdrawalCompleted p =>
    (decodeStakingWithdrawCompleted p).toOption.map fun d => .withdrawn d.accountId d.amount.value
  | _ => none

namespace StakingMove

def liquid : StakingMove → Posting StakingLiquid
  | deposited a x | undelegated a _ x => some (⟨a⟩, .credit, x)
  | delegated a _ x | queued a x => some (⟨a⟩, .debit, x)
  | withdrawn _ _ => none

def pending : StakingMove → Posting StakingPending
  | queued a x => some (⟨a⟩, .credit, x)
  | withdrawn a x => some (⟨a⟩, .debit, x)
  | _ => none

def delegation : StakingMove → Posting StakingDelegation
  | delegated a v x => some (⟨a, v⟩, .credit, x)
  | undelegated a v x => some (⟨a, v⟩, .debit, x)
  | _ => none

end StakingMove

/-- The balances before and after an event, which may be a move. -/
structure Posts (J : SerdeJson) (s : Entries) (move : Option StakingMove) (t : Entries) : Prop where
  liquid : Posted J s (move.bind StakingMove.liquid) t
  pending : Posted J s (move.bind StakingMove.pending) t
  delegations : Posted J s (move.bind StakingMove.delegation) t

def stakingNamespaces : List String :=
  ["staking-fact.v1", "staking-liquid-current.v1", "staking-pending-current.v1",
    "staking-delegation-current.v1"]

theorem stakingFact_eq_ok {factKey : StateKey} {a : Address} {v : Option String}
    (h : stakingFact J event factKey a v = .ok m) : ∃ bytes, m = .put factKey bytes := by
  obtain ⟨_, -, h⟩ := of_bind h
  obtain ⟨_, -, h⟩ := of_bind h
  obtain ⟨bytes, -, rfl⟩ := putRecord_eq_ok.mp h
  exact ⟨bytes, rfl⟩

theorem writes_of_reduceStaking (h : reduceStaking J s event = .ok ms) :
    PutsIn stakingNamespaces ms ∧ ∃ move, stakingMove event.payload = some move ∧
      PutsPosting J s move.liquid ms ∧ PutsPosting J s move.pending ms ∧
      PutsPosting J s move.delegation ms := by
  obtain ⟨-, h⟩ := of_check h
  obtain ⟨fk, hfk, h⟩ := of_bind h
  have hf : fk.ns = "staking-fact.v1" := (ns_framedKey (mapError_eq_ok.mp hfk)).1
  have hin : fk.ns ∈ stakingNamespaces := by
    rw [hf]
    decide
  have fact : ∀ {O : Type} [StakingOwner O] {rest : List StateMutation} {bytes : List UInt8}
      {rs : List (StakingRecord O)}, "staking-fact.v1" ≠ FlowOwner.ns O →
      Puts (StakingRecord O) J rest rs → Puts (StakingRecord O) J (.put fk bytes :: rest) rs :=
    fun hne => .other (by rwa [StateMutation.key, hf])
  obtain ⟨_, -, h⟩ := of_bind h
  split at h
  case h_6 => cases h
  all_goals
    rename_i p hp
    obtain ⟨d, hd, h⟩ := of_bind h
    obtain ⟨_, hfact, h⟩ := of_bind h
    obtain ⟨bytes, rfl⟩ := stakingFact_eq_ok hfact
    obtain ⟨_, h₁, h⟩ := of_bind h
    obtain ⟨k₁, r₁, b₁, hk₁, hb₁, rfl, hr₁⟩ := postedTo_of_stakingMutation h₁
    have hmove := congrArg stakingMove hp
    simp only [stakingMove, hd, Except.toOption, Option.map_some] at hmove
  case h_1 =>
    cases h
    exact ⟨.put hin (.own hk₁ (by decide) putsIn_nil), _, hmove,
      ⟨_, .some hr₁, fact (by decide) (.own hk₁ hb₁ .nil)⟩,
      ⟨_, .none, fact (by decide) (.skip hk₁ (by decide) .nil)⟩,
      ⟨_, .none, fact (by decide) (.skip hk₁ (by decide) .nil)⟩⟩
  case h_5 =>
    cases h
    exact ⟨.put hin (.own hk₁ (by decide) putsIn_nil), _, hmove,
      ⟨_, .none, fact (by decide) (.skip hk₁ (by decide) .nil)⟩,
      ⟨_, .some hr₁, fact (by decide) (.own hk₁ hb₁ .nil)⟩,
      ⟨_, .none, fact (by decide) (.skip hk₁ (by decide) .nil)⟩⟩
  all_goals
    obtain ⟨_, h₂, h⟩ := of_bind h
    obtain ⟨k₂, r₂, b₂, hk₂, hb₂, rfl, hr₂⟩ := postedTo_of_stakingMutation h₂
    cases h
    refine ⟨.put hin (.own hk₁ (by decide) (.own hk₂ (by decide) putsIn_nil)), _, hmove,
      ⟨_, .some hr₁, fact (by decide) (.own hk₁ hb₁ (.skip hk₂ (by decide) .nil))⟩, ?_⟩
  case h_4 =>
    exact ⟨⟨_, .some hr₂, fact (by decide) (.skip hk₁ (by decide) (.own hk₂ hb₂ .nil))⟩,
      ⟨_, .none, fact (by decide) (.skip hk₁ (by decide) (.skip hk₂ (by decide) .nil))⟩⟩
  all_goals
    exact ⟨⟨_, .none, fact (by decide) (.skip hk₁ (by decide) (.skip hk₂ (by decide) .nil))⟩,
      ⟨_, .some hr₂, fact (by decide) (.skip hk₁ (by decide) (.own hk₂ hb₂ .nil))⟩⟩

theorem putsIn_reduceStaking (h : reduceStaking J s event = .ok ms) :
    PutsIn stakingNamespaces ms := (writes_of_reduceStaking h).1

theorem posts_of_reduceStaking (h : reduceStaking J s event = .ok ms)
    (hn : (ms.map StateMutation.key).Nodup)
    (ht : ∀ k : StateKey, k.ns ∈ stakingNamespaces → t[k]? = (writeAll s ms)[k]?) :
    Posts J s (stakingMove event.payload) t := by
  obtain ⟨-, move, hmove, hliquid, hpending, hdelegation⟩ := writes_of_reduceStaking h
  have posted : ∀ {O : Type} [DecidableEq O] [StakingOwner O] {p : Posting O},
      FlowOwner.ns O ∈ stakingNamespaces → PutsPosting J s p ms → Posted J s p t :=
    fun hns ⟨_, hp, hputs⟩ => posted_of_updates hp (hputs.updates hn fun k hk => ht k (hk ▸ hns))
  rw [hmove]
  exact ⟨posted (by decide) hliquid, posted (by decide) hpending, posted (by decide) hdelegation⟩

variable {a : Address} {v : String}

def HasRelation (s : Entries) (a : Address) (v : String) : Prop :=
  ∃ k, StakingDelegationRelationCurrentRecordV1.stateKey a v = .ok k ∧ (s[k]?).isSome

/-- Relations that a state holds stay, and at most one is new. -/
def RelationsGrow (s : Entries) (opened : Option StakingDelegation) (t : Entries) : Prop :=
  ∀ a v, HasRelation t a v ↔ HasRelation s a v ∨ opened = some ⟨a, v⟩

theorem relationsGrow_none
    (h : ∀ k : StateKey, k.ns = "staking-delegation-relation.v1" → t[k]? = s[k]?) :
    RelationsGrow s none t := by
  intro a v
  simp only [HasRelation, reduceCtorEq, or_false]
  refine exists_congr fun k => and_congr_right fun hk => ?_
  rw [h k (ns_framedKey hk).1]

theorem relationsGrow_of_stakingRelation {b : Bool} (h : stakingRelation J s event a v b = .ok ms)
    (ht : ∀ k : StateKey, k.ns = "staking-delegation-relation.v1" →
      t[k]? = (writeAll s ms)[k]?) : RelationsGrow s (some ⟨a, v⟩) t := by
  obtain ⟨key, bytes, hk, rfl⟩ := stakingRelation_eq_ok h
  have hkey : t[key]? = some bytes := by
    rw [ht key (ns_framedKey hk).1]
    exact getElem?_writeAll_of_mem (m := .put key bytes) (by simp) (by simp)
  have hne : ∀ k : StateKey, k.ns = "staking-delegation-relation.v1" → k ≠ key →
      t[k]? = s[k]? := by
    intro k hns hne
    rw [ht k hns]
    exact getElem?_writeAll_of_forall_ne (by simpa [StateMutation.key] using hne.symm)
  intro a' v'
  constructor
  · rintro ⟨k, hk', hs⟩
    by_cases hkk : k = key
    · subst hkk
      have := framedKey_inj hk hk'
      simp only [List.cons.injEq, and_true, utf8_inj, Vector.toList_inj] at this
      exact .inr (by rw [this.1, this.2])
    · exact .inl ⟨k, hk', hne k (ns_framedKey hk').1 hkk ▸ hs⟩
  · rintro (⟨k, hk', hs⟩ | heq)
    · refine ⟨k, hk', ?_⟩
      by_cases hkk : k = key
      · rw [hkk, hkey]
        rfl
      · rwa [hne k (ns_framedKey hk').1 hkk]
    · obtain ⟨rfl, rfl⟩ := StakingDelegation.mk.inj (Option.some.inj heq)
      exact ⟨key, hk, by rw [hkey]; rfl⟩

def delegationOf (event : CanonicalEventEnvelope) : Option StakingDelegation :=
  ((stakingMove event.payload).bind StakingMove.delegation).map Prod.fst

theorem relationsGrow_of_reduceRelationship (h : reduceRelationship J s event = .ok ms)
    (ht : ∀ k : StateKey, k.ns = "staking-delegation-relation.v1" →
      t[k]? = (writeAll s ms)[k]?) : RelationsGrow s (delegationOf event) t := by
  have hvault : ∀ vaultId, vaultRelation J s event vaultId = .ok ms → RelationsGrow s none t :=
    fun vaultId hv => relationsGrow_none fun k hk =>
      (ht k hk).trans ((putsIn_vaultRelation hv).frame (by rw [hk]; decide))
  obtain ⟨-, h⟩ := of_check h
  rw [delegationOf]
  split at h
  case h_5 => cases h
  all_goals
    rename_i p hp
    obtain ⟨d, hd, h⟩ := of_bind h
    rw [hp]
  case h_1 | h_2 => exact hvault _ h
  all_goals
    simp only [stakingMove, hd, Except.toOption, Option.map_some, Option.bind_some,
      StakingMove.delegation]
    exact relationsGrow_of_stakingRelation h ht

end AlphaDesk
