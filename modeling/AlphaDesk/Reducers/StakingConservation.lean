import AlphaDesk.Reducers.StakingBalance

/-! # Conservation of stake

Every account's stake is accounted for: what left its liquid balance is in a
delegation or a pending withdrawal, and what entered it was deposited or came
back from a delegation. An account is related to the validators it has a
delegation with.
-/

namespace AlphaDesk

section Sums

variable {J : SerdeJson} {s t : Entries} {a : Address} {side : FlowSide}

noncomputable def delegatedCredits (J : SerdeJson) (s : Entries) (a : Address) : ℚ :=
  ∑ᶠ v, stakingCredits J s (⟨a, v⟩ : StakingDelegation)

noncomputable def delegatedDebits (J : SerdeJson) (s : Entries) (a : Address) : ℚ :=
  ∑ᶠ v, stakingDebits J s (⟨a, v⟩ : StakingDelegation)

def delegatedTo (J : SerdeJson) (s : Entries) (a : Address) : Set String :=
  {v | (stakingRecord? J s (⟨a, v⟩ : StakingDelegation)).isSome}

def delegatedAmount (p : Posting StakingDelegation) (side : FlowSide) (a : Address) : ℚ :=
  p.elim 0 fun q => if a = q.1.accountId then sideAmount q.2.1 side q.2.2 else 0

theorem finsum_posted {p : Posting StakingDelegation} {f g : String → ℚ} (hf : f.support.Finite)
    (hg : ∀ v, g v = f v + postedAmount p side ⟨a, v⟩) :
    ∑ᶠ v, g v = ∑ᶠ v, f v + delegatedAmount p side a := by
  rcases p with _ | ⟨⟨a', v'⟩, side', x⟩
  · simp [hg, postedAmount, delegatedAmount]
  by_cases ha : a = a'
  · have hsingle : ∀ v, v ≠ v' → (if v = v' then sideAmount side' side x else 0) = 0 :=
      fun _ hv => if_neg hv
    have hfinite : (fun v => if v = v' then sideAmount side' side x else 0).support.Finite := by
      refine (Set.finite_singleton v').subset fun v hv => ?_
      by_contra hne
      exact hv (if_neg hne)
    simp only [hg, postedAmount, delegatedAmount, Option.elim_some, StakingDelegation.mk.injEq, ha,
      true_and, if_true]
    rw [finsum_add_distrib hf hfinite, finsum_eq_single _ v' hsingle, if_pos rfl]
  · simp [hg, postedAmount, delegatedAmount, ha]

theorem finite_support_elim (h : (delegatedTo J s a).Finite)
    (f : StakingRecord StakingDelegation → ℚ) :
    (fun v => (stakingRecord? J s (⟨a, v⟩ : StakingDelegation)).elim 0 f).support.Finite := by
  refine h.subset fun v hv => ?_
  by_contra hn
  refine hv ?_
  rw [delegatedTo, Set.mem_ofPred_eq, Option.not_isSome_iff_eq_none] at hn
  simp [hn]

variable {p : Posting StakingDelegation} (h : Posted J s p t) (hf : (delegatedTo J s a).Finite)

include h hf

theorem Posted.delegatedCredits :
    delegatedCredits J t a = delegatedCredits J s a + delegatedAmount p .credit a :=
  finsum_posted (finite_support_elim hf _) fun v => h.credits ⟨a, v⟩

theorem Posted.delegatedDebits :
    delegatedDebits J t a = delegatedDebits J s a + delegatedAmount p .debit a :=
  finsum_posted (finite_support_elim hf _) fun v => h.debits ⟨a, v⟩

theorem Posted.finite_delegatedTo : (delegatedTo J t a).Finite := by
  refine (hf.union (p.map fun q => q.1.validator).toFinset.finite_toSet).subset fun v hv => ?_
  rcases (h.held ⟨a, v⟩).mp hv with hs | hp
  · exact .inl hs
  · obtain ⟨q, hq, hv⟩ := Option.map_eq_some_iff.mp hp
    exact .inr (by simp [hq, hv])

end Sums

variable {J : SerdeJson} {s t : Entries} {events : List CanonicalEventEnvelope}
  {event : CanonicalEventEnvelope} {a : Address} {O : Type}

def stakingDeposit (a : Address) (event : CanonicalEventEnvelope) : ℚ :=
  match stakingMove event.payload with
  | some (.deposited b x) => if a = b then x else 0
  | _ => 0

def stakingDeposits (a : Address) (events : List CanonicalEventEnvelope) : ℚ :=
  (events.map (stakingDeposit a)).sum

theorem stakingDeposits_concat :
    stakingDeposits a (events ++ [event]) = stakingDeposits a events + stakingDeposit a event := by
  simp [stakingDeposits]

/-- The balances of a kind of owner can all be read, and none is overdrawn. -/
structure Covered (J : SerdeJson) (s : Entries) (O : Type) [StakingOwner O] : Prop where
  readable : Stored.Readable (StakingRecord O) J s
  le : ∀ o : O, stakingDebits J s o ≤ stakingCredits J s o

theorem Posted.all_covered [DecidableEq O] [StakingOwner O] {p : Posting O} (h : Posted J s p t)
    (hs : Covered J s O) : Covered J t O :=
  ⟨h.readable hs.readable, fun o => h.covered o (hs.le o)⟩

/-- The stake of every account is accounted for. -/
structure StakeConserved (J : SerdeJson) (events : List CanonicalEventEnvelope) (s : Entries) :
    Prop where
  liquid : Covered J s StakingLiquid
  pending : Covered J s StakingPending
  delegations : Covered J s StakingDelegation
  finite : ∀ a, (delegatedTo J s a).Finite
  debits : ∀ a, stakingDebits J s (⟨a⟩ : StakingLiquid) =
    delegatedCredits J s a + stakingCredits J s (⟨a⟩ : StakingPending)
  credits : ∀ a, stakingCredits J s (⟨a⟩ : StakingLiquid) =
    stakingDeposits a events + delegatedDebits J s a
  related : ∀ a v, HasRelation s a v ↔ v ∈ delegatedTo J s a

theorem stakingRecord?_empty [StakingOwner O] (o : O) : stakingRecord? J ∅ o = none := by
  cases hk : flowKey o with
  | error e => simp [stakingRecord?, hk, Except.toOption]
  | ok k =>
    rw [stakingRecord?_of_key hk]
    exact Stored.get?_eq_none (by simp)

theorem stakeConserved_empty : StakeConserved J [] ∅ := by
  have hcredits : ∀ {O : Type} [StakingOwner O] (o : O), stakingCredits J ∅ o = 0 := fun o => by
    rw [stakingCredits, stakingRecord?_empty]
    rfl
  have hdebits : ∀ {O : Type} [StakingOwner O] (o : O), stakingDebits J ∅ o = 0 := fun o => by
    rw [stakingDebits, stakingRecord?_empty]
    rfl
  have hcovered : ∀ (O : Type) [StakingOwner O], Covered J ∅ O := fun O _ =>
    ⟨Stored.readable_empty, fun o => by rw [hcredits, hdebits]⟩
  refine ⟨hcovered _, hcovered _, hcovered _, fun a => ?_, fun a => ?_, fun a => ?_,
    fun a v => ?_⟩
  · simp [delegatedTo, stakingRecord?_empty]
  · simp [hcredits, hdebits, delegatedCredits]
  · simp [hcredits, hdebits, delegatedDebits, stakingDeposits]
  · simp [HasRelation, delegatedTo, stakingRecord?_empty]

/-- An event keeps the accounts of stake, with its deposit if it is one. -/
theorem StakeConserved.posted (h : StakeConserved J events s)
    (hp : Posts J s (stakingMove event.payload) t) (hr : RelationsGrow s (delegationOf event) t) :
    StakeConserved J (events ++ [event]) t := by
  obtain ⟨hl, hpend, hd⟩ := hp
  refine ⟨hl.all_covered h.liquid, hpend.all_covered h.pending, hd.all_covered h.delegations,
    fun a => hd.finite_delegatedTo (h.finite a), fun a => ?_, fun a => ?_, fun a v => ?_⟩
  · rw [hl.debits, hpend.credits, hd.delegatedCredits (h.finite a), h.debits]
    cases stakingMove event.payload with
    | none => simp [postedAmount, delegatedAmount]
    | some move =>
      cases move <;> simp [postedAmount, delegatedAmount, sideAmount, StakingMove.liquid,
        StakingMove.pending, StakingMove.delegation] <;> ring
  · rw [hl.credits, hd.delegatedDebits (h.finite a), h.credits, stakingDeposits_concat,
      stakingDeposit]
    cases stakingMove event.payload with
    | none => simp [postedAmount, delegatedAmount]
    | some move =>
      cases move <;> simp [postedAmount, delegatedAmount, sideAmount, StakingMove.liquid,
        StakingMove.delegation] <;> ring
  · rw [hr, h.related, delegatedTo, delegatedTo, Set.mem_ofPred_eq, Set.mem_ofPred_eq, hd.held]
    rfl

end AlphaDesk
