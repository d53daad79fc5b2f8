import AlphaDesk.Consumer.Assembly

/-! # Assembly in rounds

Deliveries may come more than once. The assembler then takes the deliveries of a block
in rounds: a delivery is refused while the round it belongs to has a copy of it, and
the round ends with the block. How often each delivery has come says what is held.
-/

namespace AlphaDesk

open Publication List

variable {B : Blake3} {K : EnvelopeCodec}

/-- A round of the block has begun and has not ended. -/
def Publication.Uneven (P : Publication B K) (before : List CanonicalDelivery) : Prop :=
  ∃ d ∈ P.deliveries, ∃ d' ∈ P.deliveries, before.count d ≠ before.count d'

instance (P : Publication B K) (before : List CanonicalDelivery) : Decidable (P.Uneven before) :=
  inferInstanceAs (Decidable (∃ d ∈ P.deliveries, ∃ d' ∈ P.deliveries, _))

/-- No delivery of the block has come less often than this one. -/
def Publication.Due (P : Publication B K) (before : List CanonicalDelivery)
    (d : CanonicalDelivery) : Prop :=
  ∀ d' ∈ P.deliveries, before.count d ≤ before.count d'

/-- There is room for a new round. -/
def Roomy (Ps : List (Publication B K)) (before : List CanonicalDelivery) : Prop :=
  Ps.countP (fun P => P.Uneven before) < maxPendingBlocks

/-- The delivery is the last one of a round of the block. -/
def Publication.EndsRound (P : Publication B K) (before : List CanonicalDelivery)
    (d : CanonicalDelivery) : Prop :=
  ∀ d' ∈ P.deliveries, d' ≠ d → before.count d < before.count d'

instance (P : Publication B K) (before : List CanonicalDelivery) (d : CanonicalDelivery) :
    Decidable (P.EndsRound before d) :=
  inferInstanceAs (Decidable (∀ d' ∈ P.deliveries, d' ≠ d → _))

/-- The delivery goes on with a round of its block or begins one. -/
structure Publication.Admits (Ps : List (Publication B K)) (P : Publication B K)
    (before : List CanonicalDelivery) (d : CanonicalDelivery) : Prop where
  due : P.Due before d
  room : P.Uneven before ∨ Roomy Ps before

namespace BlockAssembler

variable {Ps : List (Publication B K)} {P Q : Publication B K}
  {before held : List CanonicalDelivery} {s : BlockAssembler} {d d' : CanonicalDelivery}

/-- The assembler holds the deliveries of the rounds that have begun: those that have come more
often than another of their block. -/
structure InRounds (Ps : List (Publication B K)) (before held : List CanonicalDelivery)
    (s : BlockAssembler) : Prop where
  holds : s.Holds Ps held
  made : ∀ d ∈ held, ∃ P ∈ Ps, d ∈ P.deliveries
  mem_held : ∀ P ∈ Ps, ∀ d ∈ P.deliveries,
    (d ∈ held ↔ ∃ d' ∈ P.deliveries, before.count d' < before.count d)
  even : ∀ P ∈ Ps, ∀ d ∈ P.deliveries, ∀ d' ∈ P.deliveries, before.count d ≤ before.count d' + 1

theorem inRounds_new (Ps : List (Publication B K)) : InRounds Ps [] [] .new where
  holds := holds_new Ps
  made := by simp
  mem_held := by simp
  even := by simp

theorem eq_of_mem_deliveries (hPs : (Ps.map Publication.hash).Nodup) (hP : P ∈ Ps) (hQ : Q ∈ Ps)
    (hdP : d ∈ P.deliveries) (hdQ : d ∈ Q.deliveries) : P = Q := by
  apply inj_on_of_nodup_map hPs hP hQ
  exact (bears hdP).blockHash.symm.trans (bears hdQ).blockHash

namespace InRounds

theorem count_concat (before : List CanonicalDelivery) (d d' : CanonicalDelivery) :
    (before ++ [d]).count d' = before.count d' + if d' = d then 1 else 0 := by
  by_cases h : d' = d
  · simp [h]
  · simp [h, Ne.symm h]

section Others

variable (hPs : (Ps.map Publication.hash).Nodup) (hP : P ∈ Ps) (hQ : Q ∈ Ps)
  (hd : d ∈ P.deliveries) (hd' : d' ∈ Q.deliveries) (hne : Q ≠ P)

include hPs hP hQ hd hd' hne

theorem count_concat_of_ne : (before ++ [d]).count d' = before.count d' := by
  rw [count_concat, if_neg]
  · rfl
  · rintro rfl
    exact hne (eq_of_mem_deliveries hPs hQ hP hd' hd)

theorem mem_settle_of_ne : d' ∈ P.settle (held ++ [d]) ↔ d' ∈ held := by
  have hdd : d' ≠ d := by
    rintro rfl
    exact hne (eq_of_mem_deliveries hPs hQ hP hd' hd)
  have hhash : d'.blockHash ≠ P.hash := by
    rw [(bears hd').blockHash]
    exact fun h => hne (inj_on_of_nodup_map hPs hQ hP h)
  unfold settle
  split
  · simp [hdd, hhash]
  · simp [hdd]

end Others

section Own

variable (h : InRounds Ps before held s) (hP : P ∈ Ps) (hd : d ∈ P.deliveries)

include h hP hd

theorem notMem_held_iff : d ∉ held ↔ P.Due before d := by
  rw [h.mem_held P hP d hd]
  simp [Due]

variable (hdue : P.Due before d)

include hdue

theorem completeIn_iff : P.CompleteIn (held ++ [d]) ↔ P.EndsRound before d := by
  constructor
  · intro hc d' hd' hne
    have hmem := (mem_append.mp (hc d' hd')).resolve_right (by simpa using hne)
    obtain ⟨e, he, hlt⟩ := (h.mem_held P hP d' hd').mp hmem
    exact (hdue e he).trans_lt hlt
  · intro hends d' hd'
    by_cases hne : d' = d
    · simp [hne]
    · exact mem_append_left _ ((h.mem_held P hP d' hd').mpr ⟨d, hd, hends d' hd' hne⟩)

theorem mem_settle (hd' : d' ∈ P.deliveries) :
    d' ∈ P.settle (held ++ [d]) ↔
      ∃ e ∈ P.deliveries, (before ++ [d]).count e < (before ++ [d]).count d' := by
  simp only [settle, h.completeIn_iff hP hd hdue, count_concat]
  by_cases hends : P.EndsRound before d
  · -- all deliveries of the block have come equally often
    have hall : ∀ e ∈ P.deliveries,
        (before.count e + if e = d then 1 else 0) = before.count d + 1 := by
      intro e he
      by_cases hed : e = d
      · simp [hed]
      · have hlt := hends e he hed
        have hle := h.even P hP e he d hd
        simp only [hed, if_false]
        omega
    rw [if_pos hends]
    constructor
    · intro hmem
      exact absurd (bears hd').blockHash (by simpa using (mem_filter.mp hmem).2)
    · rintro ⟨e, he, hlt⟩
      rw [hall e he, hall d' hd'] at hlt
      exact absurd hlt (lt_irrefl _)
  · obtain ⟨least, hleast, hne, hle⟩ : ∃ e ∈ P.deliveries, e ≠ d ∧
        before.count e ≤ before.count d := by
      simpa [EndsRound] using hends
    rw [if_neg hends, mem_append, mem_singleton, h.mem_held P hP d' hd']
    by_cases hdd : d' = d
    · refine iff_of_true (.inr hdd) ⟨least, hleast, ?_⟩
      rw [if_neg hne, if_pos hdd, hdd]
      omega
    · simp only [hdd, or_false, if_false]
      constructor
      · rintro ⟨e, he, hlt⟩
        have := hdue e he
        exact ⟨least, hleast, by rw [if_neg hne]; omega⟩
      · rintro ⟨e, he, hlt⟩
        exact ⟨e, he, by omega⟩

end Own

variable (h : InRounds Ps before held s) (hPs : (Ps.map Publication.hash).Nodup) (hP : P ∈ Ps)

include h hPs hP

theorem mem_own_iff : d ∈ P.own held ↔ d ∈ P.deliveries ∧ d ∈ held := by
  constructor
  · intro hd
    obtain ⟨hd, hhash⟩ := mem_filter.mp hd
    obtain ⟨Q, hQ, hdQ⟩ := h.made d hd
    have heq : Q.hash = P.hash :=
      (bears hdQ).blockHash.symm.trans (of_decide_eq_true hhash)
    rw [← inj_on_of_nodup_map hPs hQ hP heq]
    exact ⟨hdQ, hd⟩
  · rintro ⟨hdP, hd⟩
    exact (mem_own hdP).mpr hd

theorem own_ne_nil_iff : P.own held ≠ [] ↔ P.Uneven before := by
  constructor
  · intro hne
    obtain ⟨d, hd⟩ := exists_mem_of_ne_nil _ hne
    obtain ⟨hdP, hheld⟩ := (h.mem_own_iff hPs hP).mp hd
    obtain ⟨d', hd', hlt⟩ := (h.mem_held P hP d hdP).mp hheld
    exact ⟨d, hdP, d', hd', hlt.ne'⟩
  · rintro ⟨d, hd, d', hd', hne⟩
    rcases lt_or_gt_of_ne hne with hlt | hlt
    · have hheld := (h.mem_held P hP d' hd').mpr ⟨d, hd, hlt⟩
      exact ne_nil_of_mem ((mem_own hd').mpr hheld)
    · have hheld := (h.mem_held P hP d hd).mpr ⟨d', hd', hlt⟩
      exact ne_nil_of_mem ((mem_own hd).mpr hheld)

omit hP in
theorem pendingCount_eq : pendingCount Ps held = Ps.countP fun P => P.Uneven before := by
  refine countP_congr fun P hP => ?_
  simpa using h.own_ne_nil_iff hPs hP

omit hP in
theorem hasPending_eq_false_iff : s.hasPending = false ↔ ∀ P ∈ Ps, ¬P.Uneven before := by
  have hsize := h.holds.size hPs
  rw [h.pendingCount_eq hPs] at hsize
  rw [hasPending, Bool.not_eq_false', Std.ExtTreeMap.isEmpty_iff,
    Std.ExtTreeMap.eq_empty_iff_size_eq_zero,
    hsize, countP_eq_zero]
  simp

variable (hd : d ∈ P.deliveries)

include hd

theorem push_refused (hnot : ¬P.Admits Ps before d) :
    ∃ e, (s.push B K d).1 = .error e := by
  by_cases hheld : d ∈ held
  · exact ⟨_, h.holds.push_held hPs hP hd hheld⟩
  · have hroom : ¬(P.Uneven before ∨ Roomy Ps before) :=
      fun hr => hnot ⟨(h.notMem_held_iff hP hd).mp hheld, hr⟩
    obtain ⟨heven, hfull⟩ := not_or.mp hroom
    have hown : P.own held = [] := by
      by_contra hne
      exact heven ((h.own_ne_nil_iff hPs hP).mp hne)
    rw [Roomy, ← h.pendingCount_eq hPs, not_lt] at hfull
    exact ⟨_, congrArg Prod.fst (h.holds.push_full hPs hP hd hown hfull)⟩

theorem even_concat (hdue : P.Due before d) (hQ : Q ∈ Ps)
    {e e' : CanonicalDelivery} (he : e ∈ Q.deliveries) (he' : e' ∈ Q.deliveries) :
    (before ++ [d]).count e ≤ (before ++ [d]).count e' + 1 := by
  have heven := h.even Q hQ e he e' he'
  rw [count_concat, count_concat]
  by_cases hed : e = d
  · obtain rfl := eq_of_mem_deliveries hPs hP hQ hd (hed ▸ he)
    have := hdue e' he'
    rw [hed]
    simp only [if_true]
    omega
  · simp only [hed, if_false]
    omega

theorem push_admitted (hadmits : P.Admits Ps before d) :
    ∃ held' messageIds, (P.EndsRound before d →
        ∀ id, id ∈ messageIds ↔ id ∈ P.deliveries.map (·.messageId)) ∧
      (s.push B K d).1 =
        .ok (if P.EndsRound before d then some ⟨P.block, messageIds⟩ else none) ∧
      InRounds Ps (before ++ [d]) held' (s.push B K d).2 := by
  have hdue := hadmits.due
  have hroom : P.own held ≠ [] ∨ pendingCount Ps held < maxPendingBlocks := by
    rw [h.own_ne_nil_iff hPs hP, h.pendingCount_eq hPs]
    exact hadmits.room
  obtain ⟨hreply, hnext⟩ :=
    h.holds.push_new hPs hP hd ((h.notMem_held_iff hP hd).mpr hdue) hroom
  simp only [h.completeIn_iff hP hd hdue] at hreply
  refine ⟨_, _, ?_, hreply, hnext, ?_, ?_, fun Q hQ e he e' he' =>
    h.even_concat hPs hP hd hdue hQ he he'⟩
  · intro hends id
    have hc := (h.completeIn_iff hP hd hdue).mpr hends
    have hmem : ∀ e, e ∈ P.own (held ++ [d]) ↔ e ∈ P.deliveries := by
      intro e
      refine ⟨fun he => ?_, fun he => (mem_own he).mpr (hc e he)⟩
      rw [own_concat hd, mem_append, mem_singleton] at he
      rcases he with he | rfl
      · exact ((h.mem_own_iff hPs hP).mp he).1
      · exact hd
    simp only [mem_map, hmem]
  · intro e he
    have hmem : e ∈ held ++ [d] := by
      unfold settle at he
      split at he
      · exact (mem_filter.mp he).1
      · exact he
    rcases mem_append.mp hmem with he | he
    · exact h.made e he
    · exact ⟨P, hP, mem_singleton.mp he ▸ hd⟩
  · intro Q hQ e he
    by_cases hQP : Q = P
    · rw [hQP] at he ⊢
      exact h.mem_settle hP hd hdue he
    · rw [mem_settle_of_ne hPs hP hQ hd he hQP, h.mem_held Q hQ e he]
      refine exists_congr fun e' => and_congr_right fun he' => ?_
      rw [count_concat_of_ne hPs hP hQ hd he hQP, count_concat_of_ne hPs hP hQ hd he' hQP]

end InRounds

end BlockAssembler

end AlphaDesk
