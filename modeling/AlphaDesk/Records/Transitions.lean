import AlphaDesk.Foundation.HashChain
import AlphaDesk.Records.Stored

/-! # Records that follow their subject's events

A reducer may keep a current record for each of its subjects and write it anew with
every event about the subject, together with a transition from the hash of the
record before to the hash of the record after. The transitions of a subject then
form a chain that ends in the hash of its current record.
-/

namespace AlphaDesk

open Stored Except

/-- Subjects with their current records. -/
structure Subjects (I C : Type) [Stored C] where
  subject : CanonicalEventEnvelope → Option I
  currentKey : I → Except RecordCodecError StateKey
  currentKey_inj : ∀ {i i' k}, currentKey i = .ok k → currentKey i' = .ok k → i = i'
  ns_currentKey : ∀ {i k}, currentKey i = .ok k → k.ns = ns C
  /-- How an event makes the record of its subject, from the one before if there was one. -/
  next : CanonicalEventEnvelope → I → Option C → C → Prop

namespace Subjects

variable {I C : Type} [Stored C] (K : Subjects I C) (J : SerdeJson)

/-- What an event does to the current records: it has no subject and leaves them alone, or it
writes the record of its subject. -/
inductive Step (s : Entries) (event : CanonicalEventEnvelope) (t : Entries) : Prop
  | idle (anonymous : K.subject event = none) (currents : Updates C J s [] t)
  | written {i : I} {k : StateKey} {current : C} (subject : K.subject event = some i)
    (key : K.currentKey i = .ok k) (keyOf_current : keyOf current = .ok k)
    (next : K.next event i (get? C J s k) current) (currents : Updates C J s [current] t)

section Keep

/-- Every record of a state is still there, changed at most as the relation allows. -/
def Keeps (Q : C → C → Prop) (s t : Entries) : Prop :=
  ∀ k r, get? C J s k = some r → ∃ r', get? C J t k = some r' ∧ Q r r'

variable {K J} {s t u : Entries} {event : CanonicalEventEnvelope} {Q : C → C → Prop}

theorem Keeps.refl (hQ : ∀ r, Q r r) (s : Entries) : Keeps J Q s s :=
  fun _ r hr => ⟨r, hr, hQ r⟩

theorem Keeps.trans (h : Keeps J Q s t) (hQ : ∀ r r' r'', Q r r' → Q r' r'' → Q r r'')
    (h' : Keeps J Q t u) : Keeps J Q s u := by
  intro k r hr
  obtain ⟨r', hr', hq⟩ := h k r hr
  obtain ⟨r'', hr'', hq'⟩ := h' k r' hr'
  exact ⟨r'', hr'', hQ r r' r'' hq hq'⟩

/-- A relation that every rewriting of a record meets is met by a step. -/
theorem Step.keeps (h : K.Step J s event t) (hQ : ∀ r, Q r r)
    (hnext : ∀ i r current, K.next event i (some r) current → Q r current) : Keeps J Q s t := by
  intro k r hr
  cases h with
  | idle _ hC => exact ⟨r, (hC.get?_of_forall_ne (by simp)).trans hr, hQ r⟩
  | @written i k' current _ _ hk hn hC =>
    by_cases hkk : k = k'
    · subst hkk
      exact ⟨current, hC.get?_of_mem (by simp) hk, hnext i r current (hr ▸ hn)⟩
    · have hne : ∀ r' ∈ [current], keyOf r' ≠ .ok k := by
        simp only [List.mem_singleton, forall_eq, hk]
        exact fun h => hkk (ok.inj h).symm
      exact ⟨r, (hC.get?_of_forall_ne hne).trans hr, hQ r⟩

theorem Step.readable (h : K.Step J s event t) (hs : Readable C J s) : Readable C J t := by
  cases h with
  | idle _ hC => exact hC.readable hs
  | written _ _ _ _ hC => exact hC.readable hs

open CanonicalLedger in
/-- A relation that every rewriting of a record meets holds between the record in a run and the
record after any later blocks. -/
theorem exists_later {B : Blake3} {R : EventReducer} {l : CanonicalLedger} {k : StateKey}
    {bytes : List UInt8} {r : C} (hrefl : ∀ r, Q r r)
    (htrans : ∀ r r' r'', Q r r' → Q r' r'' → Q r r'')
    (hstep : ∀ s event t, CanonicalLedger.Step R s event t → Readable C J s →
      K.Step J s event t ∧ ∀ i r current, K.next event i (some r) current → Q r current)
    (blocks later : List (BlockEnvelope B)) (hs : Readable C J (run R l blocks).state.entries)
    (hb : (run R l blocks).state.entries[k]? = some bytes) (hr : encode J r = .ok bytes)
    (hk : keyOf r = .ok k) :
    ∃ bytes' r', (run R l (blocks ++ later)).state.entries[k]? = some bytes' ∧
      decodeAt J k bytes' = .ok r' ∧ Q r r' ∧ (r' = r → bytes' = bytes) := by
  have h := run_related (R := R) (l := l)
    (Q := fun s t => Readable C J s → Readable C J t ∧ Keeps J Q s t)
    (fun s hs => ⟨hs, Keeps.refl hrefl s⟩)
    (fun s t u hst htu hs => ⟨(htu (hst hs).1).1, (hst hs).2.trans htrans (htu (hst hs).1).2⟩)
    (fun s event t h hs => ⟨(hstep s event t h hs).1.readable hs,
      (hstep s event t h hs).1.keeps hrefl (hstep s event t h hs).2⟩) blocks later
  obtain ⟨ht, hkeeps⟩ := h hs
  obtain ⟨r', hg, hq⟩ := hkeeps k r (get?_of_encode hb hr hk)
  obtain ⟨bytes', hb', he⟩ := ht.encode_of_get? hg
  refine ⟨bytes', r', hb', decodeAt_encode he (keyOf_of_get? hg), hq, ?_⟩
  rintro rfl
  exact ok_unique he hr

end Keep

variable [DecidableEq I]

def about (i : I) (events : List CanonicalEventEnvelope) : List CanonicalEventEnvelope :=
  events.filter (K.subject · = some i)

/-- Subjects without a record have had no event, and the record of any other satisfies the
predicate with the events of its subject. -/
structure Followed (P : List CanonicalEventEnvelope → C → Prop)
    (events : List CanonicalEventEnvelope) (s : Entries) : Prop where
  readable : Readable C J s
  absent : ∀ i k, K.currentKey i = .ok k → s[k]? = none → K.about i events = []
  present : ∀ i k r, K.currentKey i = .ok k → get? C J s k = some r → P (K.about i events) r

variable {K J} {P : List CanonicalEventEnvelope → C → Prop}
  {events : List CanonicalEventEnvelope} {s t : Entries} {event : CanonicalEventEnvelope} {i : I}

theorem about_concat_of_eq (h : K.subject event = some i) :
    K.about i (events ++ [event]) = K.about i events ++ [event] := by
  simp [about, List.filter_append, h]

theorem about_concat_of_ne (h : K.subject event ≠ some i) :
    K.about i (events ++ [event]) = K.about i events := by
  simp [about, List.filter_append, h]

theorem followed_empty : K.Followed J P [] ∅ where
  readable := readable_empty
  absent _ _ _ _ := rfl
  present i k r _ hr := by
    cases hr

theorem Followed.step (h : K.Followed J P events s) (hs : K.Step J s event t)
    (hfirst : ∀ i current, K.next event i none current → P [event] current)
    (hnext : ∀ i es r current, P es r → K.next event i (some r) current →
      P (es ++ [event]) current) : K.Followed J P (events ++ [event]) t := by
  cases hs with
  | idle hanon hC =>
    have habout : ∀ i, K.about i (events ++ [event]) = K.about i events :=
      fun i => about_concat_of_ne (by simp [hanon])
    refine ⟨hC.readable h.readable, fun i k hk hn => ?_, fun i k r hk hr => ?_⟩
    · rw [habout]
      exact h.absent i k hk (hC.frame k (K.ns_currentKey hk) (by simp) ▸ hn)
    · rw [habout]
      exact h.present i k r hk ((hC.get?_of_forall_ne (by simp)).symm.trans hr)
  | @written i k current hi hk hkc hn hC =>
    refine ⟨hC.readable h.readable, fun i' k' hk' ht => ?_, fun i' k' r hk' hr => ?_⟩
    · have hkk : k' ≠ k := by
        rintro rfl
        obtain ⟨_, bytes, hk'', -, hb⟩ := hC.written current (by simp)
        obtain rfl := ok_unique hkc hk''
        rw [ht] at hb
        cases hb
      have hii : K.subject event ≠ some i' := by
        rw [hi]
        rintro ⟨⟩
        exact hkk (ok_unique hk' hk)
      rw [about_concat_of_ne hii]
      refine h.absent i' k' hk' ?_
      rwa [hC.frame k' (K.ns_currentKey hk') ?_] at ht
      simp only [List.mem_singleton, forall_eq, hkc]
      exact fun h => hkk (ok.inj h).symm
    · by_cases hii : i' = i
      · -- the subject of the event: its record is the one just written
        subst hii
        obtain rfl := ok_unique hk hk'
        rw [hC.get?_of_mem (by simp) hkc] at hr
        obtain rfl := Option.some.inj hr
        rw [about_concat_of_eq hi]
        cases hg : get? C J s k with
        | none =>
          rw [h.absent i' k hk (h.readable.getElem?_eq_none (K.ns_currentKey hk) hg)]
          exact hfirst i' _ (hg ▸ hn)
        | some previous => exact hnext i' _ previous _ (h.present i' k previous hk hg) (hg ▸ hn)
      · have hkk : k ≠ k' := fun hkk => hii (K.currentKey_inj hk' (hkk ▸ hk))
        rw [about_concat_of_ne (by rw [hi]; exact fun h => hii (Option.some.inj h).symm)]
        refine h.present i' k' r hk' ?_
        rwa [hC.get?_of_forall_ne ?_] at hr
        simp only [List.mem_singleton, forall_eq, hkc]
        exact fun h => hkk (ok.inj h)

end Subjects

/-- Subjects whose events store transitions beside the current records. -/
structure Tracking (I C T : Type) [Stored C] [Stored T] extends Subjects I C where
  owner : T → Option I
  eventId : T → EventId
  prior : T → Option Hash32
  result : T → Option Hash32
  hash : List UInt8 → Hash32

namespace Tracking

variable {I C T : Type} [Stored C] [Stored T] (K : Tracking I C T) (J : SerdeJson)

def Holds (s : Entries) (i : I) (tr : T) : Prop :=
  K.owner tr = some i ∧ ∃ k, get? T J s k = some tr

/-- What an event does to current records and transitions: it has no subject and leaves the
current records alone, or it stores the record of its subject and the transition to it. -/
inductive Moves (s : Entries) (event : CanonicalEventEnvelope) (t : Entries) : Prop
  | idle {records : List T} (anonymous : K.subject event = none) (currents : Updates C J s [] t)
    (transitions : Updates T J s records t) (unowned : ∀ tr ∈ records, K.owner tr = none)
    (fresh : ∀ tr ∈ records, ∀ k, keyOf tr = .ok k → s[k]? = none)
  | written {i : I} {k : StateKey} {current : C} {bytes : List UInt8} {tr : T}
    (subject : K.subject event = some i) (key : K.currentKey i = .ok k)
    (keyOf_current : keyOf current = .ok k) (encoded : encode J current = .ok bytes)
    (next : K.next event i (get? C J s k) current)
    (currents : Updates C J s [current] t) (transitions : Updates T J s [tr] t)
    (owner : K.owner tr = some i) (fresh : ∀ k, keyOf tr = .ok k → s[k]? = none)
    (eventId : K.eventId tr = event.eventId) (prior : K.prior tr = (s[k]?).map K.hash)
    (result : K.result tr = some (K.hash bytes))

/-- The hash before is that of the record written anew, if there was one. -/
def PriorHash (hash : List UInt8 → Hash32) (existing : Option C) (prior : Option Hash32) : Prop :=
  existing = none ∧ prior = none ∨
    ∃ r bytes, existing = some r ∧ encode J r = .ok bytes ∧ prior = some (hash bytes)

/-- Mutations that file an event: a fact, the current record and the transition to it. -/
inductive Filed (factNs : String) (s : Entries) (event : CanonicalEventEnvelope) (i : I)
    (k : StateKey) (prior : Option Hash32) (current : C) : List StateMutation → Prop
  | mk {fk tk : StateKey} {fb bytes tb : List UInt8} {tr : T} (fact : fk.ns = factNs)
    (encoded : encode J current = .ok bytes) (key : keyOf tr = .ok tk)
    (transition : encode J tr = .ok tb) (fresh : s[tk]? = none) (owner : K.owner tr = some i)
    (eventId : K.eventId tr = event.eventId) (prior_eq : K.prior tr = prior)
    (result : K.result tr = some (K.hash bytes)) :
    Filed factNs s event i k prior current [.put fk fb, .put k bytes, .put tk tb]

variable {K J} {s t : Entries} {event : CanonicalEventEnvelope} {i : I} {tr : T}

theorem Moves.step (h : K.Moves J s event t) : K.Step J s event t := by
  cases h with
  | idle hanon hC => exact .idle hanon hC
  | written hi hk hkc _ hn hC => exact .written hi hk hkc hn hC

theorem holds_iff {records : List T} (h : Updates T J s records t)
    (hfresh : ∀ tr ∈ records, ∀ k, keyOf tr = .ok k → s[k]? = none) :
    K.Holds J t i tr ↔ K.Holds J s i tr ∨ K.owner tr = some i ∧ tr ∈ records := by
  constructor
  · rintro ⟨ho, k, hk⟩
    rcases h.get?_eq_some.mp hk with ⟨hr, -⟩ | ⟨-, hs⟩
    · exact .inr ⟨ho, hr⟩
    · exact .inl ⟨ho, k, hs⟩
  · rintro (⟨ho, k, hk⟩ | ⟨ho, hr⟩)
    · refine ⟨ho, k, h.get?_eq_some.mpr (.inr ⟨?_, hk⟩)⟩
      intro tr' hr' hk'
      rw [get?_eq_none (hfresh tr' hr' k hk')] at hk
      cases hk
    · obtain ⟨k, -, hk, -⟩ := h.written tr hr
      exact ⟨ho, k, h.get?_of_mem hr hk⟩

/-- A hash of the stored record, written anew, is the hash of its entry. -/
theorem prior_eq {C : Type} [Stored C] {k : StateKey} {hash : List UInt8 → Hash32}
    {prior : Option Hash32} (hs : Readable C J s) (hk : k.ns = ns C)
    (hprior : PriorHash J hash (get? C J s k) prior) : prior = (s[k]?).map hash := by
  rcases hprior with ⟨hg, rfl⟩ | ⟨r, bytes, hg, he, rfl⟩
  · rw [hs.getElem?_eq_none hk hg]
    rfl
  · obtain ⟨bytes', hb, he'⟩ := hs.encode_of_get? hg
    obtain rfl := ok_unique he he'
    rw [hb]
    rfl

section Filed

variable {factNs : String} {k : StateKey} {prior : Option Hash32} {current : C}
  {ms : List StateMutation} {nss : List String}
  (h : K.Filed J factNs s event i k prior current ms) (hC : ns C ∈ nss) (hT : ns T ∈ nss)

include h hC hT

theorem Filed.putsIn (hk : k.ns = ns C) (hf : factNs ∈ nss) : PutsIn nss ms := by
  cases h with
  | mk hfact _ htk => exact .put (hfact ▸ hf) (.put (hk ▸ hC) (.own htk hT putsIn_nil))

theorem Filed.moves (hne : factNs ≠ ns C ∧ factNs ≠ ns T ∧ ns C ≠ ns T)
    (hn : (ms.map StateMutation.key).Nodup)
    (ht : ∀ k : StateKey, k.ns ∈ nss → t[k]? = (writeAll s ms)[k]?) (hs : Readable C J s)
    (hi : K.subject event = some i) (hk : K.currentKey i = .ok k) (hkc : keyOf current = .ok k)
    (hnext : K.next event i (get? C J s k) current)
    (hprior : PriorHash J K.hash (get? C J s k) prior) : K.Moves J s event t := by
  cases h with
  | @mk fk tk fb bytes tb tr hfact hb htk htb hfresh ho he hp hr =>
    have hputc : Puts C J [.put fk fb, .put k bytes, .put tk tb] [current] :=
      .other (hfact.trans_ne hne.1) (.own hkc hb (.skip htk hne.2.2.symm .nil))
    have hputs : Puts T J [.put fk fb, .put k bytes, .put tk tb] [tr] :=
      .other (hfact.trans_ne hne.2.1) (.skip hkc hne.2.2 (.own htk htb .nil))
    refine .written hi hk hkc hb hnext (hputc.updates hn fun k hk => ht k (hk ▸ hC))
      (hputs.updates hn fun k hk => ht k (hk ▸ hT)) ho ?_ he
      (hp.trans (prior_eq hs (K.ns_currentKey hk) hprior)) hr
    intro k' hk'
    rwa [ok_unique hk' htk]

end Filed

variable (K J) [DecidableEq I]

/-- The transitions of a subject that a state holds, in the order of its events: they are chained,
and the chain ends in the hash of the subject's current record. -/
structure Chain (events : List CanonicalEventEnvelope) (s : Entries) (i : I) (k : StateKey)
    (transitions : List T) : Prop where
  events : transitions.map K.eventId = (K.about i events).map (·.eventId)
  mem_iff : ∀ tr, tr ∈ transitions ↔ K.Holds J s i tr
  chained : HashChain.Chained K.prior K.result transitions ((s[k]?).map K.hash)

/-- Every subject's transitions are chained. -/
structure Tracked (events : List CanonicalEventEnvelope) (s : Entries) : Prop where
  currents : Readable C J s
  transitions : Readable T J s
  chain : ∀ i k, K.currentKey i = .ok k → ∃ transitions, K.Chain J events s i k transitions

variable {K J} {events : List CanonicalEventEnvelope} {k : StateKey} {transitions : List T}

theorem tracked_empty : K.Tracked J [] ∅ where
  currents := readable_empty
  transitions := readable_empty
  chain i k hk := by
    have hnone : ∀ tr, ¬ K.Holds J ∅ i tr := by
      rintro tr ⟨-, k, hk⟩
      cases hk
    exact ⟨[], rfl, by simp [hnone], by simpa using HashChain.Chained.nil⟩

theorem Chain.other (h : K.Chain J events s i k transitions) (hi : K.subject event ≠ some i)
    (hk : t[k]? = s[k]?) (hh : ∀ tr, K.Holds J t i tr ↔ K.Holds J s i tr) :
    K.Chain J (events ++ [event]) t i k transitions where
  events := by rw [Subjects.about_concat_of_ne hi, h.events]
  mem_iff tr := by rw [hh, h.mem_iff]
  chained := by
    rw [hk]
    exact h.chained

theorem Tracked.step (h : K.Tracked J events s) (hm : K.Moves J s event t) :
    K.Tracked J (events ++ [event]) t := by
  cases hm with
  | idle hanon hC hT hunowned hfresh =>
    refine ⟨hC.readable h.currents, hT.readable h.transitions, fun i k hk => ?_⟩
    obtain ⟨transitions, hc⟩ := h.chain i k hk
    refine ⟨transitions, hc.other (by simp [hanon])
      (updates_nil_iff.mp hC k (K.ns_currentKey hk)) fun tr => ?_⟩
    rw [holds_iff hT hfresh]
    constructor
    · rintro (hs | ⟨ho, hr⟩)
      · exact hs
      · rw [hunowned tr hr] at ho
        cases ho
    · exact .inl
  | @written i k current bytes tr hi hk hkc hb _ hC hT ho hfresh he hp hr =>
    refine ⟨hC.readable h.currents, hT.readable h.transitions, fun i' k' hk' => ?_⟩
    obtain ⟨transitions, hc⟩ := h.chain i' k' hk'
    have hholds : ∀ tr', K.Holds J t i' tr' ↔
        K.Holds J s i' tr' ∨ K.owner tr' = some i' ∧ tr' = tr := fun tr' => by
      rw [holds_iff hT (by simpa using hfresh), List.mem_singleton]
    by_cases hii : i' = i
    · -- the event's own subject: its chain grows by the new transition
      subst hii
      obtain rfl := ok_unique hk hk'
      refine ⟨transitions ++ [tr], ?_, fun tr' => ?_, ?_⟩
      · rw [Subjects.about_concat_of_eq hi, List.map_append, List.map_append, hc.events]
        exact congrArg (_ ++ [·]) he
      · rw [List.mem_append, hc.mem_iff, hholds, List.mem_singleton]
        exact or_congr_right ⟨fun h => ⟨h ▸ ho, h⟩, And.right⟩
      · obtain ⟨k'', bytes', hk'', hb', ht⟩ := hC.written current (by simp)
        obtain rfl := ok_unique hk'' hkc
        obtain rfl := ok_unique hb' hb
        rw [ht, Option.map_some, ← hr]
        exact hc.chained.concat hp
    · have hne : k' ≠ k := fun hkk => hii (K.currentKey_inj hk' (hkk ▸ hk))
      refine ⟨transitions, hc.other ?_ ?_ fun tr' => ?_⟩
      · rw [hi]
        exact fun h => hii (Option.some.inj h).symm
      · refine hC.frame k' (K.ns_currentKey hk') ?_
        simp only [List.mem_singleton, forall_eq, hkc]
        exact fun h => hne (ok.inj h).symm
      · rw [hholds]
        constructor
        · rintro (hs | ⟨ho', rfl⟩)
          · exact hs
          · exact absurd (Option.mem_unique ho' ho) hii
        · exact .inl

end Tracking

end AlphaDesk
