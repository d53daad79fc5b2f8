import AlphaDesk.Events.Evidence
import AlphaDesk.Foundation.Fallible

/-! # Cluster memberships

An account belongs to an entity from the time at which a version of its membership became
known to the time at which that version was superseded. A new version closes the open one of
its account. Versions that arrive open follow each other without overlap.
-/

namespace AlphaDesk

open Except Function

inductive GraphError
  | emptyIdentifier (field : String)
  | malformed (what reason : String)
  | conflictingLink (reason : String)

/-- The part of a version on which its place in the history depends. -/
structure ClusterMembershipVersion where
  clusterVersionId : StringId
  entityId : StringId
  member : StringId
  knownAt : KnownTime
  supersededAt : Option KnownTime

namespace EntityGraph

/-- The memberships of a graph, the newest first. -/
abbrev Memberships := List ClusterMembershipVersion

/-- Close the newest open version of the account of a new version. -/
def supersede (membership : ClusterMembershipVersion) :
    Memberships → Except GraphError Memberships
  | [] => .ok []
  | existing :: older =>
    if existing.member = membership.member ∧ existing.supersededAt = none then
      if existing.entityId ≠ membership.entityId then
        .error (.conflictingLink "account already belongs to another entity")
      else if membership.knownAt.unixMicros ≤ existing.knownAt.unixMicros then
        .error (.malformed "cluster_membership" "new version must not rewrite prior known_at")
      else .ok ({ existing with supersededAt := some membership.knownAt } :: older)
    else (supersede membership older).map (existing :: ·)

def appendMembership (memberships : Memberships) (membership : ClusterMembershipVersion) :
    Except GraphError Memberships :=
  if membership.clusterVersionId.value.isEmpty then .error (.emptyIdentifier "cluster_version_id")
  else (supersede membership memberships).map (membership :: ·)

/-- A version is known at a time and not superseded at or before it. -/
def visibleAt (k : ℕ) (v : ClusterMembershipVersion) : Bool :=
  v.knownAt.unixMicros ≤ k && v.supersededAt.all (k < ·.unixMicros)

/-- No two versions of an account are visible at one time. -/
def OneVisible (vs : Memberships) : Prop :=
  ∀ k, vs.Pairwise fun w v => v.member = w.member → ¬(visibleAt k w = true ∧ visibleAt k v = true)

/-- Each version ends when the one behind it of its account became known, the newest one when
`next` says. -/
def Chained (next : StringId → Option KnownTime) : Memberships → Prop
  | [] => True
  | v :: older => v.supersededAt = next v.member ∧
    (∀ t ∈ next v.member, v.knownAt.unixMicros < t.unixMicros) ∧
    Chained (update next v.member (some v.knownAt)) older

variable {membership v : ClusterMembershipVersion} {vs vs' : Memberships} {k : ℕ}
  {next : StringId → Option KnownTime}

theorem Chained.supersede (hnext : next membership.member = none) (h : Chained next vs)
    (hok : supersede membership vs = .ok vs') :
    Chained (update next membership.member (some membership.knownAt)) vs' := by
  induction vs generalizing next vs' with
  | nil =>
    obtain rfl := ok.inj hok
    trivial
  | cons existing older ih =>
    obtain ⟨hend, hlt, hrest⟩ := h
    rw [EntityGraph.supersede] at hok
    by_cases hmember : existing.member = membership.member
    · rw [if_pos ⟨hmember, by rw [hend, hmember, hnext]⟩, ite_error_eq_ok, ite_error_eq_ok] at hok
      obtain ⟨-, hknown, hok⟩ := hok
      obtain rfl := ok.inj hok
      simp only [← hmember, Chained, update_self, update_idem]
      exact ⟨trivial, fun t ht => Option.some.inj ht ▸ not_le.mp hknown, hrest⟩
    · rw [if_neg fun h => hmember h.1, map_eq_ok] at hok
      obtain ⟨closed, hclosed, rfl⟩ := hok
      refine ⟨by rw [update_of_ne hmember, hend], by rwa [update_of_ne hmember], ?_⟩
      rw [update_comm (Ne.symm hmember)]
      exact ih (by rw [update_of_ne (Ne.symm hmember), hnext]) hrest hclosed

theorem Chained.lt_of_visibleAt (h : Chained next vs) (hv : v ∈ vs) (hk : visibleAt k v = true)
    {t : KnownTime} (ht : next v.member = some t) : k < t.unixMicros := by
  induction vs generalizing next t with
  | nil => cases hv
  | cons w older ih =>
    obtain ⟨hend, hlt, hrest⟩ := h
    rcases List.mem_cons.mp hv with rfl | hv
    · rw [visibleAt, hend, ht] at hk
      simp at hk
      exact hk.2
    · by_cases hmember : v.member = w.member
      · exact (ih hrest hv (by rw [hmember, update_self])).trans (hlt t (hmember ▸ ht))
      · exact ih hrest hv (by rw [update_of_ne hmember, ht])

theorem Chained.oneVisible (h : Chained next vs) : OneVisible vs := by
  intro k
  induction vs generalizing next with
  | nil => exact .nil
  | cons w older ih =>
    obtain ⟨-, -, hrest⟩ := h
    refine .cons (fun v hv hmember ⟨hw, hk⟩ => ?_) (ih hrest)
    have hlt := hrest.lt_of_visibleAt hv hk (by rw [hmember, update_self])
    simp only [visibleAt, Bool.and_eq_true, decide_eq_true_eq] at hw
    exact absurd hw.1 (not_le.mpr hlt)

theorem visibleAt_supersede (hok : supersede membership vs = .ok vs')
    (hk : k < membership.knownAt.unixMicros) : vs'.map (visibleAt k) = vs.map (visibleAt k) := by
  induction vs generalizing vs' with
  | nil => rw [← ok.inj hok]
  | cons existing older ih =>
    rw [supersede] at hok
    split at hok
    next hopen =>
      rw [ite_error_eq_ok, ite_error_eq_ok] at hok
      rw [← ok.inj hok.2.2]
      simp [visibleAt, hopen.2, hk]
    next =>
      obtain ⟨closed, hclosed, rfl⟩ := map_eq_ok.mp hok
      rw [List.map_cons, List.map_cons, ih hclosed]

/-- A history of versions that arrive open has one visible version of each account at a time,
and a new version changes what is visible only from the time at which it is known. -/
theorem one_owner_at_a_time {memberships : Memberships}
    (h : vs.foldlM appendMembership [] = .ok memberships) :
    ((∀ v ∈ vs, v.supersededAt = none) → OneVisible memberships) ∧
    ∀ membership memberships', appendMembership memberships membership = .ok memberships' →
      ∀ k < membership.knownAt.unixMicros,
        memberships'.map (visibleAt k) = false :: memberships.map (visibleAt k) := by
  constructor
  · intro hopen
    refine (foldlM_invariant (b := []) (Chained fun _ => none) ?_ trivial h).oneVisible
    intro memberships membership memberships' hmem hchained hok
    obtain ⟨older, hclosed, rfl⟩ := map_eq_ok.mp (of_check hok).2
    exact ⟨hopen membership hmem, nofun, hchained.supersede rfl hclosed⟩
  · intro membership memberships' hok k hk
    obtain ⟨older, hclosed, rfl⟩ := map_eq_ok.mp (of_check hok).2
    rw [List.map_cons, visibleAt_supersede hclosed hk]
    simp [visibleAt, hk]

def sampleEntity : StringId := ⟨"fund", by decide⟩

def otherEntity : StringId := ⟨"vault", by decide⟩

def sampleVersion (entity : StringId) (knownAt : KnownTime) (supersededAt : Option KnownTime) :
    ClusterMembershipVersion :=
  ⟨sampleEntity, entity, sampleEntity, knownAt, supersededAt⟩

def sampleVersions : Memberships :=
  [sampleVersion sampleEntity 10 none, sampleVersion sampleEntity 20 none]

theorem one_owner_at_a_time_sample : ∃ memberships,
    sampleVersions.foldlM appendMembership [] = .ok memberships ∧ OneVisible memberships := by
  refine ⟨_, rfl, (one_owner_at_a_time (Eq.refl (sampleVersions.foldlM _ _))).1 ?_⟩
  simp [sampleVersions, sampleVersion]

/-- A version that arrives closed does not stop one of another entity. -/
theorem two_owners : ∃ memberships,
    [sampleVersion sampleEntity 10 (some 100), sampleVersion otherEntity 20 none].foldlM
      appendMembership [] = .ok memberships ∧ ¬OneVisible memberships :=
  ⟨_, rfl, fun h => absurd (h 50) (by decide)⟩

end EntityGraph

end AlphaDesk
