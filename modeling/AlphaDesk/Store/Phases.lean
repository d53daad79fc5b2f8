import AlphaDesk.Store.Commit

/-! # The phases of a commit

However an attempt is interrupted, it leaves the store in one of three phases:
nothing published, a generation published that `HEAD` does not name, or `HEAD`
moved to the new generation. In the first two the image that `HEAD` names is the
one it named before.
-/

namespace AlphaDesk

open Bytes Interruptible FileOp Option

variable {op : FileOp}

variable {name generation : String} {bytes : List UInt8} {r s s' : Root}

/-- Only the staged directory of this name may differ, and the staged `HEAD`. -/
structure Root.Keeps (name : String) (r s : Root) : Prop where
  head : s.head = r.head
  directories : ∀ d, d ≠ name → s.directories d = r.directories d

/-- The generation, absent before, holds all of its files. -/
structure Root.Publishes (name generation : String) (bytes : List UInt8) (r s : Root) : Prop where
  absent : r.directories generation = none
  complete : s.directories generation = some (.complete bytes)
  directories : ∀ d, d ≠ name → d ≠ generation → s.directories d = r.directories d

theorem Root.Keeps.refl (name : String) (r : Root) : r.Keeps name r := ⟨rfl, fun _ _ => rfl⟩

theorem Root.Keeps.setDirectory (h : r.Keeps name s) (d : Option Directory) :
    r.Keeps name (s.setDirectory name d) := by
  refine ⟨h.head, fun g hg => ?_⟩
  rw [Root.setDirectory_of_ne _ hg, h.directories g hg]

theorem Root.Keeps.dropStaged (h : r.Keeps name s) (k : Cleanup) :
    r.Keeps name (s.dropStaged k name) := by
  unfold Root.dropStaged
  split
  next => exact h
  next => exact h.setDirectory _

theorem Root.Keeps.abandon (h : r.Keeps name s) (k : Cleanup) (op : FileOp) :
    r.Keeps name (abandon k name op s) := by
  unfold AlphaDesk.abandon
  split
  · exact h.dropStaged k
  · exact h

theorem keeps_apply (hop : op ∈ stagingOps name bytes) (hs : r.Keeps name s)
    (h : op.apply s = some s') : r.Keeps name s' := by
  simp only [stagingOps, createOps, writeFileOps, List.mem_append, List.mem_cons,
    List.not_mem_nil, or_false] at hop
  have hcreate : ∀ file, (createFile name file).apply s = some s' → r.Keeps name s' := by
    intro file h
    obtain ⟨d, -, h⟩ := bind_eq_some_iff.mp h
    split at h
    · cases h
    · exact some.inj h ▸ hs.setDirectory _
  have hwrite : ∀ file b, (writeFile name file b).apply s = some s' → r.Keeps name s' := by
    intro file b h
    obtain ⟨d, -, h⟩ := bind_eq_some_iff.mp h
    exact some.inj h ▸ hs.setDirectory _
  have hmake : (makeDirectory name).apply s = some s' → r.Keeps name s' := by
    intro h
    simp only [apply] at h
    split at h
    · cases h
    · exact some.inj h ▸ hs.setDirectory _
  have hsame : s = s' → r.Keeps name s' := fun h => h ▸ hs
  rcases hop with (((rfl | rfl | rfl) | (rfl | rfl | rfl | rfl)) | (rfl | rfl | rfl | rfl)) | rfl
  · exact hmake h
  · exact hsame (some.inj h)
  · exact hsame (some.inj h)
  · exact hcreate _ h
  · exact hsame (some.inj h)
  · exact hwrite _ _ h
  · exact hsame (some.inj h)
  · exact hcreate _ h
  · exact hsame (some.inj h)
  · exact hwrite _ _ h
  · exact hsame (some.inj h)
  · exact hsame (some.inj h)

theorem stagingOps_run (bytes : List UInt8) (hfree : r.directories name = none) :
    (stagingOps name bytes).foldlM (fun s op => apply op s) r =
      some (r.setDirectory name (some (.complete bytes))) := by
  simp [stagingOps, createOps, writeFileOps, apply, hfree, Root.setDirectory,
    Directory.get, Directory.set, Directory.empty, Directory.complete]

theorem stageHeadOps_run (generation : String) (r : Root) :
    (stageHeadOps generation).foldlM (fun s op => apply op s) r =
      some { r with stagedHead := some (utf8 generation) } := by
  simp [stageHeadOps, apply]

theorem stageHeadOps_keeps (hop : op ∈ stageHeadOps generation) (h : op.apply s = some s') :
    s'.head = s.head ∧ s'.directories = s.directories := by
  simp only [stageHeadOps, List.mem_cons, List.not_mem_nil, or_false] at hop
  rcases hop with rfl | rfl | rfl | rfl <;> exact some.inj h ▸ ⟨rfl, rfl⟩

theorem apply_publish (hne : generation ≠ name) (hs : r.Keeps name s)
    (hstaged : s.directories name = some (.complete bytes)) :
    ((publish name generation).apply s = none ∧ (r.directories generation).isSome) ∨
    ∃ s', (publish name generation).apply s = some s' ∧
      r.Publishes name generation bytes s' ∧ s'.head = r.head := by
  simp only [apply, hs.directories generation hne]
  cases hg : r.directories generation with
  | some d => exact .inl ⟨rfl, rfl⟩
  | none =>
    refine .inr ⟨(s.setDirectory name none).setDirectory generation (some (.complete bytes)),
      by simp [hstaged], ⟨hg, Root.setDirectory_self .., fun d hn hd => ?_⟩, hs.head⟩
    rw [Root.setDirectory_of_ne _ hd, Root.setDirectory_of_ne _ hn, hs.directories d hn]

/-- Nothing was published: the sequence was cut short, or the generation was already there. -/
structure Unpublished (name generation : String) (r : Root) (budget : Option ℕ)
    (t : Trace Root FileOp) : Prop where
  keeps : r.Keeps name t.state
  performed : ∀ other g, .publish other g ∉ t.performed
  not_headed : .publishHead ∉ t.performed
  ending : (∃ op, t.ending = .interrupted op ∧ budget.isSome) ∨
    (t.ending = .refused (.publish name generation) ∧ (r.directories generation).isSome)

/-- The generation was published, but `HEAD` was not moved. -/
structure Orphaned (name generation : String) (bytes : List UInt8) (r : Root)
    (budget : Option ℕ) (t : Trace Root FileOp) : Prop where
  publishes : r.Publishes name generation bytes t.state
  head : t.state.head = r.head
  performed : .publish name generation ∈ t.performed
  not_headed : .publishHead ∉ t.performed
  ending : ∃ op, t.ending = .interrupted op ∧ op.ownsStaged = false ∧ budget.isSome

/-- `HEAD` was moved to the published generation. -/
structure Headed (name generation : String) (bytes : List UInt8) (r : Root)
    (budget : Option ℕ) (t : Trace Root FileOp) : Prop where
  publishes : r.Publishes name generation bytes t.state
  head : t.state.head = some (utf8 generation)
  performed : .publish name generation ∈ t.performed
  headed : .publishHead ∈ t.performed
  ending : t.ending = .finished ∨
    ∃ op, t.ending = .interrupted op ∧ op.ownsStaged = false ∧ budget.isSome

theorem not_mem_stagingOps (h : op ∈ stagingOps name bytes) :
    (∀ other g, op ≠ .publish other g) ∧ op ≠ .publishHead := by
  simp only [stagingOps, createOps, writeFileOps, List.mem_append, List.mem_cons,
    List.not_mem_nil, or_false] at h
  constructor
  · rintro other g rfl
    simp at h
  · rintro rfl
    simp at h

theorem not_mem_stageHeadOps (h : op ∈ stageHeadOps generation) :
    op ≠ .publishHead ∧ op.ownsStaged = false := by
  simp only [stageHeadOps, List.mem_cons, List.not_mem_nil, or_false] at h
  rcases h with rfl | rfl | rfl | rfl <;> exact ⟨nofun, rfl⟩

theorem exec_moveHead (generation : String) (budget : Option ℕ) (s : Root) :
    ∃ t, exec apply budget (stageHeadOps generation ++ [.publishHead, .syncRoot]) s = t ∧
      t.state.directories = s.directories ∧
      ((t.state.head = s.head ∧ .publishHead ∉ t.performed ∧
        ∃ op, t.ending = .interrupted op ∧ op.ownsStaged = false ∧ budget.isSome) ∨
      (t.state.head = some (utf8 generation) ∧ .publishHead ∈ t.performed ∧
        (t.ending = .finished ∨
          ∃ op, t.ending = .interrupted op ∧ op.ownsStaged = false ∧ budget.isSome))) := by
  have hstep : ∀ op ∈ stageHeadOps generation, ∀ a b : Root,
      a.head = s.head ∧ a.directories = s.directories → op.apply a = some b →
      b.head = s.head ∧ b.directories = s.directories := by
    intro op hop a b ha hab
    obtain ⟨h₁, h₂⟩ := stageHeadOps_keeps hop hab
    exact ⟨h₁.trans ha.1, h₂.trans ha.2⟩
  have hkeep := exec_invariant hstep budget ⟨rfl, rfl⟩
  rcases exec_total (stageHeadOps_run generation s) budget with
    ⟨op, hop, done, hpre, hlt, hb, hend, hperf⟩ | ⟨hfin, hlen⟩
  · rw [hb, exec_append_of_lt _ hlt, ← hb]
    refine ⟨_, rfl, hkeep.2, .inl ⟨hkeep.1, ?_, op, hend, (not_mem_stageHeadOps hop).2,
      by simp [hb]⟩⟩
    rw [hperf]
    exact fun hm => (not_mem_stageHeadOps (hpre.subset hm)).1 rfl
  · rw [exec_append hfin]
    have hnot : .publishHead ∉ stageHeadOps generation := fun hm => (not_mem_stageHeadOps hm).1 rfl
    generalize hrest : budget.map (· - (stageHeadOps generation).length) = rest
    have hsome : rest.isSome → budget.isSome := by
      rw [← hrest]
      simp
    -- what is left of the budget ends the run at one of the two operations, or at neither
    rcases rest with - | (- | (- | n))
    · exact ⟨_, rfl, rfl, .inr ⟨rfl, List.mem_append_right _ (.head _), .inl rfl⟩⟩
    · exact ⟨_, rfl, rfl, .inl ⟨rfl, by simpa [Trace.after] using hnot, _, rfl, rfl, hsome rfl⟩⟩
    · exact ⟨_, rfl, rfl, .inr ⟨rfl, List.mem_append_right _ (.head _),
        .inr ⟨_, rfl, rfl, hsome rfl⟩⟩⟩
    · exact ⟨_, rfl, rfl, .inr ⟨rfl, List.mem_append_right _ (.head _), .inl rfl⟩⟩

theorem exec_commitOps (bytes : List UInt8) (hfree : r.directories name = none)
    (hne : generation ≠ name) (budget : Option ℕ) :
    ∃ t, exec apply budget (commitOps name generation bytes) r = t ∧
      (Unpublished name generation r budget t ∨ Orphaned name generation bytes r budget t ∨
        Headed name generation bytes r budget t) := by
  have hstep : ∀ op ∈ stagingOps name bytes, ∀ a b, r.Keeps name a → op.apply a = some b →
      r.Keeps name b := fun op hop a b ha hab => keeps_apply hop ha hab
  have hkeep := exec_invariant hstep budget (Root.Keeps.refl name r)
  unfold commitOps
  rcases exec_total (stagingOps_run bytes hfree) budget with
    ⟨op, hop, done, hpre, hlt, hb, hend, hperf⟩ | ⟨hfin, hlen⟩
  · -- cut short while the generation is being staged
    rw [hb, exec_append_of_lt _ hlt, ← hb]
    refine ⟨_, rfl, .inl ⟨hkeep, ?_, ?_, .inl ⟨op, hend, by simp [hb]⟩⟩⟩
    · intro other g hm
      rw [hperf] at hm
      exact (not_mem_stagingOps (hpre.subset hm)).1 other g rfl
    · rw [hperf]
      exact fun hm => (not_mem_stagingOps (hpre.subset hm)).2 rfl
  · rw [exec_append hfin]
    rw [hfin] at hkeep
    have hstate : ∀ other g, publish other g ∉ stagingOps name bytes :=
      fun other g hm => (not_mem_stagingOps hm).1 other g rfl
    have hhead : publishHead ∉ stagingOps name bytes :=
      fun hm => (not_mem_stagingOps hm).2 rfl
    generalize hrest : budget.map (· - (stagingOps name bytes).length) = rest
    have hsome : rest.isSome → budget.isSome := by
      rw [← hrest]
      simp
    by_cases hz : rest = some 0
    · -- cut short at the publication itself
      subst hz
      exact ⟨_, rfl, .inl ⟨hkeep, by simpa [Trace.after] using hstate,
        by simpa [Trace.after] using hhead, .inl ⟨_, rfl, hsome rfl⟩⟩⟩
    · rw [exec_cons hz]
      rcases apply_publish hne hkeep (Root.setDirectory_self ..) with
        ⟨happ, hg⟩ | ⟨s, happ, hpub, hs⟩
      · rw [happ]
        exact ⟨_, rfl, .inl ⟨hkeep, by simpa [Trace.after] using hstate,
          by simpa [Trace.after] using hhead, .inr ⟨rfl, hg⟩⟩⟩
      · rw [happ]
        obtain ⟨t, ht, hdir, hphase⟩ :=
          exec_moveHead generation (rest.map Nat.pred) s
        have hpub' : r.Publishes name generation bytes t.state :=
          ⟨hpub.absent, by rw [hdir]; exact hpub.complete, by rw [hdir]; exact hpub.directories⟩
        have hbud : (rest.map Nat.pred).isSome → budget.isSome := by simpa using hsome
        simp only [ht]
        refine ⟨_, rfl, .inr ?_⟩
        rcases hphase with ⟨hh, hn, op, hop, howns, hb⟩ | ⟨hh, hm, hend⟩
        · exact .inl ⟨hpub', hh.trans hs, by simp [Trace.after],
            by simpa [Trace.after, hhead] using hn, op, hop, howns, hbud hb⟩
        · refine .inr ⟨hpub', hh, by simp [Trace.after], by simp [Trace.after, hm],
            hend.imp_right ?_⟩
          rintro ⟨op, h₁, h₂, h₃⟩
          exact ⟨op, h₁, h₂, hbud h₃⟩

variable {B : Blake3} {c : AtomicStateCommit B} {env : Environment} {receipt : StateCommitReceipt}
  {t : Trace Root FileOp} {budget : Option ℕ}

theorem allocate_eq_ok {draws : List (Option (Vector UInt8 16))} (h : allocate r draws = .ok name) :
    r.directories name = none ∧ ∃ random, name = stagingName random := by
  induction draws with
  | nil => cases h
  | cons draw draws ih =>
    cases draw with
    | none => cases h
    | some random =>
      simp only [allocate] at h
      split at h
      next => exact ih h
      next hfree => exact Except.ok.inj h ▸ ⟨by simpa using hfree, random, rfl⟩

theorem generation_ne_stagingName (c : AtomicStateCommit B) (random : Vector UInt8 16) :
    c.generation ≠ stagingName random :=
  ne_stagingName (validGenerationName_generationName _) random

@[simp] theorem conclude_performed : (conclude env name receipt t).performed = t.performed := by
  unfold conclude
  split
  · rfl
  · rfl
  · split <;> rfl

theorem Unpublished.conclude (h : Unpublished name generation r budget t) (env : Environment)
    (receipt : StateCommitReceipt) :
    r.Keeps name (conclude env name receipt t).root ∧
      ∀ d, (conclude env name receipt t).result ≠ some (.ok d) := by
  unfold AlphaDesk.conclude
  rcases h.ending with ⟨op, hend, -⟩ | ⟨hend, -⟩
  · rw [hend]
    dsimp only
    split
    · exact ⟨h.keeps.abandon _ _, nofun⟩
    · exact ⟨h.keeps, nofun⟩
  · rw [hend]
    dsimp only
    exact ⟨h.keeps.abandon _ _, nofun⟩

theorem conclude_interrupted (hend : t.ending = .interrupted op) (hop : op.ownsStaged = false)
    (env : Environment) (name : String) (receipt : StateCommitReceipt) :
    (conclude env name receipt t).root = t.state ∧
      ∀ d, (conclude env name receipt t).result ≠ some (.ok d) := by
  unfold conclude
  rw [hend]
  dsimp only
  split
  · exact ⟨by simp [abandon, hop], nofun⟩
  · exact ⟨rfl, nofun⟩

theorem conclude_finished (hend : t.ending = .finished) :
    conclude env name receipt t = ⟨some (.ok (.committed receipt)), t.performed, t.state⟩ := by
  unfold conclude
  rw [hend]

theorem Headed.conclude {bytes : List UInt8} (h : Headed name generation bytes r budget t)
    (env : Environment) (receipt : StateCommitReceipt) :
    (conclude env name receipt t).root = t.state ∧
      (budget = none → (conclude env name receipt t).result = some (.ok (.committed receipt))) := by
  rcases h.ending with hend | ⟨op, hend, hop, hb⟩
  · rw [conclude_finished hend]
    exact ⟨rfl, fun _ => rfl⟩
  · refine ⟨(conclude_interrupted hend hop env name receipt).1, ?_⟩
    rintro rfl
    cases hb

theorem commit_cases (limits : StateImageLimits) (env : Environment) (r : Root)
    (c : AtomicStateCommit B) :
    (∃ e, checkCommit limits r c = .error e ∧ commit limits env r c = .refuse e r) ∨
    (checkCommit limits r c = .ok .alreadyCommitted ∧
      commit limits env r c = ⟨some (.ok (.alreadyCommitted c.receipt)), [], r⟩) ∨
    (checkCommit limits r c = .ok .publish ∧
      ((∃ e, allocate r env.draws.toList = .error e ∧ commit limits env r c = .refuse e r) ∨
      ∃ random t, allocate r env.draws.toList = .ok (stagingName random) ∧
        commit limits env r c = conclude env (stagingName random) c.receipt t ∧
        (Unpublished (stagingName random) c.generation r (env.interruption.map (·.done)) t ∨
        Orphaned (stagingName random) c.generation c.bytes r (env.interruption.map (·.done)) t ∨
        Headed (stagingName random) c.generation c.bytes r
          (env.interruption.map (·.done)) t))) := by
  unfold commit
  cases hcheck : checkCommit limits r c with
  | error e => exact .inl ⟨e, rfl, rfl⟩
  | ok a =>
    cases a with
    | alreadyCommitted => exact .inr (.inl ⟨rfl, rfl⟩)
    | publish =>
      refine .inr (.inr ⟨rfl, ?_⟩)
      cases halloc : allocate r env.draws.toList with
      | error e => exact .inl ⟨e, rfl, rfl⟩
      | ok name =>
        obtain ⟨hfree, random, rfl⟩ := allocate_eq_ok halloc
        obtain ⟨t, ht, hphase⟩ := exec_commitOps c.bytes hfree
          (generation_ne_stagingName c random) (env.interruption.map (·.done))
        exact .inr ⟨random, t, rfl, by rw [← ht], hphase⟩

end AlphaDesk
