import AlphaDesk.Capture.Tailing

/-! # What the committed cursor of a line source covers

Emitted lines are acknowledged in their order, a line in quarantine is acknowledged by
itself, and this may happen while emitted lines before it still wait: the cursor then
covers them too. As long as none waits, the cursor covers acknowledged lines only and
does not move back, and a source that resumes there goes on with the next line.
-/

namespace AlphaDesk

open Except NodeLineFileSource List SourceCursor

variable {B : Blake3} {parse : List UInt8 → Except SourceError ObservationClass}
  {received : Except SourceError ReceiveTimestamps} {check : Except SourceError Unit}

theorem openNodeFile_append {file : NodeFile} {name : String} {max : ℕ} {active : OpenNodeFile}
    (h : openNodeFile B [file] name max = .ok active) (bytes : List UInt8) :
    openNodeFile B [{ file with content := file.content ++ bytes }] name max = .ok active := by
  revert h
  rw [openNodeFile, openNodeFile]
  dsimp only [getLast?_singleton]
  cases hread : readLine file.content 0 max with
  | error => rintro ⟨⟩
  | ok state =>
    rcases state with ⟨line, endOffset⟩ | _ | _
    · obtain ⟨tail, hdrop, hline⟩ := readLine_complete.mp hread
      have hread' : readLine (file.content ++ bytes) 0 max = .ok (.complete line endOffset) := by
        refine readLine_complete.mpr ⟨tail ++ bytes, ?_, hline⟩
        rw [UInt64.toNat_zero, drop_zero] at hdrop ⊢
        simp [hdrop]
      rw [hread']
      exact id
    · rintro ⟨⟩
    · rintro ⟨⟩

variable {content line : List UInt8} {source source' : NodeLineFileSource} {cursor : SourceCursor}

def SourceCursor.place (cursor : SourceCursor) : String × ℕ := (cursor.epoch, cursor.offset.toNat)

def PendingQuarantine.view (pending : PendingQuarantine) : String × ℕ × List UInt8 :=
  (pending.cursor.epoch, pending.cursor.offset.toNat, pending.payload)

namespace NodeLineFileSource

theorem SameFile.trans {source'' : NodeLineFileSource} (h : SameFile source source')
    (h' : SameFile source' source'') : SameFile source source'' :=
  ⟨h'.active.trans h.active, h'.config.trans h.config⟩

/-- The line that a round has returned or put into quarantine. -/
def newlyReported (source source' : NodeLineFileSource) (observation : Option SourceObservation) :
    List (String × ℕ × List UInt8) :=
  observation.toList.map SourceObservation.view ++
    if source.pendingQuarantine.isNone then
      source'.pendingQuarantine.toList.map PendingQuarantine.view
    else []

/-- The end of the last line that was reported. -/
def position (source : NodeLineFileSource) : UInt64 :=
  source.pendingQuarantine.elim source.readOffset (·.cursor.offset)

/-- The cursors of the lines that are not acknowledged yet. -/
def waiting (source : NodeLineFileSource) : List SourceCursor :=
  source.pendingEmittedCursors ++ (source.pendingQuarantine.map (·.cursor)).toList

/-- The source has reported the next line, and the line waits. -/
structure Reported (content : List UInt8) (source source' : NodeLineFileSource)
    (cursor : SourceCursor) (line : List UInt8) : Prop
    extends NextLine content source cursor line where
  position_eq : source.position = source.readOffset
  position : source'.position = cursor.offset
  waiting : source'.waiting = source.waiting ++ [cursor]

/-- What a round may come to: nothing is reported, or the next line. -/
def Rounds (content : List UInt8) (source source' : NodeLineFileSource)
    (reported : List (String × ℕ × List UInt8)) : Prop :=
  SameFile source source' ∧ source'.durableCursor = source.durableCursor ∧
    ((reported = [] ∧ source'.position = source.position ∧ source'.waiting = source.waiting) ∨
    ∃ cursor line, Reported content source source' cursor line ∧
      reported = [(cursor.epoch, cursor.offset.toNat, line)])

theorem Handled.rounds {observation : Option SourceObservation}
    (h : Handled content source observation source') :
    Rounds content source source' (newlyReported source source' observation) := by
  cases h with
  | quiet =>
    refine ⟨⟨rfl, rfl⟩, rfl, .inl ⟨?_, rfl, rfl⟩⟩
    cases h : source.pendingQuarantine <;> simp [newlyReported, h]
  | emitted observation hnone hline =>
    refine ⟨⟨rfl, rfl⟩, rfl, .inr ⟨_, _, ⟨hline, ?_, ?_, ?_⟩, ?_⟩⟩
    · simp [position, hnone]
    · simp [position, hnone]
    · simp [waiting, hnone]
    · simp [newlyReported, hnone, SourceObservation.view]
  | quarantined pending hnone hline =>
    refine ⟨⟨rfl, rfl⟩, rfl, .inr ⟨_, _, ⟨hline, ?_, rfl, ?_⟩, ?_⟩⟩
    · simp [position, hnone]
    · simp [waiting, hnone]
    · simp [newlyReported, hnone, PendingQuarantine.view]

theorem acknowledgeDurable_eq_ok (h : source.acknowledgeDurable cursor = .ok source') :
    SameFile source source' ∧ source'.durableCursor = some cursor ∧
      source'.position = source.position ∧ source.waiting = cursor :: source'.waiting := by
  obtain ⟨hhead, h⟩ := ite_else_error_eq_ok.mp h
  obtain rfl := ok.inj h
  obtain ⟨rest, hpending⟩ := head?_eq_some_iff.mp hhead
  exact ⟨⟨rfl, rfl⟩, rfl, rfl, by simp [waiting, hpending]⟩

theorem acknowledgeQuarantineDurable_eq_ok
    (h : source.acknowledgeQuarantineDurable cursor = .ok source') :
    SameFile source source' ∧ source'.durableCursor = some cursor ∧
      source'.position = source.position ∧
      (source.pendingEmittedCursors = [] → source.waiting = cursor :: source'.waiting) := by
  revert h
  fun_cases acknowledgeQuarantineDurable source cursor with
  | case2 pending hpending heq =>
    rintro ⟨⟩
    exact ⟨⟨rfl, rfl⟩, rfl, by simp [position, hpending, heq],
      fun hnone => by simp [waiting, hpending, hnone, heq]⟩
  | _ => rintro ⟨⟩

/-- What a line needs to be reported: nothing in quarantine, a place in flight, a line and an offset
within their limits, and a parser that accepts the line or puts it into quarantine. -/
structure Ready (parse : List UInt8 → Except SourceError ObservationClass)
    (source : NodeLineFileSource) (line : String × ℕ × List UInt8) : Prop where
  settled : source.pendingQuarantine = none
  room : source.pendingEmittedCursors.length < source.config.maxInflightObservations
  offset_lt : line.2.1 < 2 ^ 64
  length_le : line.2.2.length ≤ source.config.maxPayloadBytes
  parsed : ∀ e, parse line.2.2 = .error e → e.isQuarantined = true

end NodeLineFileSource

/-- A file that grows, its source, the lines that were emitted or put into quarantine, and the
cursors that were acknowledged. -/
structure LineReading where
  file : NodeFile
  source : NodeLineFileSource
  reported : List (String × ℕ × List UInt8)
  acknowledged : List SourceCursor

/-- What the node and the caller do. A call of `next_observation` is a round or more. -/
inductive LineCall
  | append (bytes : List UInt8)
  | nextObservation (received : Except SourceError ReceiveTimestamps)
    (check : Except SourceError Unit)
  | acknowledgeDurable (cursor : SourceCursor)
  | acknowledgeQuarantineDurable (cursor : SourceCursor)

namespace LineReading

variable {s s' : LineReading} {file : NodeFile} {opened : NodeLineFileSource}
  {config : NodeFileConfig} {initial : Option SourceCursor} {call : LineCall}
  {calls : List LineCall}

def acknowledge (s : LineReading) (cursor : SourceCursor)
    (result : Except SourceError NodeLineFileSource) : LineReading :=
  match result with
  | .ok source => { s with source, acknowledged := s.acknowledged ++ [cursor] }
  | .error _ => s

def step (parse : List UInt8 → Except SourceError ObservationClass) (s : LineReading) :
    LineCall → LineReading
  | .append bytes => { s with file := { s.file with content := s.file.content ++ bytes } }
  | .nextObservation received check =>
    let round := s.source.readRound parse s.file.content received check
    { s with
      source := round.2.2
      reported := s.reported ++ s.source.newlyReported round.2.2 (round.1.bind Except.toOption) }
  | .acknowledgeDurable cursor => s.acknowledge cursor (s.source.acknowledgeDurable cursor)
  | .acknowledgeQuarantineDurable cursor =>
    s.acknowledge cursor (s.source.acknowledgeQuarantineDurable cursor)

def run (parse : List UInt8 → Except SourceError ObservationClass) (file : NodeFile)
    (source : NodeLineFileSource) : List LineCall → LineReading :=
  Run.final (step parse) ⟨file, source, [], []⟩

/-- A line in quarantine is acknowledged only when no emitted line waits. -/
def Settled (s : LineReading) : LineCall → Prop
  | .acknowledgeQuarantineDurable cursor =>
    (s.source.acknowledgeQuarantineDurable cursor).toOption.isSome →
      s.source.pendingEmittedCursors = []
  | _ => True

/-- What a step does: the node appends, a round ends, or a line is acknowledged, the first of
those that wait as long as the step is settled. -/
theorem step_cases (parse : List UInt8 → Except SourceError ObservationClass) (s : LineReading)
    (call : LineCall) :
    (∃ bytes, s.step parse call =
      { s with file := { s.file with content := s.file.content ++ bytes } }) ∨
    (∃ source reported, s.source.Rounds s.file.content source reported ∧
      s.step parse call = { s with source, reported := s.reported ++ reported }) ∨
    (∃ source cursor, SameFile s.source source ∧ source.durableCursor = some cursor ∧
      source.position = s.source.position ∧
      (s.Settled call → s.source.waiting = cursor :: source.waiting) ∧
      s.step parse call = { s with source, acknowledged := s.acknowledged ++ [cursor] }) ∨
    s.step parse call = s := by
  cases call with
  | append bytes => exact .inl ⟨bytes, rfl⟩
  | nextObservation received check => exact .inr (.inl ⟨_, _, readRound_handled.2.rounds, rfl⟩)
  | acknowledgeDurable cursor =>
    rw [step]
    cases hsource : s.source.acknowledgeDurable cursor with
    | error => exact .inr (.inr (.inr rfl))
    | ok source =>
      obtain ⟨hsame, hdurable, hposition, hwaiting⟩ := acknowledgeDurable_eq_ok hsource
      exact .inr (.inr (.inl ⟨source, cursor, hsame, hdurable, hposition, fun _ => hwaiting, rfl⟩))
  | acknowledgeQuarantineDurable cursor =>
    rw [step]
    cases hsource : s.source.acknowledgeQuarantineDurable cursor with
    | error => exact .inr (.inr (.inr rfl))
    | ok source =>
      obtain ⟨hsame, hdurable, hposition, hwaiting⟩ := acknowledgeQuarantineDurable_eq_ok hsource
      exact .inr (.inr (.inl ⟨source, cursor, hsame, hdurable, hposition,
        fun hsettled => hwaiting (hsettled (by rw [hsource]; rfl)), rfl⟩))

/-- The lines that were reported are those between the offset of the opening and the position. -/
structure Reads (B : Blake3) (opened : NodeLineFileSource) (s : LineReading) : Prop where
  same : SameFile opened s.source
  opens : openNodeFile B [s.file] opened.config.streamName opened.config.maxPayloadBytes =
    .ok opened.active
  started : s.file.AtLine opened.readOffset.toNat
  atLine : s.file.AtLine s.source.position.toNat
  start_le : opened.readOffset.toNat ≤ s.source.position.toNat
  reported : s.file.observed B opened.config.streamName s.source.position.toNat =
    s.file.observed B opened.config.streamName opened.readOffset.toNat ++ s.reported
  within : ∀ line ∈ s.reported, line.1 = opened.active.epoch ∧
    opened.readOffset.toNat < line.2.1 ∧ line.2.1 ≤ s.source.position.toNat ∧
    s.file.AtLine line.2.1
  increasing : s.reported.Pairwise (·.2.1 < ·.2.1)

/-- The lines that were reported have been acknowledged, in their order, or wait. -/
structure Accounts (opened : NodeLineFileSource) (s : LineReading) : Prop where
  reported : s.reported.map (fun line => (line.1, line.2.1)) =
    (s.acknowledged ++ s.source.waiting).map place
  durable : s.source.durableCursor = (opened.durableCursor.toList ++ s.acknowledged).getLast?

theorem Accounts.step (h : s.Accounts opened) (hsettled : s.Settled call) :
    (s.step parse call).Accounts opened := by
  obtain ⟨bytes, heq⟩ | ⟨source, reported, hrounds, heq⟩ |
    ⟨source, cursor, -, hdurable, -, hwaiting, heq⟩ | heq := step_cases parse s call
  · exact heq ▸ ⟨h.reported, h.durable⟩
  · rw [heq]
    obtain ⟨-, hdurable, ⟨rfl, -, hwaiting⟩ | ⟨cursor, line, hreported, rfl⟩⟩ := hrounds
    · exact ⟨by simpa [hwaiting] using h.reported, hdurable.trans h.durable⟩
    · refine ⟨?_, hdurable.trans h.durable⟩
      simp [h.reported, hreported.waiting, place]
  · rw [heq]
    refine ⟨?_, ?_⟩
    · simp [h.reported, hwaiting hsettled]
    · rw [hdurable, ← append_assoc, getLast?_concat]
  · rwa [heq]

theorem Reads.keep (h : s.Reads B opened) (hsame : SameFile opened source)
    (hposition : source.position = s.source.position) (acknowledged : List SourceCursor) :
    Reads B opened ⟨s.file, source, s.reported, acknowledged⟩ := by
  refine ⟨hsame, h.opens, h.started, ?_, ?_, ?_, ?_, h.increasing⟩ <;> simp only [hposition]
  · exact h.atLine
  · exact h.start_le
  · exact h.reported
  · exact h.within

theorem Reads.report {line : List UInt8} (h : s.Reads B opened) (hsame : SameFile opened source)
    (hreported : Reported s.file.content s.source source cursor line) :
    Reads B opened ⟨s.file, source,
      s.reported ++ [(cursor.epoch, cursor.offset.toNat, line)], s.acknowledged⟩ := by
  obtain ⟨file, hfile, -, hactive⟩ := openNodeFile_eq_ok h.opens
  obtain rfl : s.file = file := by simpa using hfile
  obtain ⟨tail, hdrop⟩ := hreported.behind
  have hoffset := hreported.offset
  rw [← hreported.position_eq] at hdrop hoffset
  have hepoch : cursor.epoch = opened.active.epoch := by rw [hreported.epoch, h.same.active]
  obtain ⟨hat, hobserved⟩ :=
    @NodeFile.AtLine.next _ B opened.config.streamName _ _ _ h.atLine hdrop hreported.complete
  rw [← hoffset] at hat hobserved
  refine ⟨hsame, h.opens, h.started, ?_, ?_, ?_, ?_, ?_⟩ <;> simp only [hreported.position]
  · exact hat
  · have := h.start_le
    omega
  · rw [hobserved, h.reported, append_assoc, hepoch, hactive]
  · intro line' hline
    rcases mem_append.mp hline with hline | hline
    · obtain ⟨hepoch, hlt, hle, hline⟩ := h.within line' hline
      exact ⟨hepoch, hlt, by omega, hline⟩
    · obtain rfl := mem_singleton.mp hline
      have := h.start_le
      exact ⟨hepoch, by simp only; omega, le_rfl, hat⟩
  · refine pairwise_append.mpr ⟨h.increasing, pairwise_singleton _ _, ?_⟩
    intro line' hline new hnew
    obtain rfl := mem_singleton.mp hnew
    have := (h.within line' hline).2.2.1
    simp only
    omega

theorem Reads.step (h : s.Reads B opened) (call : LineCall) :
    (s.step parse call).Reads B opened := by
  obtain ⟨bytes, heq⟩ | ⟨source, reported, ⟨hsame, -, hrounds⟩, heq⟩ |
    ⟨source, cursor, hsame, -, hposition, -, heq⟩ | heq := step_cases parse s call
  · obtain ⟨file, hfile, hnewline, -⟩ := openNodeFile_eq_ok h.opens
    obtain rfl : s.file = file := by simpa using hfile
    rw [heq]
    have happend {n : ℕ} (hn : s.file.AtLine n) :=
      @NodeFile.AtLine.append B opened.config.streamName _ _ hn hnewline bytes
    have hstarted := happend h.started
    have hat := happend h.atLine
    refine ⟨h.same, openNodeFile_append h.opens bytes, hstarted.1, hat.1, h.start_le, ?_, ?_,
      h.increasing⟩
    · rw [hat.2.2, hstarted.2.2, h.reported]
    · intro line hline
      obtain ⟨hepoch, hlt, hle, hline⟩ := h.within line hline
      exact ⟨hepoch, hlt, hle, (happend hline).1⟩
  · rw [heq]
    have hsame := h.same.trans hsame
    obtain ⟨rfl, hposition, -⟩ | ⟨cursor, line, hreported, rfl⟩ := hrounds
    · rw [append_nil]
      exact h.keep hsame hposition _
    · exact h.report hsame hreported
  · rw [heq]
    exact h.keep (h.same.trans hsame) hposition _
  · rwa [heq]

theorem Reads.run (parse : List UInt8 → Except SourceError ObservationClass)
    (h : s.Reads B opened) (calls : List LineCall) :
    (Run.final (LineReading.step parse) s calls).Reads B opened :=
  Run.invariant _ h (fun _ call h => h.step call) calls

theorem Reads.linesAfter_eq (h : s.Reads B opened) :
    s.file.linesAfter B opened.config.streamName opened.readOffset.toNat =
      s.reported ++ s.file.linesAfter B opened.config.streamName s.source.position.toNat := by
  have hall := @NodeFile.AtLine.observed_append B opened.config.streamName _ _ h.started
  rw [h.atLine.observed_append, h.reported, append_assoc] at hall
  exact (append_cancel_left hall).symm

section Committed

variable (h : s.Accounts opened) (hreads : s.Reads B opened)
  (hresumed : ∀ d ∈ opened.durableCursor, d.epoch = opened.active.epoch →
    d.offset = opened.readOffset)

include h hreads

theorem Accounts.within (hcursor : cursor ∈ s.acknowledged ++ s.source.waiting) :
    cursor.epoch = opened.active.epoch ∧ opened.readOffset.toNat < cursor.offset.toNat ∧
      s.file.AtLine cursor.offset.toNat := by
  have hplace := mem_map_of_mem (f := place) hcursor
  rw [← h.reported, mem_map] at hplace
  obtain ⟨line, hline, heq⟩ := hplace
  obtain ⟨hepoch, hlt, -, hat⟩ := hreads.within line hline
  obtain ⟨h₁, h₂⟩ := Prod.mk.inj heq
  exact ⟨h₁ ▸ hepoch, h₂ ▸ hlt, h₂ ▸ hat⟩

include hresumed

theorem Accounts.increasing :
    (opened.durableCursor.toList ++ (s.acknowledged ++ s.source.waiting)).Pairwise
      (fun a b => a.epoch = b.epoch → a.offset.toNat < b.offset.toNat) := by
  refine pairwise_append.mpr ⟨?_, ?_, ?_⟩
  · cases opened.durableCursor <;> simp
  · have hplaces : ((s.acknowledged ++ s.source.waiting).map place).Pairwise
        (·.2 < ·.2) := by
      rw [← h.reported, pairwise_map]
      exact hreads.increasing
    refine (pairwise_map.mp hplaces).imp ?_
    exact fun hlt _ => hlt
  · intro d hd c hc hepoch
    obtain ⟨hactive, hlt, -⟩ := h.within hreads hc
    rwa [hresumed d (Option.mem_toList.mp hd) (hepoch.trans hactive)]

/-- Every line up to the committed cursor has been acknowledged. -/
theorem Accounts.covers (hcursor : cursor ∈ s.source.durableCursor) :
    ∀ line ∈ s.reported, line.1 = cursor.epoch → line.2.1 ≤ cursor.offset.toNat →
      (line.1, line.2.1) ∈ s.acknowledged.map place := by
  intro line hline hepoch hle
  have hplace := mem_map_of_mem (f := fun line => (line.1, line.2.1)) hline
  rw [h.reported, mem_map] at hplace
  obtain ⟨c, hc, heq⟩ := hplace
  rcases mem_append.mp hc with hc | hc
  · exact heq ▸ mem_map_of_mem hc
  · obtain ⟨h₁, h₂⟩ := Prod.mk.inj heq
    have hpairs := h.increasing hreads hresumed
    rw [← append_assoc] at hpairs
    have hlt := (pairwise_append.mp hpairs).2.2 cursor
      (mem_of_getLast? (h.durable ▸ hcursor)) c hc (by rw [h₁, hepoch])
    omega

/-- A cursor that was committed before is not behind the committed one of its epoch. -/
theorem Accounts.le_of_subset (h' : s'.Accounts opened)
    (hsubset : s'.acknowledged ⊆ s.acknowledged) {d : SourceCursor}
    (hd : d ∈ s'.source.durableCursor) (hcursor : cursor ∈ s.source.durableCursor)
    (hepoch : d.epoch = cursor.epoch) : d.offset ≤ cursor.offset := by
  rw [h.durable] at hcursor
  rw [h'.durable] at hd
  obtain ⟨front, hfront⟩ := getLast?_eq_some_iff.mp hcursor
  have hmem : d ∈ opened.durableCursor.toList ++ s.acknowledged :=
    mem_append.mpr ((mem_append.mp (mem_of_getLast? hd)).imp_right (@hsubset d))
  rw [hfront, mem_append, mem_singleton] at hmem
  rcases hmem with hmem | rfl
  · have hpairs := h.increasing hreads hresumed
    rw [← append_assoc, hfront, append_assoc] at hpairs
    have hlt := (pairwise_append.mp hpairs).2.2 d hmem cursor (by simp) hepoch
    exact UInt64.le_iff_toNat_le.mpr hlt.le
  · exact UInt64.le_refl _

/-- A source that resumes at the committed cursor of the file opens there. -/
theorem Accounts.reopens (hcursor : cursor ∈ s.source.durableCursor)
    (hepoch : cursor.epoch = opened.active.epoch) :
    openWithClock B [s.file] opened.config (some cursor) =
      .ok ⟨opened.config, opened.active, cursor.offset, some cursor, [], none, false⟩ := by
  refine openWithClock_eq_ok.mpr ⟨opened.active, hreads.opens, cursor.offset, ?_, ?_, rfl⟩
  · rw [Option.filter_some_pos (by simpa using hepoch), Option.elim_some]
  · rw [h.durable] at hcursor
    rcases mem_append.mp (mem_of_getLast? hcursor) with hmem | hmem
    · rw [hresumed cursor (Option.mem_toList.mp hmem) hepoch]
      exact hreads.started
    · exact (h.within hreads (mem_append_left _ hmem)).2.2

end Committed

theorem start (hopen : openWithClock B [file] config initial = .ok opened) :
    Reads B opened ⟨file, opened, [], []⟩ ∧ Accounts opened ⟨file, opened, [], []⟩ ∧
      ∀ d ∈ opened.durableCursor, d.epoch = opened.active.epoch → d.offset = opened.readOffset := by
  obtain ⟨active, hactive, n, hn, hat, rfl⟩ := openWithClock_eq_ok.mp hopen
  refine ⟨⟨⟨rfl, rfl⟩, hactive, hat, hat, le_rfl, by simp; rfl, by simp, .nil⟩, ⟨rfl, ?_⟩, ?_⟩
  · cases initial <;> rfl
  · rintro d rfl hepoch
    rw [hn, Option.filter_some_pos (by simpa using hepoch), Option.elim_some]

theorem acknowledged_subset (parse : List UInt8 → Except SourceError ObservationClass)
    (s : LineReading) (calls : List LineCall) :
    s.acknowledged ⊆ (Run.final (step parse) s calls).acknowledged := by
  refine Run.invariant (P := fun s' : LineReading => s.acknowledged ⊆ s'.acknowledged) _
    (List.Subset.refl _) (fun s' call hs => ?_) calls
  obtain ⟨bytes, heq⟩ | ⟨source, reported, -, heq⟩ | ⟨source, cursor, -, -, -, -, heq⟩ | heq :=
    step_cases parse s' call <;> rw [heq]
  · exact hs
  · exact hs
  · exact subset_append_of_subset_left _ hs
  · exact hs

/-- A round whose clock and context answer reports the next line. -/
theorem reports_next {line : String × ℕ × List UInt8} {rest : List (String × ℕ × List UInt8)}
    (h : s.Reads B opened) (hvalid : validObservationIdentity opened.active.epoch = true)
    (hlines : s.file.linesAfter B opened.config.streamName s.source.position.toNat = line :: rest)
    (hready : s.source.Ready parse line) (received : ReceiveTimestamps) :
    (s.step parse (.nextObservation (.ok received) (.ok ()))).reported = s.reported ++ [line] := by
  obtain ⟨file, hfile, -, hactive⟩ := openNodeFile_eq_ok h.opens
  obtain rfl : s.file = file := by simpa using hfile
  have hposition : s.source.position = s.source.readOffset := by simp [position, hready.settled]
  have hmem : newline ∈ s.file.content.drop s.source.position.toNat := by
    by_contra hmem
    simp [NodeFile.linesAfter_eq_nil_iff.mpr hmem] at hlines
  obtain ⟨record, tail, hdrop, hrecord⟩ := eq_append_cons_of_mem hmem
  rw [NodeFile.linesAfter, hdrop, append_cons, linesFrom_append (by simp),
    linesFrom_line hrecord, hposition] at hlines
  obtain ⟨rfl, -⟩ := cons.inj hlines
  rw [hposition] at hdrop
  obtain ⟨endOffset, hend⟩ : ∃ endOffset : UInt64,
      endOffset.toNat = s.source.readOffset.toNat + record.length + 1 :=
    ⟨.ofNat _, UInt64.toNat_ofNat_of_lt' hready.offset_lt⟩
  have hread := readLine_complete.mpr ⟨tail, hdrop, hrecord, hready.length_le, hend⟩
  have hsize : ¬ s.file.content.length < s.source.readOffset.toNat := fun hlt => by
    simp [drop_of_length_le hlt.le] at hdrop
  have hround : s.source.readRound parse s.file.content (.ok received) (.ok ()) =
      let handled := s.source.handleCompleteLine parse (.ok received) (.ok ()) record endOffset
      (some handled.1, .idle, handled.2) := by
    simp [readRound, hready.settled, hready.room.not_ge, hsize, hread]
  refine congrArg (s.reported ++ ·) ?_
  have hepoch : s.source.active.epoch = s.file.epochOf B opened.config.streamName := by
    rw [h.same.active, hactive]
  rw [← h.same.active] at hvalid
  rw [hround, handleCompleteLine, new, dif_pos hvalid]
  cases hparsed : parseNodeRecord parse record with
  | error e =>
    have he : e.isQuarantined = true := by
      revert hparsed
      fun_cases parseNodeRecord parse record with
      | case1 => rintro ⟨⟩; rfl
      | case2 => exact hready.parsed e
    simp [he, newlyReported, hready.settled, Except.toOption, PendingQuarantine.view, hepoch, hend]
  | ok observationClass =>
    have hne : record ≠ [] := by
      rintro rfl
      cases hparsed
    have hlimit : record.length ≤ s.source.config.maxPayloadBytes := hready.length_le
    simp [SourceObservation.new, s.source.config.sourceVersion_valid,
      s.source.config.parserSchemaVersion_valid, s.source.config.maxPayloadBytes_pos.ne', hne,
      hlimit.not_gt, newlyReported, hready.settled, Except.toOption,
      SourceObservation.view, hepoch, hend]

/-- As long as a line in quarantine is acknowledged only when no emitted line waits, every line up
to the committed cursor has been acknowledged, the cursor does not move back, and a source that
resumes there reports exactly the lines behind it. -/
theorem committed_cursor_covers (hopen : openWithClock B [file] config initial = .ok source)
    (hsettled : Run.Along (fun before => (run parse file source before).Settled) calls) :
    let s := run parse file source calls
    (∀ d ∈ s.source.durableCursor, ∀ line ∈ s.reported, line.1 = d.epoch →
      line.2.1 ≤ d.offset.toNat → (line.1, line.2.1) ∈ s.acknowledged.map place) ∧
    (∀ before later, calls = before ++ later →
      ∀ d ∈ (run parse file source before).source.durableCursor, ∀ d' ∈ s.source.durableCursor,
        d.epoch = d'.epoch → d.offset ≤ d'.offset) ∧
    ∀ d ∈ s.source.durableCursor, d.epoch = s.source.active.epoch → ∃ again,
      openWithClock B [s.file] config (some d) = .ok again ∧ ∀ calls,
        let t := run parse s.file again calls
        let behind := t.file.linesAfter B config.streamName t.source.position.toNat
        t.file.linesAfter B config.streamName d.offset.toNat = t.reported ++ behind ∧
        ∀ line rest received, behind = line :: rest → t.source.Ready parse line →
          (t.step parse (.nextObservation (.ok received) (.ok ()))).reported =
            t.reported ++ [line] := by
  obtain ⟨hreads, hstart, hresumed⟩ := start hopen
  have haccounts : ∀ before later, calls = before ++ later →
      (run parse file source before).Accounts source := by
    intro before
    induction before using reverseRecOn with
    | nil => exact fun _ _ => hstart
    | append_singleton before call ih =>
      intro later heq
      rw [append_assoc] at heq
      rw [run, Run.final_concat]
      exact (ih _ heq).step (hsettled before call later heq)
  have hlast := haccounts calls [] (append_nil _).symm
  have hreads' := hreads.run parse calls
  refine ⟨fun d hd => hlast.covers hreads' hresumed hd, ?_, ?_⟩
  · rintro before later rfl d hd d' hd' hepoch
    refine hlast.le_of_subset hreads' hresumed (haccounts before later rfl) ?_ hd hd' hepoch
    have hsubset := acknowledged_subset parse (run parse file source before) later
    rwa [run, ← Run.final_append] at hsubset
  · intro d hd hepoch
    rw [run, hreads'.same.active] at hepoch
    have hconfig : source.config = config := by
      obtain ⟨_, -, _, -, -, rfl⟩ := openWithClock_eq_ok.mp hopen
      rfl
    have hagain := hlast.reopens hreads' hresumed hd hepoch
    rw [hconfig] at hagain
    obtain ⟨hresumes, -, -⟩ := start hagain
    refine ⟨_, hagain, fun calls => ⟨(hresumes.run parse calls).linesAfter_eq, ?_⟩⟩
    exact fun line rest received hlines hready =>
      reports_next (hresumes.run parse calls) (hepoch ▸ d.epoch_valid) hlines hready received

section Sample

open Tailing CanonicalLedger

/-- A line and an empty one, which does not parse. -/
def emptyLineFile : NodeFile := ⟨⟨0, 0⟩, [97, newline, newline]⟩

def emptyLineConfig : NodeFileConfig := { sampleConfig with maxInflightObservations := 2 }

def emptyLineSource : NodeLineFileSource := { sampleSource with config := emptyLineConfig }

theorem openWithClock_emptyLineFile :
    openWithClock sumBlake3 [emptyLineFile] emptyLineConfig none = .ok emptyLineSource := rfl

def sampleReading : List LineCall → LineReading :=
  run (fun _ => .ok .committedBlock) emptyLineFile emptyLineSource

def sampleNext : LineCall := .nextObservation (.ok ⟨0, 0, ProtocolTime.zero_lt⟩) (.ok ())

def sampleCursor (offset : UInt64) : SourceCursor := ⟨sampleEpoch, offset, sampleEpoch_valid⟩

def sampleCalls : List LineCall := [sampleNext, .acknowledgeDurable (sampleCursor 2), sampleNext,
  .acknowledgeQuarantineDurable (sampleCursor 3)]

theorem committed_cursor_covers_sampleCalls :
    (sampleReading sampleCalls).source.durableCursor = some (sampleCursor 3) ∧
    ∀ line ∈ (sampleReading sampleCalls).reported, line.1 = (sampleCursor 3).epoch →
      line.2.1 ≤ (sampleCursor 3).offset.toNat →
      (line.1, line.2.1) ∈ (sampleReading sampleCalls).acknowledged.map SourceCursor.place := by
  have hcursor : (sampleReading sampleCalls).source.durableCursor = some (sampleCursor 3) := by
    decide +kernel
  have hsettled : Run.Along (fun before => (sampleReading before).Settled) sampleCalls := by
    change Run.Along _ (((([] ++ [_]) ++ [_]) ++ [_]) ++ [_])
    simp only [Run.along_concat, Run.along_nil, true_and, Settled, sampleNext]
    exact fun _ => by decide +kernel
  unfold sampleReading at hcursor hsettled ⊢
  exact ⟨hcursor, (committed_cursor_covers openWithClock_emptyLineFile hsettled).1 _ hcursor⟩

/-- The first line is emitted, the second put into quarantine and acknowledged. The cursor covers
the first line too, and when that is acknowledged, moves back. -/
theorem quarantine_covers_unacknowledged :
    let calls := [sampleNext, sampleNext, .acknowledgeQuarantineDurable (sampleCursor 3)]
    let s := sampleReading calls
    s.reported = [(sampleEpoch, 2, [97]), (sampleEpoch, 3, [])] ∧
    s.acknowledged = [sampleCursor 3] ∧ s.source.durableCursor = some (sampleCursor 3) ∧
    (sampleReading (calls ++ [.acknowledgeDurable (sampleCursor 2)])).source.durableCursor =
      some (sampleCursor 2) := by
  decide +kernel

end Sample

end LineReading

end AlphaDesk
