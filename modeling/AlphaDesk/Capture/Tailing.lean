import AlphaDesk.Capture.NodeStream
import AlphaDesk.Ledger.Run
import Mathlib.Data.List.ModifyLast

/-! # What tailing delivers

The observations are, file by file, the complete lines, each once and with the offset
just past its newline, as long as the source leaves a file only when it has read all of
it and goes on with its direct successor. It does not ensure either: the end of the
file, the path check and the opening of the successor are three moments.
-/

namespace AlphaDesk

open Except List

/-- The complete lines of a text, each with the offset just past its newline. The text starts at
`offset`, within `line`. -/
def linesFrom (offset : ℕ) (line : List UInt8) : List UInt8 → List (ℕ × List UInt8)
  | [] => []
  | byte :: rest =>
    if byte = newline then (offset + 1, line) :: linesFrom (offset + 1) [] rest
    else linesFrom (offset + 1) (line ++ [byte]) rest

variable {a b line : List UInt8} {offset : ℕ}

theorem linesFrom_append (ha : a.getLast? = some newline) :
    linesFrom offset line (a ++ b) =
      linesFrom offset line a ++ linesFrom (offset + a.length) [] b := by
  induction a generalizing offset line with
  | nil => simp at ha
  | cons x a ih =>
    rcases a with _ | ⟨y, a⟩
    · obtain rfl : x = newline := by simpa using ha
      simp [linesFrom]
    · have hlength : offset + (x :: y :: a).length = offset + 1 + (y :: a).length := by
        simp only [length_cons]
        omega
      rw [cons_append, linesFrom, linesFrom, ih ha, ih ha, hlength]
      split <;> rfl

theorem linesFrom_line (ha : newline ∉ a) :
    linesFrom offset line (a ++ [newline]) = [(offset + a.length + 1, line ++ a)] := by
  induction a generalizing offset line with
  | nil => simp [linesFrom]
  | cons x a ih =>
    rw [mem_cons, not_or] at ha
    rw [cons_append, linesFrom, if_neg (Ne.symm ha.1), ih ha.2, length_cons]
    simp
    omega

theorem linesFrom_eq_nil_iff : linesFrom offset line a = [] ↔ newline ∉ a := by
  induction a generalizing offset line with
  | nil => simp [linesFrom]
  | cons x a ih =>
    rw [linesFrom, mem_cons, not_or]
    split
    next hx => simp [hx]
    next hx => simp [ih, Ne.symm hx]

theorem takeWhile_line (ha : newline ∉ a) :
    (a ++ newline :: b).takeWhile (· ≠ newline) = a := by
  rw [takeWhile_append_of_pos]
  · simp
  · intro x hx
    simpa using ne_of_mem_of_not_mem hx ha

theorem takeWhile_append_open (ha : newline ∉ a) :
    (a ++ b).takeWhile (· ≠ newline) = a ++ b.takeWhile (· ≠ newline) := by
  rw [takeWhile_append_of_pos]
  intro x hx
  simpa using ne_of_mem_of_not_mem hx ha

variable {content payload rest : List UInt8} {offset endOffset : UInt64}
  {maxPayloadBytes rounds : ℕ}

/-- What the loop of `read_line` answers, without its chunks. -/
def scan (offset : UInt64) (maxPayloadBytes : ℕ) (payload rest : List UInt8) :
    Except SourceError LineRead :=
  let record := payload ++ rest.takeWhile (· ≠ newline)
  if maxPayloadBytes < record.length then
    .error (.malformedPayload "node output record exceeds its configured limit")
  else if newline ∈ rest then
    if offset.toNat + record.length + 1 < 2 ^ 64 then
      .ok (.complete record (.ofNat (offset.toNat + record.length + 1)))
    else .error (.malformedPayload "node offset overflow")
  else .ok (if record = [] then .endOfFile else .partialLine)

theorem readLoop_eq_scan (hpayload : payload.length ≤ maxPayloadBytes)
    (hrounds : rest.length < rounds) :
    readLoop offset maxPayloadBytes rounds payload rest =
      scan offset maxPayloadBytes payload rest := by
  induction rounds generalizing payload rest with
  | zero => omega
  | succ rounds ih =>
    rcases eq_or_ne rest [] with rfl | hne
    · simp [readLoop, scan, hpayload.not_gt]
    have hchunk : rest.take readChunkBytes ≠ [] := by simp [hne, readChunkBytes]
    have hsplit := take_append_drop readChunkBytes rest
    rw [readLoop]
    dsimp only
    rw [if_neg hchunk]
    by_cases hmem : newline ∈ rest.take readChunkBytes
    · obtain ⟨record, tail, heq, hrecord⟩ := eq_append_cons_of_mem hmem
      have hscan : rest.takeWhile (· ≠ newline) = record := by
        rw [← hsplit, heq, append_assoc, cons_append, takeWhile_line hrecord]
      rw [scan, hscan, heq, takeWhile_line hrecord]
      simp [mem_of_mem_take hmem]
    · have hscan : rest.takeWhile (· ≠ newline) = rest.take readChunkBytes ++
          (rest.drop readChunkBytes).takeWhile (· ≠ newline) := by
        rw [← takeWhile_append_open hmem, hsplit]
      have hwhole : (rest.take readChunkBytes).takeWhile (· ≠ newline) =
          rest.take readChunkBytes := by
        simpa using takeWhile_append_open hmem (b := [])
      have hiff : newline ∈ rest ↔ newline ∈ rest.drop readChunkBytes := by
        rw [← hsplit, mem_append, hsplit]
        exact or_iff_right hmem
      rw [hwhole, if_neg hmem]
      split
      next hlimit =>
        rw [scan, hscan, if_pos]
        simp only [length_append]
        omega
      next hlimit =>
        rw [ih]
        · simp only [scan, hscan, hiff, append_assoc]
        · rw [length_append]
          omega
        · have hpos := length_pos_of_ne_nil hchunk
          have hlength := congrArg length hsplit
          rw [length_append] at hlength
          omega

theorem readLine_eq : readLine content offset maxPayloadBytes =
    scan offset maxPayloadBytes [] (content.drop offset.toNat) := by
  refine readLoop_eq_scan (Nat.zero_le _) ?_
  rw [length_drop]
  omega

theorem readLine_complete :
    readLine content offset maxPayloadBytes = .ok (.complete line endOffset) ↔
      ∃ tail, content.drop offset.toNat = line ++ newline :: tail ∧ newline ∉ line ∧
        line.length ≤ maxPayloadBytes ∧ endOffset.toNat = offset.toNat + line.length + 1 := by
  rw [readLine_eq, scan]
  constructor
  · intro h
    obtain ⟨hle, h⟩ := of_check h
    split at h
    next hmem =>
      obtain ⟨record, tail, heq, hrecord⟩ := eq_append_cons_of_mem hmem
      rw [heq, takeWhile_line hrecord, nil_append] at h hle
      obtain ⟨hlt, h⟩ := ite_else_error_eq_ok.mp h
      obtain ⟨rfl, rfl⟩ := LineRead.complete.inj (ok.inj h)
      exact ⟨tail, heq, hrecord, not_lt.mp hle, UInt64.toNat_ofNat_of_lt' hlt⟩
    next => split at h <;> cases h
  · rintro ⟨tail, hdrop, hline, hle, hend⟩
    have hlt := endOffset.toNat_lt
    simp only [hdrop, takeWhile_line hline, nil_append, ← hend, UInt64.ofNat_toNat]
    simp [hle, hlt]

variable {parse : List UInt8 → Except SourceError ObservationClass}
  {received : Except SourceError ReceiveTimestamps} {check : Except SourceError Unit}
  {content payload : List UInt8} {endOffset : UInt64} {source : NodeLineFileSource}

/-- Where an observation was taken from, and its line. -/
def SourceObservation.view (observation : SourceObservation) : String × ℕ × List UInt8 :=
  (observation.cursor.epoch, observation.cursor.offset.toNat, observation.payload)

namespace NodeLineFileSource

/-- The source with another offset, and what is not about files. -/
structure SameFile (source source' : NodeLineFileSource) : Prop where
  active : source'.active = source.active
  config : source'.config = source.config

/-- What a call may come to with an offset behind it: it returns no observation and the offset
stays, or it returns the line behind the offset. -/
def Advances (content : List UInt8) (source source' : NodeLineFileSource)
    (observation : Option SourceObservation) : Prop :=
  match observation with
  | none => source'.readOffset = source.readOffset
  | some observation => ∃ line tail,
    content.drop source.readOffset.toNat = line ++ newline :: tail ∧ newline ∉ line ∧
    source'.readOffset.toNat = source.readOffset.toNat + line.length + 1 ∧
    observation.view = (source.active.epoch, source'.readOffset.toNat, line)

/-- The line behind the offset, with the cursor at its end. -/
structure NextLine (content : List UInt8) (source : NodeLineFileSource) (cursor : SourceCursor)
    (line : List UInt8) : Prop where
  behind : ∃ tail, content.drop source.readOffset.toNat = line ++ newline :: tail
  complete : newline ∉ line
  epoch : cursor.epoch = source.active.epoch
  offset : cursor.offset.toNat = source.readOffset.toNat + line.length + 1

/-- What a round may come to: nothing, or the next line is returned or put into quarantine. -/
inductive Handled (content : List UInt8) (source : NodeLineFileSource) :
    Option SourceObservation → NodeLineFileSource → Prop
  | quiet (partialLine : Bool) : Handled content source none { source with partialLine }
  | emitted (observation : SourceObservation) (hnone : source.pendingQuarantine = none)
    (hline : NextLine content source observation.cursor observation.payload) :
    Handled content source (some observation) { source with
      readOffset := observation.cursor.offset
      pendingEmittedCursors := source.pendingEmittedCursors ++ [observation.cursor]
      partialLine := false }
  | quarantined (pending : PendingQuarantine) (hnone : source.pendingQuarantine = none)
    (hline : NextLine content source pending.cursor pending.payload) :
    Handled content source none
      { source with pendingQuarantine := some pending, partialLine := false }

theorem Handled.spec {source' : NodeLineFileSource} {observation : Option SourceObservation}
    (h : Handled content source observation source') :
    SameFile source source' ∧ Advances content source source' observation := by
  cases h with
  | quiet => exact ⟨⟨rfl, rfl⟩, rfl⟩
  | emitted observation _ hline =>
    obtain ⟨⟨tail, hdrop⟩, hcomplete, hepoch, hoffset⟩ := hline
    exact ⟨⟨rfl, rfl⟩, _, tail, hdrop, hcomplete, hoffset, by rw [SourceObservation.view, hepoch]⟩
  | quarantined => exact ⟨⟨rfl, rfl⟩, rfl⟩

theorem handleCompleteLine_handled {max : ℕ} (hnone : source.pendingQuarantine = none)
    (hread : readLine content source.readOffset max = .ok (.complete payload endOffset)) :
    let handled := source.handleCompleteLine parse received check payload endOffset
    Handled content source handled.1.toOption handled.2 := by
  obtain ⟨tail, hdrop, hpayload, -, hend⟩ := readLine_complete.mp hread
  fun_cases handleCompleteLine parse received check payload endOffset source with
  | case1 => exact .quiet source.partialLine
  | case4 cursor hcursor _ received e =>
    obtain ⟨_, hcursor⟩ := dite_else_error_eq_ok.mp hcursor
    obtain rfl := ok.inj hcursor
    split
    · exact .quarantined _ hnone ⟨⟨tail, hdrop⟩, hpayload, rfl, hend⟩
    · exact .quiet false
  | case6 cursor hcursor _ received observationClass _ observation hnew =>
    obtain ⟨_, hcursor⟩ := dite_else_error_eq_ok.mp hcursor
    obtain rfl := ok.inj hcursor
    unfold SourceObservation.new at hnew
    split_ifs at hnew
    obtain rfl := ok.inj hnew
    exact .emitted _ hnone ⟨⟨tail, hdrop⟩, hpayload, rfl, hend⟩
  | _ => exact .quiet false

theorem readRound_handled :
    let round := source.readRound parse content received check
    round.2.1 ≠ .replaced ∧ Handled content source (round.1.bind Except.toOption) round.2.2 := by
  fun_cases readRound parse content received check source with
  | case5 hnone _ _ payload endOffset hread => exact ⟨nofun, handleCompleteLine_handled hnone hread⟩
  | case6 => exact ⟨nofun, .quiet _⟩
  | _ => exact ⟨nofun, .quiet source.partialLine⟩

end NodeLineFileSource

variable {B : Blake3} {name : String} {file : NodeFile} {tail bytes : List UInt8} {n : ℕ}

namespace NodeFile

/-- The epoch of a file that has a complete first line. -/
def epochOf (B : Blake3) (name : String) (file : NodeFile) : String :=
  epoch B name file.identity (file.content.takeWhile (· ≠ newline))

/-- The complete lines up to an offset, as they are to be observed. -/
def observed (B : Blake3) (name : String) (upTo : ℕ) (file : NodeFile) :
    List (String × ℕ × List UInt8) :=
  (linesFrom 0 [] (file.content.take upTo)).map (Prod.mk (file.epochOf B name))

def AtLine (file : NodeFile) (n : ℕ) : Prop :=
  n ≤ file.content.length ∧ (n = 0 ∨ (file.content.take n).getLast? = some newline)

theorem AtLine.linesFrom_take (h : file.AtLine n) (rest : List UInt8) :
    linesFrom 0 [] (file.content.take n ++ rest) =
      linesFrom 0 [] (file.content.take n) ++ linesFrom n [] rest := by
  rcases h with ⟨hn, rfl | hlast⟩
  · simp [linesFrom]
  · rw [linesFrom_append hlast, length_take_of_le hn, Nat.zero_add]

theorem AtLine.next (h : file.AtLine n) (hdrop : file.content.drop n = line ++ newline :: tail)
    (hline : newline ∉ line) : file.AtLine (n + line.length + 1) ∧
      file.observed B name (n + line.length + 1) =
        file.observed B name n ++ [(file.epochOf B name, n + line.length + 1, line)] := by
  have htake : file.content.take (n + line.length + 1) =
      file.content.take n ++ (line ++ [newline]) := by
    rw [Nat.add_assoc, take_add, hdrop]
    simp [take_append]
  have hlength := congrArg length hdrop
  simp only [length_drop, length_append, length_cons] at hlength
  refine ⟨⟨by omega, .inr ?_⟩, ?_⟩
  · simp [htake]
  · rw [observed, htake, h.linesFrom_take, linesFrom_line hline]
    simp [observed]

/-- The complete lines behind an offset. -/
def linesAfter (B : Blake3) (name : String) (n : ℕ) (file : NodeFile) :
    List (String × ℕ × List UInt8) :=
  (linesFrom n [] (file.content.drop n)).map (Prod.mk (file.epochOf B name))

theorem linesAfter_eq_nil_iff : file.linesAfter B name n = [] ↔ newline ∉ file.content.drop n := by
  rw [linesAfter, map_eq_nil_iff, linesFrom_eq_nil_iff]

theorem AtLine.observed_append (h : file.AtLine n) : file.observed B name file.content.length =
    file.observed B name n ++ file.linesAfter B name n := by
  rw [observed, take_length, observed, linesAfter, ← map_append, ← h.linesFrom_take,
    take_append_drop]

/-- Of a file that ends with a newline, nothing is left to observe exactly at its end. -/
theorem AtLine.observed_rest (h : file.AtLine n) (hend : file.content.getLast? = some newline) :
    ∃ rest, file.observed B name file.content.length = file.observed B name n ++ rest ∧
      (rest = [] ↔ n = file.content.length) := by
  refine ⟨_, h.observed_append, linesAfter_eq_nil_iff.trans ⟨fun hnone => ?_, ?_⟩⟩
  · by_contra hne
    have hlast : (file.content.drop n).getLast? = some newline := by
      rw [getLast?_drop, if_neg (by have := h.1; omega), hend]
    exact hnone (mem_of_getLast? hlast)
  · rintro rfl
    simp

theorem AtLine.append (h : file.AtLine n) (hstarted : newline ∈ file.content)
    (bytes : List UInt8) :
    let file' : NodeFile := { file with content := file.content ++ bytes }
    file'.AtLine n ∧ file'.epochOf B name = file.epochOf B name ∧
      file'.observed B name n = file.observed B name n := by
  obtain ⟨record, tail, heq, hrecord⟩ := eq_append_cons_of_mem hstarted
  have hepoch : epochOf B name { file with content := file.content ++ bytes } =
      file.epochOf B name := by
    simp only [epochOf, heq, append_assoc, cons_append, takeWhile_line hrecord]
  have htake : (file.content ++ bytes).take n = file.content.take n :=
    take_append_of_le_length h.1
  refine ⟨⟨?_, ?_⟩, hepoch, ?_⟩
  · simp only [length_append]
    exact h.1.trans (Nat.le_add_right _ _)
  · rw [htake]
    exact h.2
  · rw [observed, hepoch, htake, observed]

@[simp] theorem observed_zero : file.observed B name 0 = [] := rfl

theorem observed_ne_nil (h : newline ∈ file.content) :
    file.observed B name file.content.length ≠ [] := by
  simpa [observed, linesFrom_eq_nil_iff] using h

end NodeFile

theorem openNodeFile_eq_ok {files : List NodeFile} {max : ℕ} {active : OpenNodeFile}
    (h : openNodeFile B files name max = .ok active) : ∃ file, files.getLast? = some file ∧
      newline ∈ file.content ∧ active = ⟨files.length - 1, file.identity, file.epochOf B name⟩ := by
  unfold openNodeFile at h
  split at h
  · cases h
  next file hfile =>
    split at h
    · cases h
    next payload _ hread =>
      obtain ⟨tail, hdrop, hpayload, -⟩ := readLine_complete.mp hread
      obtain rfl := ok.inj h
      rw [UInt64.toNat_zero, drop_zero] at hdrop
      refine ⟨file, hfile, by simp [hdrop], ?_⟩
      rw [NodeFile.epochOf, hdrop, takeWhile_line hpayload]
    · cases h

theorem validateResumeBoundary_eq_ok {offset : UInt64} :
    validateResumeBoundary file.content offset = .ok () ↔ file.AtLine offset.toNat := by
  rw [validateResumeBoundary, ite_error_eq_ok, not_lt, NodeFile.AtLine]
  refine and_congr_right fun hle => ?_
  rw [← UInt64.toNat_zero, UInt64.toNat_inj, getLast?_take]
  split
  next h => simp [h]
  next h =>
    have hpos : offset.toNat ≠ 0 := fun h0 => h (UInt64.toNat_inj.mp h0)
    rw [ite_else_error_eq_ok, if_neg hpos, getElem?_eq_getElem (by omega)]
    simp [h]

theorem NodeLineFileSource.openWithClock_eq_ok {config : NodeFileConfig}
    {durableCursor : Option SourceCursor} {source : NodeLineFileSource} :
    openWithClock B [file] config durableCursor = .ok source ↔ ∃ active,
      openNodeFile B [file] config.streamName config.maxPayloadBytes = .ok active ∧
      ∃ n, n = (durableCursor.filter (·.epoch = active.epoch)).elim 0 (·.offset) ∧
      file.AtLine n.toNat ∧ source = ⟨config, active, n, durableCursor, [], none, false⟩ := by
  refine bind_eq_ok.trans (exists_congr fun active => and_congr_right fun _ => ?_)
  rw [exists_eq_left]
  split
  next cursor hfound =>
    simp only [hfound, Option.elim_some, ← validateResumeBoundary_eq_ok]
    exact bind_eq_ok.trans ⟨fun ⟨_, h, hsource⟩ => ⟨h, (ok.inj hsource).symm⟩,
      fun ⟨h, hsource⟩ => ⟨(), h, congrArg _ hsource.symm⟩⟩
  next hfound =>
    simp only [hfound, Option.elim_none]
    exact ⟨fun h => ⟨⟨Nat.zero_le _, .inl rfl⟩, (ok.inj h).symm⟩, fun h => congrArg _ h.2.symm⟩

namespace Tailing

variable {s : Tailing} {before after : List NodeFile} {phase : Phase}

/-- All lines of the files before the open one, and those of the open one up to the offset. -/
def expected (B : Blake3) (s : Tailing) : List (String × ℕ × List UInt8) :=
  let name := s.source.config.streamName
  (s.files.take s.source.active.file).flatMap (fun file =>
      file.observed B name file.content.length) ++
    s.files[s.source.active.file]?.elim [] (·.observed B name s.source.readOffset.toNat)

def Delivered (B : Blake3) (s : Tailing) : Prop :=
  s.returned.map SourceObservation.view = s.expected B

/-- When the source goes on with a successor, it has read all of the open file, and the successor
is the next file. -/
def Clean (B : Blake3) (s : Tailing) : TailEvent → Prop
  | .reopen => s.phase = .replaced → (s.source.reopen B s.files).toOption.isSome →
    (∀ file ∈ s.files[s.source.active.file]?, s.source.readOffset.toNat = file.content.length) ∧
      s.source.active.file + 2 = s.files.length
  | _ => True

/-- The open file, the files before it and those that the path has named since. -/
structure Opened (B : Blake3) (s : Tailing) (before : List NodeFile) (file : NodeFile)
    (after : List NodeFile) : Prop where
  files : s.files = before ++ file :: after
  index : s.source.active.file = before.length
  identity : s.source.active.identity = file.identity
  epoch : s.source.active.epoch = file.epochOf B s.source.config.streamName
  atLine : file.AtLine s.source.readOffset.toNat
  started : ∀ old ∈ file :: after, newline ∈ old.content
  ended : after ≠ [] → file.content.getLast? = some newline
  behind : s.phase = .replaced → after ≠ []

def Tracks (B : Blake3) (s : Tailing) : Prop := ∃ before file after, s.Opened B before file after

theorem Opened.expected_eq (h : s.Opened B before file after) : s.expected B =
    before.flatMap (fun file => file.observed B s.source.config.streamName file.content.length) ++
      file.observed B s.source.config.streamName s.source.readOffset.toNat := by
  simp [expected, h.files, h.index]

theorem Opened.keep (h : s.Opened B before file after) (hsame : s.source.SameFile source)
    (hat : file.AtLine source.readOffset.toNat) (hphase : phase = .replaced → after ≠ [])
    (replies : List (Except SourceError SourceObservation)) :
    Opened B ⟨s.files, source, phase, replies⟩ before file after := by
  obtain ⟨hactive, hconfig⟩ := hsame
  refine ⟨h.files, ?_, ?_, ?_, hat, h.started, h.ended, hphase⟩
  · rw [hactive, h.index]
  · rw [hactive, h.identity]
  · rw [hactive, hconfig, h.epoch]

theorem Opened.advance (h : s.Opened B before file after) (hsame : s.source.SameFile source)
    (hphase : phase = .replaced → after ≠ [])
    (reply : Option (Except SourceError SourceObservation))
    (hadvances : s.source.Advances file.content source (reply.bind Except.toOption)) :
    Tracks B ⟨s.files, source, phase, s.replies ++ reply.toList⟩ ∧
      (s.Delivered B → Delivered B ⟨s.files, source, phase, s.replies ++ reply.toList⟩) := by
  have hreturned : (Tailing.mk s.files source phase (s.replies ++ reply.toList)).returned =
      s.returned ++ (reply.bind Except.toOption).toList := by
    rcases reply with _ | _ | _ <;> simp [returned, Except.toOption]
  unfold Delivered
  rw [hreturned]
  generalize reply.bind Except.toOption = observation at hadvances ⊢
  rcases observation with _ | observation
  · have hoffset : source.readOffset = s.source.readOffset := hadvances
    have hnext := h.keep hsame (hoffset ▸ h.atLine) hphase (s.replies ++ reply.toList)
    refine ⟨⟨_, _, _, hnext⟩, fun hd => ?_⟩
    rw [hnext.expected_eq, hsame.config, hoffset, ← h.expected_eq]
    simpa using hd
  · obtain ⟨line, tail, hdrop, hline, hoffset, hview⟩ := hadvances
    obtain ⟨hat, hobserved⟩ : _ ∧ file.observed B s.source.config.streamName _ = _ :=
      h.atLine.next hdrop hline
    rw [← hoffset] at hat hobserved
    have hnext := h.keep hsame hat hphase (s.replies ++ reply.toList)
    refine ⟨⟨_, _, _, hnext⟩, fun hd => ?_⟩
    rw [hnext.expected_eq, hsame.config, hobserved, ← append_assoc, ← h.expected_eq, ← hd]
    simp [hview, h.epoch]

theorem Opened.read (h : s.Opened B before file after)
    (parse : List UInt8 → Except SourceError ObservationClass)
    (received : Except SourceError ReceiveTimestamps) (check : Except SourceError Unit) :
    (s.step B parse (.read received check)).Tracks B ∧
      (s.Delivered B → (s.step B parse (.read received check)).Delivered B) := by
  have hfile : s.files[s.source.active.file]? = some file := by simp [h.files, h.index]
  obtain ⟨hphase, hhandled⟩ := @NodeLineFileSource.readRound_handled parse received check
    file.content s.source
  obtain ⟨hsame, hadvances⟩ := hhandled.spec
  rw [Tailing.step]
  split
  next found _ hfound =>
    obtain rfl := Option.mem_unique hfile hfound
    exact h.advance hsame (fun hp => absurd hp hphase) _ hadvances
  next => exact ⟨⟨_, _, _, h⟩, id⟩

theorem Opened.checkPath (h : s.Opened B before file after) :
    (s.step B parse .checkPath).Tracks B ∧
      (s.Delivered B → (s.step B parse .checkPath).Delivered B) := by
  rw [Tailing.step]
  split
  next state _ =>
    have hspec : (s.source.checkPath s.files state).1.bind Except.toOption = none ∧
        ((s.source.checkPath s.files state).2 = .replaced →
          pathState s.files s.source.active.identity = .replaced) := by
      unfold NodeLineFileSource.checkPath
      split <;> simp_all [Except.toOption]
    have hadvances : s.source.Advances file.content s.source
        ((s.source.checkPath s.files state).1.bind Except.toOption) := by
      rw [hspec.1]
      rfl
    refine h.advance ⟨rfl, rfl⟩ ?_ _ hadvances
    rintro hp rfl
    have hreplaced := hspec.2 hp
    simp [pathState, h.files, h.identity] at hreplaced
  next => exact ⟨⟨_, _, _, h⟩, id⟩

theorem Opened.reopen (h : s.Opened B before file after) : (s.step B parse .reopen).Tracks B ∧
    (s.Delivered B → ((s.step B parse .reopen).Delivered B ↔ s.Clean B .reopen)) := by
  rw [Tailing.step]
  split
  next hphase =>
    obtain ⟨init, last, rfl⟩ := (eq_nil_or_concat after).resolve_left (h.behind hphase)
    have hsplit : s.files = (before ++ file :: init) ++ last :: [] := by simp [h.files]
    split
    next source hreopen =>
      have hsome : (s.source.reopen B s.files).toOption.isSome = true := by rw [hreopen]; rfl
      obtain ⟨active, hactive, hsource⟩ := of_bind hreopen
      obtain rfl := ok.inj hsource
      obtain ⟨found, hfound, hstarted, rfl⟩ := openNodeFile_eq_ok hactive
      rw [hsplit, getLast?_concat] at hfound
      obtain rfl := Option.some.inj hfound
      have hnext : Opened B ⟨s.files, { s.source with
          active := ⟨s.files.length - 1, last.identity, last.epochOf B s.source.config.streamName⟩
          readOffset := 0, partialLine := false }, .idle, s.replies⟩
          (before ++ file :: init) last [] :=
        ⟨hsplit, by simp [hsplit], rfl, rfl, ⟨Nat.zero_le _, .inl rfl⟩, by simpa using hstarted,
          nofun, nofun⟩
      refine ⟨⟨_, _, _, hnext⟩, fun hd => ?_⟩
      obtain ⟨rest, hrest, hiff⟩ : ∃ rest, file.observed B s.source.config.streamName _ = _ ∧ _ :=
        h.atLine.observed_rest (h.ended (by simp))
      have hinit : init.flatMap (fun file =>
          file.observed B s.source.config.streamName file.content.length) = [] ↔ init = [] := by
        rcases init with _ | ⟨old, init⟩
        · simp
        · simpa using fun hnil => absurd hnil
            (NodeFile.observed_ne_nil (h.started old (by simp)))
      have hcount : s.source.active.file + 2 = s.files.length ↔ init = [] := by
        simp [h.files, h.index]
      have hcurrent : s.files[s.source.active.file]? = some file := by simp [h.files, h.index]
      rw [Delivered, hnext.expected_eq, Clean, hcount, hcurrent, ← hinit]
      change s.returned.map SourceObservation.view = _ ↔ _
      rw [hd, h.expected_eq]
      simp [hrest, hphase, hsome, hiff]
    next e he =>
      obtain ⟨htracks, hdelivered⟩ := h.advance ⟨rfl, rfl⟩ (nofun : Phase.idle = .replaced → _)
        (some (.error e)) rfl
      refine ⟨htracks, fun hd => iff_of_true (hdelivered hd) fun _ hsome => ?_⟩
      rw [he] at hsome
      cases hsome
  next hphase => exact ⟨⟨_, _, _, h⟩, fun hd => iff_of_true hd fun hp => absurd hp hphase⟩

/-- Only going on with a successor can break the delivery. -/
theorem Tracks.step (h : s.Tracks B)
    (parse : List UInt8 → Except SourceError ObservationClass) {event : TailEvent}
    (hadm : s.Admissible event) : (s.step B parse event).Tracks B ∧
      (s.Delivered B → ((s.step B parse event).Delivered B ↔ s.Clean B event)) := by
  obtain ⟨before, file, after, h⟩ := h
  have hstarted := h.started file mem_cons_self
  cases event with
  | append bytes =>
    rcases eq_nil_or_concat after with rfl | ⟨init, last, rfl⟩
    · obtain ⟨hat, hepoch, hobserved⟩ : _ ∧ _ = file.epochOf B s.source.config.streamName ∧ _ :=
        h.atLine.append hstarted bytes
      have hnext : (s.step B parse (.append bytes)).Opened B before
          { file with content := file.content ++ bytes } [] := by
        refine ⟨?_, h.index, h.identity, h.epoch.trans hepoch.symm, hat, ?_, nofun, h.behind⟩
        · rw [Tailing.step, h.files, modifyLast_concat]
        · simp [hstarted]
      refine ⟨⟨_, _, _, hnext⟩, fun hd => iff_of_true (Eq.trans hd ?_) trivial⟩
      rw [hnext.expected_eq, h.expected_eq]
      exact congrArg _ hobserved.symm
    · have hnext : (s.step B parse (.append bytes)).Opened B before file
          (init ++ [{ last with content := last.content ++ bytes }]) := by
        have hold := h.started
        refine ⟨?_, h.index, h.identity, h.epoch, h.atLine, ?_, fun _ => h.ended (by simp), by simp⟩
        · rw [Tailing.step, h.files, concat_eq_append, ← cons_append,
            ← append_assoc, modifyLast_concat, append_assoc, cons_append]
        · simp_all [or_imp, forall_and]
      refine ⟨⟨_, _, _, hnext⟩, fun hd => iff_of_true (Eq.trans hd ?_) trivial⟩
      rw [hnext.expected_eq, h.expected_eq]
      rfl
  | replace new =>
    obtain ⟨hnew, -, hlast⟩ := hadm
    have hnext : (s.step B parse (.replace new)).Opened B before file (after ++ [new]) := by
      have hold := h.started
      refine ⟨?_, h.index, h.identity, h.epoch, h.atLine, ?_, fun _ => ?_, by simp⟩
      · rw [Tailing.step, h.files, append_assoc, cons_append]
      · simp_all [or_imp, forall_and]
      · by_cases hafter : after = []
        · exact hlast file (by simp [h.files, hafter])
        · exact h.ended hafter
    refine ⟨⟨_, _, _, hnext⟩, fun hd => iff_of_true (Eq.trans hd ?_) trivial⟩
    rw [hnext.expected_eq, h.expected_eq]
    rfl
  | read received check =>
    obtain ⟨htracks, hdelivered⟩ := h.read parse received check
    exact ⟨htracks, fun hd => iff_of_true (hdelivered hd) trivial⟩
  | checkPath => exact ⟨h.checkPath.1, fun hd => iff_of_true (h.checkPath.2 hd) trivial⟩
  | reopen => exact h.reopen
  | acknowledge cursor =>
    rw [Tailing.step]
    split
    next source hsource =>
      obtain ⟨-, hsource⟩ := ite_else_error_eq_ok.mp hsource
      obtain rfl := ok.inj hsource
      obtain ⟨htracks, hdelivered⟩ := h.advance (⟨rfl, rfl⟩ : s.source.SameFile { s.source with
        durableCursor := some cursor
        pendingEmittedCursors := s.source.pendingEmittedCursors.tail }) h.behind none rfl
      simp only [Option.toList_none, append_nil] at htracks hdelivered
      exact ⟨htracks, fun hd => iff_of_true (hdelivered hd) trivial⟩
    next => exact ⟨⟨_, _, _, h⟩, fun hd => iff_of_true hd trivial⟩

variable {first : NodeFile} {config : NodeFileConfig} {durableCursor : Option SourceCursor}
  {events : List TailEvent}

/-- Where the steps lead from a source that has just been opened. -/
def run (B : Blake3) (parse : List UInt8 → Except SourceError ObservationClass)
    (first : NodeFile) (source : NodeLineFileSource) (events : List TailEvent) : Tailing :=
  Run.final (step B parse) ⟨[first], source, .idle, []⟩ events

section Sample

open CanonicalLedger

def sampleConfig : NodeFileConfig where
  streamName := "fills"
  sourceId := sampleChain
  sourceVersion := "node-v1"
  parserSchemaVersion := "node-v1"
  maxPayloadBytes := 8
  maxInflightObservations := 1
  sourceVersion_valid := by decide +kernel
  parserSchemaVersion_valid := by decide +kernel
  maxPayloadBytes_pos := by decide

def sampleFile (inode : UInt64) : NodeFile := ⟨⟨0, inode⟩, [97, newline]⟩

def sampleEpoch : String := (sampleFile 0).epochOf sumBlake3 "fills"

theorem sampleEpoch_valid : validObservationIdentity sampleEpoch = true := by decide +kernel

def sampleSource : NodeLineFileSource :=
  ⟨sampleConfig, ⟨0, ⟨0, 0⟩, sampleEpoch⟩, 0, none, [], none, false⟩

def sampleRun : List TailEvent → Tailing :=
  run sumBlake3 (fun _ => .ok .committedBlock) (sampleFile 0) sampleSource

end Sample

end Tailing

end AlphaDesk
