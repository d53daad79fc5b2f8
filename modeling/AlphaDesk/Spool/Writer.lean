import AlphaDesk.Spool.Reader

/-! # Writing a segment

A writer appends records to its segment and syncs them at once or in batches. It
mirrors the segment that it has written: a writer on a recovered segment goes on as
the one that was interrupted would have.
-/

namespace AlphaDesk

open Bytes Spool List Segment

/-- When appended records are synced. Delays are in nanoseconds, as the clock is. -/
inductive DurabilityPolicy
  | fsyncEveryRecord
  | fsyncEvery (maxRecords : UInt32) (maxDelay : ℕ)

structure AppendReceipt where
  segmentSequence : UInt64
  recordOffset : ℕ
  durableCursor : SourceCursor
  durableAtMicros : Int64

structure SpoolWriter where
  header : SegmentHeader
  durability : DurabilityPolicy
  pendingRecords : ℕ
  pendingSince : Option ℕ
  lastCursor : Option SourceCursor
  minCursor : Option SourceCursor
  lastRecordOffset : Option ℕ
  recordCount : ℕ

namespace Spool

/-- A deadline is always taken to be one that the clock can reach. -/
def validateDurability : DurabilityPolicy → Except SpoolError Unit
  | .fsyncEveryRecord => .ok ()
  | .fsyncEvery maxRecords maxDelay =>
    if 0 < maxRecords ∧ maxDelay ≠ 0 then .ok () else .error .invalidDurabilityPolicy

def validateTimestamp (timestampMicros : Int64) : Except SpoolError Unit :=
  if timestampMicros < 0 then .error .invalidTimestamp else .ok ()

end Spool

namespace SpoolWriter

/-- A writer on a new file, with the bytes of the file. -/
def create (durability : DurabilityPolicy) (header : SegmentHeader) :
    Except SpoolError (SpoolWriter × List UInt8) := do
  validateDurability durability
  let encoded ← header.encode
  return (⟨header, durability, 0, none, none, none, none, 0⟩, encoded)

/-- A writer on a file of an interrupted one, under the sequence number of its name, with the file
that recovery leaves. -/
def openRecovered (D : Digests) (durability : DurabilityPolicy) (sequence : UInt64) (closed : Bool)
    (file : List UInt8) : Except SpoolError (SpoolWriter × RecoveryReport) × List UInt8 :=
  match validateDurability durability with
  | .error e => (.error e, file)
  | .ok () =>
    match recoverOpenSegment D closed file with
    | (.error e, file) => (.error e, file)
    | (.ok report, file) =>
      match scanSegment D file with
      | .error e => (.error e, file)
      | .ok (header, scan) =>
        if header.segmentSequence ≠ sequence then (.error .invalidHeader, file)
        else
          match scan.incompleteTail with
          | some recordOffset => (.error (.incompleteTail recordOffset), file)
          | none =>
            if scan.recordCount ≠ report.validRecords then (.error .sizeOverflow, file)
            else (.ok (⟨header, durability, 0, none, scan.lastCursor, scan.firstCursor,
              scan.lastRecordOffset, scan.recordCount⟩, report), file)

/-- The records written since the last sync are due for the next one. -/
def shouldSync (w : SpoolWriter) (now : ℕ) : Bool :=
  match w.durability with
  | .fsyncEveryRecord => true
  | .fsyncEvery maxRecords maxDelay =>
    maxRecords.toNat ≤ w.pendingRecords ||
      w.pendingSince.any fun started => started + maxDelay ≤ now

def syncPending (w : SpoolWriter) (durableAtMicros : Int64) :
    Except SpoolError (Option AppendReceipt × SpoolWriter) :=
  if w.pendingRecords = 0 then .ok (none, w)
  else do
    validateTimestamp durableAtMicros
    let recordOffset ← Except.ofOption .sizeOverflow w.lastRecordOffset
    let durableCursor ← Except.ofOption .sizeOverflow w.lastCursor
    return (some ⟨w.header.segmentSequence, recordOffset, durableCursor, durableAtMicros⟩,
      { w with pendingRecords := 0, pendingSince := none })

/-- What is checked before a record is written. -/
def admitRecord (D : Digests) (w : SpoolWriter) (o : SourceObservation) (durableAtMicros : Int64) :
    Except SpoolError (List UInt8) := do
  validateTimestamp durableAtMicros
  if o.sourceId ≠ w.header.sourceId ∨ o.sourceVersion ≠ w.header.sourceVersion then
    throw .sourceMismatch
  else do
    validateFollows o.cursor w.lastCursor
    encodeRecord D o

def written (w : SpoolWriter) (cursor : SourceCursor) (recordOffset now : ℕ) : SpoolWriter :=
  { w with
    pendingRecords := w.pendingRecords + 1
    pendingSince := w.pendingSince <|> some now
    lastCursor := some cursor
    minCursor := w.minCursor <|> some cursor
    lastRecordOffset := some recordOffset
    recordCount := w.recordCount + 1 }

/-- The reply, with the writer and the file behind it. A record that was written stays in the file
when a count overflows. -/
def append (D : Digests) (w : SpoolWriter) (file : List UInt8) (o : SourceObservation)
    (durableAtMicros : Int64) (now : ℕ) :
    Except SpoolError (Option AppendReceipt) × SpoolWriter × List UInt8 :=
  match w.admitRecord D o durableAtMicros with
  | .error e => (.error e, w, file)
  | .ok encoded =>
    if 2 ^ 32 ≤ w.pendingRecords + 1 then (.error .sizeOverflow, w, file ++ encoded)
    else
      let w' := w.written o.cursor file.length now
      if 2 ^ 64 ≤ w.recordCount + 1 then
        (.error .sizeOverflow, { w' with recordCount := w.recordCount }, file ++ encoded)
      else if w'.shouldSync now then
        match w'.syncPending durableAtMicros with
        | .error e => (.error e, w', file ++ encoded)
        | .ok (receipt, w'') => (.ok receipt, w'', file ++ encoded)
      else (.ok none, w', file ++ encoded)

variable {D : Digests} {w : SpoolWriter} {seg : Segment} {o : SourceObservation}
  {durableAtMicros : Int64} {now n : ℕ} {durability : DurabilityPolicy} {encoded : List UInt8}

/-- The records that may wait for a sync under a policy. -/
def MayWait (pendingRecords : ℕ) : DurabilityPolicy → Prop
  | .fsyncEveryRecord => pendingRecords = 0
  | .fsyncEvery maxRecords _ => pendingRecords < maxRecords.toNat

structure Writes (D : Digests) (seg : Segment) (w : SpoolWriter) : Prop where
  header : w.header = seg.header
  lastCursor : w.lastCursor = seg.lastCursor
  minCursor : w.minCursor = seg.firstCursor
  lastRecordOffset : w.lastRecordOffset = seg.lastRecordOffset D
  recordCount : w.recordCount = seg.records.length
  mayWait : MayWait w.pendingRecords w.durability

theorem mayWait_zero (h : validateDurability durability = .ok ()) : MayWait 0 durability := by
  cases durability with
  | fsyncEveryRecord => rfl
  | fsyncEvery maxRecords maxDelay =>
    by_cases hpos : 0 < maxRecords ∧ maxDelay ≠ 0
    · exact hpos.1
    · rw [validateDurability, if_neg hpos] at h
      cases h

theorem admitRecord_eq_ok :
    w.admitRecord D o durableAtMicros = .ok encoded ↔
    ¬durableAtMicros < 0 ∧ (o.sourceId = w.header.sourceId ∧
      o.sourceVersion = w.header.sourceVersion) ∧
    (∀ previous ∈ w.lastCursor, previous.Advances o.cursor) ∧ Recordable o ∧
    encoded = recordBytes D o := by
  have hfollows : validateFollows o.cursor w.lastCursor = .ok () ↔
      ∀ previous ∈ w.lastCursor, previous.Advances o.cursor := by
    cases w.lastCursor with
    | none => simp [validateFollows]
    | some previous => simp [validateFollows, validateCursorSuccessor_eq]
  have htime : validateTimestamp durableAtMicros = .ok () ↔ ¬durableAtMicros < 0 := by
    simp [validateTimestamp]
  rw [← hfollows, ← htime, ← encodeRecord_eq_ok]
  constructor
  · intro h
    obtain ⟨⟨⟩, htime, h⟩ := Except.of_bind h
    obtain ⟨hsource, h⟩ := Except.of_check h
    obtain ⟨⟨⟩, hfollows, h⟩ := Except.of_bind h
    exact ⟨htime, by simpa using hsource, hfollows, h⟩
  · rintro ⟨htime, hsource, hfollows, h⟩
    exact Except.bind_eq_ok.mpr ⟨(), htime, Except.ite_error_eq_ok.mpr
      ⟨by simpa using hsource, Except.bind_eq_ok.mpr ⟨(), hfollows, h⟩⟩⟩

theorem MayWait.lt (h : MayWait n durability) : n + 1 < 2 ^ 32 := by
  cases durability with
  | fsyncEveryRecord =>
    change n = 0 at h
    omega
  | fsyncEvery maxRecords maxDelay =>
    have hlt := maxRecords.toNat_lt
    change n < maxRecords.toNat at h
    omega

theorem MayWait.zero (h : MayWait n durability) : MayWait 0 durability := by
  cases durability with
  | fsyncEveryRecord => rfl
  | fsyncEvery maxRecords maxDelay => exact Nat.zero_lt_of_lt h

theorem shouldSync_of_fsyncEveryRecord (h : w.durability = .fsyncEveryRecord) :
    w.shouldSync now = true := by
  rw [shouldSync, h]

theorem mayWait_of_shouldSync (h : w.shouldSync now = false) :
    MayWait w.pendingRecords w.durability := by
  unfold shouldSync at h
  cases hd : w.durability with
  | fsyncEveryRecord =>
    rw [hd] at h
    cases h
  | fsyncEvery maxRecords maxDelay =>
    rw [hd] at h
    simp only [Bool.or_eq_false_iff, decide_eq_false_iff_not, not_le] at h
    exact h.1

/-- A written record is one more of the segment, whatever still waits for a sync. -/
theorem Writes.written (now : ℕ) (hw : w.Writes D seg) {ho : Recordable o}
    {hadv : ∀ a ∈ seg.records, a.cursor.Advances o.cursor} {since : Option ℕ}
    (hwait : MayWait n w.durability) :
    Writes D (seg.concat o ho hadv) { w.written o.cursor (seg.bytes D).length now with
      pendingRecords := n, pendingSince := since } := by
  refine ⟨hw.header, ?_, ?_, ?_, ?_, hwait⟩
  · rw [lastCursor_concat]
    rfl
  · rw [firstCursor_concat, ← hw.minCursor]
    rfl
  · rw [lastRecordOffset_concat]
    rfl
  · simp [SpoolWriter.written, Segment.concat, hw.recordCount]

theorem Writes.append (now : ℕ) (hw : w.Writes D seg) (hcount : seg.records.length + 1 < 2 ^ 64)
    (hadmitted : w.admitRecord D o durableAtMicros = .ok encoded) :
    ∃ ho hadv receipt w', w.append D (seg.bytes D) o durableAtMicros now =
        (.ok receipt, w', (seg.concat o ho hadv).bytes D) ∧
      w'.Writes D (seg.concat o ho hadv) ∧ w'.durability = w.durability ∧
      (∀ r ∈ receipt, r.durableCursor = o.cursor) ∧
      (w.durability = .fsyncEveryRecord → receipt.isSome = true) := by
  obtain ⟨htime, -, hfollows, ho, rfl⟩ := admitRecord_eq_ok.mp hadmitted
  rw [hw.lastCursor] at hfollows
  have hadv : ∀ a ∈ seg.records, a.cursor.Advances o.cursor :=
    fun a ha => advances_of_lastCursor hfollows ha
  have hpending := hw.mayWait.lt
  have hrecords := hw.recordCount
  refine ⟨ho, hadv, ?_⟩
  rw [SpoolWriter.append, hadmitted, bytes_concat]
  dsimp only
  rw [if_neg (by omega), if_neg (by omega)]
  by_cases hsync : (w.written o.cursor (seg.bytes D).length now).shouldSync now = true
  · have hvalid : validateTimestamp durableAtMicros = .ok () := if_neg htime
    have hreceipt : (w.written o.cursor (seg.bytes D).length now).syncPending durableAtMicros =
        .ok (some ⟨w.header.segmentSequence, (seg.bytes D).length, o.cursor, durableAtMicros⟩,
          { w.written o.cursor (seg.bytes D).length now with
            pendingRecords := 0, pendingSince := none }) := by
      have hne : (w.written o.cursor (seg.bytes D).length now).pendingRecords ≠ 0 :=
        Nat.succ_ne_zero _
      rw [syncPending, if_neg hne, hvalid]
      rfl
    rw [if_pos hsync, hreceipt]
    refine ⟨_, _, rfl, hw.written now hw.mayWait.zero, rfl, ?_, fun _ => rfl⟩
    intro r hr
    rw [← Option.some.inj hr]
  · rw [if_neg hsync]
    have hwait := mayWait_of_shouldSync (Bool.eq_false_iff.mpr hsync)
    have hevery : w.durability = .fsyncEveryRecord →
        (w.written o.cursor (seg.bytes D).length now).shouldSync now = true :=
      fun hd => shouldSync_of_fsyncEveryRecord hd
    refine ⟨none, w.written o.cursor (seg.bytes D).length now, rfl, ?_, rfl, nofun,
      fun hd => absurd (hevery hd) hsync⟩
    exact hw.written now hwait

variable {tail : List UInt8} {k : ℕ}

structure AppendCall where
  observation : SourceObservation
  durableAtMicros : Int64
  now : ℕ

def call (D : Digests) (s : SpoolWriter × List UInt8) (c : AppendCall) :
    Except SpoolError (Option AppendReceipt) × SpoolWriter × List UInt8 :=
  s.1.append D s.2 c.observation c.durableAtMicros c.now

def Suits (header : SegmentHeader) (c : AppendCall) : Prop :=
  ¬c.durableAtMicros < 0 ∧ c.observation.sourceId = header.sourceId ∧
    c.observation.sourceVersion = header.sourceVersion

/-- The calls all succeed and take the file of the writer to another one. -/
def Completes (D : Digests) (w : SpoolWriter) (file : List UInt8) (calls : List AppendCall)
    (whole : List UInt8) : Prop :=
  (∀ reply ∈ Run.outputs (call D) (w, file) calls, reply.isOk = true) ∧
    (Run.final (fun s c => (call D s c).2) (w, file) calls).2 = whole

theorem Writes.completes {calls : List AppendCall} (hw : w.Writes D (seg.take k))
    (hcount : seg.records.length < 2 ^ 64)
    (hcalls : calls.map AppendCall.observation = seg.records.drop k)
    (hsuits : ∀ c ∈ calls, Suits seg.header c) :
    Completes D w ((seg.take k).bytes D) calls (seg.bytes D) := by
  induction calls generalizing k w with
  | nil =>
    have hk : seg.records.length ≤ k := drop_eq_nil_iff.mp hcalls.symm
    have htake : seg.take k = seg := by
      ext1
      · rfl
      · exact take_of_length_le hk
    exact ⟨by simp [Run.outputs], by rw [htake]; rfl⟩
  | cons c calls ih =>
    obtain ⟨htime, hsource⟩ := hsuits c mem_cons_self
    have hk : seg.records[k]? = some c.observation := by
      have hhead := congrArg head? hcalls
      rw [head?_drop] at hhead
      exact hhead.symm
    have hlt : k < seg.records.length := (List.getElem?_eq_some_iff.mp hk).1
    have hadv : ∀ a ∈ (seg.take k).records, a.cursor.Advances c.observation.cursor := by
      have hpairs := seg.advancing
      rw [← take_append_drop k seg.records, ← hcalls] at hpairs
      exact fun a ha => (pairwise_append.mp hpairs).2.2 a ha _ mem_cons_self
    have hadmitted : w.admitRecord D c.observation c.durableAtMicros =
        .ok (recordBytes D c.observation) := by
      refine admitRecord_eq_ok.mpr ⟨htime, by rw [hw.header]; exact hsource, ?_,
        seg.recordable _ (mem_of_getElem? hk), rfl⟩
      intro previous hprevious
      rw [hw.lastCursor] at hprevious
      obtain ⟨a, ha, rfl⟩ := Option.map_eq_some_iff.mp hprevious
      exact hadv a (mem_of_getLast? ha)
    have hlength : (seg.take k).records.length + 1 < 2 ^ 64 := by
      have htake : (seg.take k).records.length ≤ k := length_take_le _ _
      omega
    obtain ⟨ho, hadv, receipt, w', happend, hw', -⟩ := hw.append c.now hlength hadmitted
    rw [← take_succ hk ho hadv] at happend hw'
    have hlater := ih hw' (by rw [← tail_drop, ← hcalls]; rfl)
      fun d hd => hsuits d (mem_cons_of_mem c hd)
    have hcall : call D (w, (seg.take k).bytes D) c =
        (.ok receipt, w', (seg.take (k + 1)).bytes D) := happend
    rw [Completes, Run.outputs, Run.final_cons, hcall]
    exact ⟨forall_mem_cons.mpr ⟨rfl, hlater.1⟩, hlater.2⟩

theorem openRecovered_of_breaksOff (h : BreaksOff D seg tail) (hcount : seg.records.length < 2 ^ 64)
    (hdurability : validateDurability durability = .ok ()) :
    ∃ w, openRecovered D durability seg.header.segmentSequence false (seg.bytes D ++ tail) =
        (.ok (w, ⟨seg.records.length, tail.length, (seg.bytes D).length⟩), seg.bytes D) ∧
      w.durability = durability ∧ w.Writes D seg := by
  have hends : BreaksOff D seg [] := breaksOff_of_torn (.inl rfl)
  have hwhole := scanSegment_of_breaksOff hends hcount
  rw [append_nil] at hwhole
  refine ⟨⟨seg.header, durability, 0, none, seg.lastCursor, seg.firstCursor,
    seg.lastRecordOffset D, seg.records.length⟩, ?_, rfl, rfl, rfl, rfl, rfl, rfl,
    mayWait_zero hdurability⟩
  rw [openRecovered, hdurability, recoverOpenSegment_of_breaksOff h hcount]
  simp only [hwhole]
  simp [scanned]

theorem bytes_take_prefix_iff {j : ℕ} (hj : j ≤ seg.records.length)
    (htail : tail = [] ∨ ∃ o, seg.records[k]? = some o ∧ tail <+: recordBytes D o ∧
      tail ≠ recordBytes D o) : (seg.take j).bytes D <+: (seg.take k).bytes D ++ tail ↔ j ≤ k := by
  constructor
  · intro hprefix
    by_contra hlt
    have hk : k < seg.records.length := by omega
    have hnext := getElem?_eq_getElem hk
    -- the next record would be whole as well
    have hwhole : recordBytes D (seg.records[k]) <+: tail := by
      have hsucc : (seg.take (k + 1)).bytes D <+: (seg.take k).bytes D ++ tail :=
        ( bytes_take_prefix (Nat.lt_of_not_le hlt)).trans hprefix
      rw [bytes_take_succ hnext] at hsucc
      exact (prefix_append_right_inj _).mp hsucc
    obtain rfl | ⟨o, ho, htail, hne⟩ := htail
    · exact recordBytes_ne_nil D _ (prefix_nil.mp hwhole)
    · obtain rfl := Option.mem_unique hnext ho
      exact hne (htail.eq_of_length_le hwhole.length_le)
  · intro hle
    exact ( bytes_take_prefix hle).trans (prefix_append _ _)

/-- A file that was cut anywhere behind its header is recovered to the records that are whole in
it. Another recovery finds nothing to cut, and a writer that goes on with the missing records
completes the file of the writer that was interrupted. -/
theorem recovery_of_cut {file : List UInt8} (hsize : (seg.bytes D).length < 2 ^ 64)
    (hheader : seg.header.bytes <+: file) (hfile : file <+: seg.bytes D) :
    ∃ k ≤ seg.records.length,
      (∀ j ≤ seg.records.length, (seg.take j).bytes D <+: file ↔ j ≤ k) ∧
      SpoolReader.readAll D ((seg.take k).bytes D) =
        .ok ((seg.records.take k).map (SourceObservation.record D.blake3)) ∧
      let kept := (seg.take k).bytes D
      let report : RecoveryReport := ⟨k, file.length - kept.length, kept.length⟩
      recoverOpenSegment D false file = (.ok report, kept) ∧
      recoverOpenSegment D false kept = (.ok ⟨k, 0, kept.length⟩, kept) ∧
      ∀ durability, validateDurability durability = .ok () →
        ∃ whole resumed, create durability seg.header = .ok (whole, seg.header.bytes) ∧
          openRecovered D durability seg.header.segmentSequence false file =
            (.ok (resumed, report), kept) ∧
          ∀ calls, calls.map AppendCall.observation = seg.records →
            (∀ c ∈ calls, Suits seg.header c) →
            Completes D whole seg.header.bytes calls (seg.bytes D) ∧
            Completes D resumed kept (calls.drop k) (seg.bytes D) := by
  obtain ⟨body, rfl⟩ := hheader
  obtain ⟨k, hk, tail, rfl, htail⟩ :=
    Frames.exists_split_of_prefix ((prefix_append_right_inj _).mp hfile)
  have hkept : seg.header.bytes ++ ((seg.records.take k).flatMap (recordBytes D) ++ tail) =
      (seg.take k).bytes D ++ tail := (append_assoc ..).symm
  rw [hkept]
  have hlength : (seg.take k).records.length = k := length_take_of_le hk
  have hcount : seg.records.length < 2 ^ 64 := by
    have hrecords := seg.length_records_le D
    have hbytes := seg.length_bytes D
    omega
  have htorn : Torn D tail := by
    obtain rfl | ⟨o, ho, hprefix, hne⟩ := htail
    · exact .inl rfl
    · exact .inr ⟨o, seg.recordable o (mem_of_getElem? ho), hprefix, hne⟩
  have hcount' : (seg.take k).records.length < 2 ^ 64 := by omega
  have hcut : ((seg.take k).bytes D ++ tail).length - ((seg.take k).bytes D).length =
      tail.length := by simp
  refine ⟨k, hk, fun j hj => bytes_take_prefix_iff hj htail, readAll_bytes _, ?_⟩
  simp only [hcut]
  refine ⟨?_, ?_, ?_⟩
  · have hrecovered := recoverOpenSegment_of_breaksOff (breaksOff_of_torn htorn) hcount'
    rwa [hlength] at hrecovered
  · have hends : BreaksOff D (seg.take k) [] := breaksOff_of_torn (.inl rfl)
    have hrecovered := recoverOpenSegment_of_breaksOff hends hcount'
    rwa [hlength, append_nil] at hrecovered
  · intro durability hdurability
    let whole : SpoolWriter := ⟨seg.header, durability, 0, none, none, none, none, 0⟩
    have hwhole : whole.Writes D (.empty seg.header) :=
      ⟨rfl, rfl, rfl, rfl, rfl, mayWait_zero hdurability⟩
    have hcreate : create durability seg.header = .ok (whole, seg.header.bytes) := by
      rw [create, hdurability, seg.header.encode_eq]
      rfl
    obtain ⟨resumed, hopen, -, hresumed⟩ :=
      openRecovered_of_breaksOff (breaksOff_of_torn htorn) hcount' hdurability
    rw [hlength] at hopen
    have hempty : (empty seg.header).bytes D = seg.header.bytes := append_nil _
    have hstart : seg.take 0 = .empty seg.header := rfl
    rw [← hstart] at hwhole hempty
    refine ⟨whole, resumed, hcreate, hopen, fun calls hcalls hsuits => ⟨?_, ?_⟩⟩
    · rw [← hempty]
      exact hwhole.completes hcount hcalls hsuits
    · exact hresumed.completes hcount (by rw [map_drop, hcalls])
        fun c hc => hsuits c (mem_of_mem_drop hc)

/-- A cut in the second record. -/
theorem recovery_of_cut_sampleSegment :
    ∃ k resumed report, openRecovered sumDigests .fsyncEveryRecord 1 false
        ((sampleSegment.bytes sumDigests).take 170) =
          (.ok (resumed, report), (sampleSegment.take k).bytes sumDigests) ∧
      Completes sumDigests resumed ((sampleSegment.take k).bytes sumDigests)
        ((sampleSegment.records.map (⟨·, 0, 0⟩)).drop k) (sampleSegment.bytes sumDigests) := by
  obtain ⟨k, -, -, -, -, -, hresume⟩ := recovery_of_cut (D := sumDigests)
    (by decide +kernel) (by decide +kernel) ( take_prefix 170 (sampleSegment.bytes sumDigests))
  obtain ⟨whole, resumed, -, hopen, hcompletes⟩ := hresume .fsyncEveryRecord rfl
  refine ⟨k, resumed, _, hopen, (hcompletes _ rfl ?_).2⟩
  simp [Suits, sampleSegment, sampleObservation, sampleHeader]

end SpoolWriter

end AlphaDesk
