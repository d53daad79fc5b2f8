import AlphaDesk.Ledger.History
import AlphaDesk.Spool.Record

/-! # Reading and recovering a segment

A segment is scanned record by record: cursors must advance within one epoch, and the
file may break off in its last record. Recovery cuts a broken record off and leaves a
file with any other fault as it is. The bytes of a segment whose tail is torn are
scanned as the records that are whole.
-/

namespace AlphaDesk

open Bytes Spool List SourceObservation

structure ScanResult where
  recordCount : ℕ
  firstCursor : Option SourceCursor
  lastCursor : Option SourceCursor
  lastValidOffset : ℕ
  lastRecordOffset : Option ℕ
  incompleteTail : Option ℕ

namespace Spool

def checkedSucc (n : ℕ) : Except SpoolError ℕ :=
  if n + 1 < 2 ^ 64 then .ok (n + 1) else .error .sizeOverflow

def validateCursorSuccessor (cursor previous : SourceCursor) : Except SpoolError Unit :=
  match cursor.validateSuccessorOf previous with
  | .ok (.advanced _) => .ok ()
  | .ok .duplicate | .ok .epochChanged | .error _ => .error .cursorRegression

theorem validateCursorSuccessor_eq (cursor previous : SourceCursor) :
    validateCursorSuccessor cursor previous =
      if previous.Advances cursor then .ok () else .error .cursorRegression := by
  unfold validateCursorSuccessor
  fun_cases cursor.validateSuccessorOf previous with
  | case1 hne => rw [if_neg fun hadv => hne hadv.1]
  | case2 _ hlt => rw [if_neg fun hadv => UInt64.lt_asymm hlt hadv.2]
  | case3 _ _ heq => rw [if_neg fun hadv => UInt64.lt_irrefl _ (heq ▸ hadv.2)]
  | case4 hepoch hle hne =>
    rw [if_pos ⟨not_not.mp hepoch, UInt64.lt_of_le_of_ne (UInt64.not_lt.mp hle) (Ne.symm hne)⟩]

/-- The records of a segment file, given where they start. -/
def recordsOf (D : Digests) (file : List UInt8) (recordsOffset : ℕ) :
    Frames SpoolError SpoolRecord :=
  Frames.read (nextRecord D) (file.length + 1) recordsOffset (file.drop recordsOffset)

def validateFollows (cursor : SourceCursor) : Option SourceCursor → Except SpoolError Unit
  | none => .ok ()
  | some previous => validateCursorSuccessor cursor previous

end Spool

namespace ScanResult

def start (recordsOffset : ℕ) : ScanResult := ⟨0, none, none, recordsOffset, none, none⟩

def observe (s : ScanResult) (item : Framed SpoolRecord) : Except SpoolError ScanResult := do
  validateFollows item.value.cursor s.lastCursor
  let recordCount ← checkedSucc s.recordCount
  return {
    recordCount := recordCount
    firstCursor := s.firstCursor <|> some item.value.cursor
    lastCursor := some item.value.cursor
    lastValidOffset := item.stop
    lastRecordOffset := some item.start
    incompleteTail := none }

end ScanResult

def scanRecords (D : Digests) (file : List UInt8) (recordsOffset : ℕ) :
    Except SpoolError ScanResult := do
  let (scan, tail) ← (recordsOf D file recordsOffset).fold ScanResult.observe
    (.start recordsOffset)
  return { scan with incompleteTail := tail }

structure RecoveryReport where
  validRecords : ℕ
  truncatedBytes : ℕ
  finalSize : ℕ
  deriving DecidableEq

/-- The header of a segment, and a scan of its records. -/
def scanSegment (D : Digests) (file : List UInt8) :
    Except SpoolError (SegmentHeader × ScanResult) :=
  do
    let (header, recordsOffset) ← SegmentHeader.readFrom file
    let scan ← scanRecords D file recordsOffset
    return (header, scan)

/-- The report, with the file that recovery leaves. A file with a manifest is closed. The final
size is never above the initial one. -/
def recoverOpenSegment (D : Digests) (closed : Bool) (file : List UInt8) :
    Except SpoolError RecoveryReport × List UInt8 :=
  if closed then (.error .closedSegment, file)
  else
    match scanSegment D file with
    | .error e => (.error e, file)
    | .ok (_, scan) =>
      let finalSize := if scan.incompleteTail.isSome then scan.lastValidOffset else file.length
      (.ok ⟨scan.recordCount, file.length - finalSize, finalSize⟩, file.take finalSize)

namespace SpoolReader

/-- What a loop over all records makes of a segment, which must be whole. -/
def wholeFile {α : Type} : Except SpoolError (α × Option ℕ) → Except SpoolError α
  | .error e => .error e
  | .ok (_, some recordOffset) => .error (.incompleteTail recordOffset)
  | .ok (a, none) => .ok a

def readAll (D : Digests) (file : List UInt8) : Except SpoolError (List SpoolRecord) := do
  let (_, recordsOffset) ← SegmentHeader.readFrom file
  wholeFile ((recordsOf D file recordsOffset).fold
    (fun records item => .ok (records ++ [item.value])) [])

end SpoolReader

/-- A segment: its header and what it records, which can all be written and advances within one
epoch. -/
@[ext]
structure Segment where
  header : SegmentHeader
  records : List SourceObservation
  recordable : ∀ o ∈ records, Recordable o
  advancing : records.Pairwise fun a b => a.cursor.Advances b.cursor

namespace Segment

variable {D : Digests} {seg : Segment}

def bytes (D : Digests) (seg : Segment) : List UInt8 :=
  seg.header.bytes ++ seg.records.flatMap (recordBytes D)

def firstCursor (seg : Segment) : Option SourceCursor := seg.records.head?.map (·.cursor)

def lastCursor (seg : Segment) : Option SourceCursor := seg.records.getLast?.map (·.cursor)

def lastRecordOffset (D : Digests) (seg : Segment) : Option ℕ :=
  seg.records.getLast?.map fun _ =>
    seg.header.bytes.length + (seg.records.dropLast.flatMap (recordBytes D)).length

/-- What a scan makes of the records, one after the other. -/
def scanned (D : Digests) (seg : Segment) : ScanResult :=
  ⟨seg.records.length, seg.firstCursor, seg.lastCursor, (seg.bytes D).length,
    seg.lastRecordOffset D, none⟩

def take (seg : Segment) (n : ℕ) : Segment where
  header := seg.header
  records := seg.records.take n
  recordable o ho := seg.recordable o (mem_of_mem_take ho)
  advancing := seg.advancing.sublist (take_sublist n seg.records)

def concat (seg : Segment) (o : SourceObservation) (ho : Recordable o)
    (hadv : ∀ a ∈ seg.records, a.cursor.Advances o.cursor) : Segment where
  header := seg.header
  records := seg.records ++ [o]
  recordable a ha := by
    rcases mem_append.mp ha with ha | ha
    · exact seg.recordable a ha
    · rwa [mem_singleton.mp ha]
  advancing := by
    refine pairwise_append.mpr ⟨seg.advancing, pairwise_singleton _ _, ?_⟩
    intro a ha b hb
    rw [mem_singleton.mp hb]
    exact hadv a ha

theorem length_bytes (D : Digests) (seg : Segment) : (seg.bytes D).length =
    seg.header.bytes.length + (seg.records.flatMap (recordBytes D)).length :=
  length_append

theorem length_records_le (D : Digests) (seg : Segment) :
    seg.records.length ≤ (seg.records.flatMap (recordBytes D)).length :=
  length_le_length_flatMap (recordBytes_ne_nil D) _

theorem advances_of_lastCursor {cursor : SourceCursor}
    (h : ∀ previous ∈ seg.lastCursor, previous.Advances cursor) {a : SourceObservation}
    (ha : a ∈ seg.records) : a.cursor.Advances cursor := by
  have hne := ne_nil_of_mem ha
  have hlast : (seg.records.getLast hne).cursor.Advances cursor :=
    h _ (by rw [lastCursor, getLast?_eq_some_getLast hne]; rfl)
  have hadv := seg.advancing
  rw [← dropLast_append_getLast hne, pairwise_append] at hadv
  rw [← dropLast_append_getLast hne, mem_append] at ha
  rcases ha with ha | ha
  · exact (hadv.2.2 a ha _ (mem_singleton_self _)).trans hlast
  · rwa [mem_singleton.mp ha]

def empty (header : SegmentHeader) : Segment := ⟨header, [], by simp, .nil⟩

/-- A segment is its header with one record put behind the other. -/
@[elab_as_elim]
theorem concat_induction {P : Segment → Prop} (empty : ∀ header, P (empty header))
    (concat : ∀ seg o ho hadv, P seg → P (seg.concat o ho hadv)) (seg : Segment) : P seg := by
  obtain ⟨header, records, recordable, advancing⟩ := seg
  induction records using reverseRecOn with
  | nil => exact empty header
  | append_singleton records o ih =>
    have hpairs := pairwise_append.mp advancing
    have hrecords : ∀ a ∈ records, Recordable a :=
      fun a ha => recordable a (mem_append_left _ ha)
    exact concat ⟨header, records, hrecords, hpairs.1⟩ o (recordable o (by simp))
      (fun a ha => hpairs.2.2 a ha o (mem_singleton_self o)) (ih hrecords hpairs.1)

variable {o : SourceObservation} {ho : Recordable o}
  {hadv : ∀ a ∈ seg.records, a.cursor.Advances o.cursor} {k : ℕ}

theorem take_succ (hk : seg.records[k]? = some o) (ho : Recordable o)
    (hadv : ∀ a ∈ (seg.take k).records, a.cursor.Advances o.cursor) :
    seg.take (k + 1) = (seg.take k).concat o ho hadv := by
  ext1
  · rfl
  · change seg.records.take (k + 1) = seg.records.take k ++ [o]
    rw [take_add_one, hk]
    rfl

theorem bytes_concat : (seg.concat o ho hadv).bytes D = seg.bytes D ++ recordBytes D o := by
  simp [bytes, concat]

theorem bytes_take_prefix {j : ℕ} (h : j ≤ k) : (seg.take j).bytes D <+: (seg.take k).bytes D := by
  refine (prefix_append_right_inj _).mpr (List.IsPrefix.flatMap ?_ _)
  exact take_prefix_take_left h

theorem bytes_take_succ (hk : seg.records[k]? = some o) :
    (seg.take (k + 1)).bytes D = (seg.take k).bytes D ++ recordBytes D o := by
  simp [bytes, take, take_add_one, hk]

theorem lastCursor_concat : (seg.concat o ho hadv).lastCursor = some o.cursor := by
  simp [lastCursor, concat]

theorem firstCursor_concat :
    (seg.concat o ho hadv).firstCursor = (seg.firstCursor <|> some o.cursor) := by
  simp only [firstCursor, concat, head?_append]
  cases seg.records.head? <;> rfl

theorem lastRecordOffset_concat :
    (seg.concat o ho hadv).lastRecordOffset D = some (seg.bytes D).length := by
  simp [lastRecordOffset, concat, bytes]

theorem observe_concat (hcount : seg.records.length + 1 < 2 ^ 64) :
    (seg.scanned D).observe ⟨(seg.bytes D).length, o.record D.blake3,
      (seg.bytes D).length + (recordBytes D o).length⟩ =
        .ok ((seg.concat o ho hadv).scanned D) := by
  have hfollows : validateFollows o.cursor seg.lastCursor = .ok () := by
    cases hlast : seg.lastCursor with
    | none => rfl
    | some previous =>
      obtain ⟨a, ha, rfl⟩ := Option.map_eq_some_iff.mp hlast
      rw [validateFollows, validateCursorSuccessor_eq,
        if_pos (hadv a (mem_of_getLast? ha))]
  have hsucc : checkedSucc seg.records.length = .ok (seg.records.length + 1) := if_pos hcount
  refine Except.bind_eq_ok.mpr ⟨(), hfollows, Except.bind_eq_ok.mpr ⟨_, hsucc, ?_⟩⟩
  simp only [scanned, firstCursor_concat, lastCursor_concat, lastRecordOffset_concat,
    bytes_concat, length_append]
  simp [concat, record]

theorem foldlM_observe (hcount : seg.records.length < 2 ^ 64) :
    (Frames.placed (recordBytes D) (record D.blake3)
      seg.header.bytes.length seg.records).foldlM ScanResult.observe
        (.start seg.header.bytes.length) = .ok (seg.scanned D) := by
  induction seg using concat_induction with
  | empty header => simp [Frames.placed, scanned, empty, bytes, firstCursor, lastCursor,
      lastRecordOffset, ScanResult.start]
  | concat seg o ho hadv ih =>
    have hcount' : seg.records.length + 1 < 2 ^ 64 := by
      simpa [concat] using hcount
    have hplaced := Frames.placed_append (recordBytes D) (record D.blake3)
      seg.header.bytes.length seg.records [o]
    change (Frames.placed _ _ seg.header.bytes.length (seg.records ++ [o])).foldlM
      ScanResult.observe (ScanResult.start seg.header.bytes.length) = _
    rw [hplaced, foldlM_append]
    refine Except.bind_eq_ok.mpr ⟨_, ih (by omega), ?_⟩
    rw [← length_bytes]
    exact Except.bind_eq_ok.mpr ⟨_, observe_concat hcount', rfl⟩

end Segment

variable {D : Digests} {seg : Segment} {tail : List UInt8}

/-- What may stand behind the whole records of a segment: the beginning of a record, short of
its end. -/
def Torn (D : Digests) (tail : List UInt8) : Prop :=
  tail = [] ∨ ∃ o, Recordable o ∧ tail <+: recordBytes D o ∧ tail ≠ recordBytes D o

theorem nextRecord_of_torn (h : Torn D tail) (recordOffset : ℕ) :
    nextRecord D recordOffset tail = .ok (if tail = [] then .ended else .torn) := by
  obtain rfl | ⟨o, ho, ⟨rest, hrest⟩, hne⟩ := h
  · rfl
  have hrest' : rest ≠ [] := by
    rintro rfl
    exact hne (by simpa using hrest)
  have hpos := length_pos_of_ne_nil hrest'
  obtain ⟨-, -, hsize⟩ := recordable_iff.mp ho
  have hbody := length_recordBody D.blake3 o
  have hlen := length_recordBytes D o
  have hcrc : crcBytes = 4 := rfl
  have hmin : minBodyBytes = 68 := rfl
  have hmax : Spool.maxRecordBytes < 2 ^ 32 := by decide
  have hlength : tail.length + rest.length = (recordBytes D o).length := by
    rw [← hrest, length_append]
  unfold nextRecord
  by_cases hempty : tail = []
  · rw [if_pos hempty, if_pos hempty]
  · rw [if_neg hempty, if_neg hempty]
    by_cases hshort : tail.length < 4
    · rw [if_pos hshort]
    · have htake : tail.take 4 = leBytes 4 (4 + (recordBody D.blake3 o).length) := by
        have hfront : (tail ++ rest).take 4 = tail.take 4 :=
          take_append_of_le_length (by omega)
        rw [← hfront, hrest, recordBytes, append_assoc]
        exact take_left' (length_leBytes _ _)
      have hnat : leNat (tail.take 4) = 4 + (recordBody D.blake3 o).length := by
        rw [htake, leNat_leBytes (by omega)]
      rw [if_neg hshort]
      rw [if_neg (by omega), if_pos (by omega)]

/-- Behind the records of a segment, the reader goes on with what follows them. -/
theorem recordsOf_append (seg : Segment) (tail : List UInt8) : ∃ fuel,
    recordsOf D (seg.bytes D ++ tail) seg.header.bytes.length =
      let later := Frames.read (nextRecord D) (fuel + 1) (seg.bytes D).length tail
      ⟨Frames.placed (recordBytes D) (record D.blake3) seg.header.bytes.length
        seg.records ++ later.items, later.ending⟩ := by
  have hlen := seg.length_records_le D
  have hbytes := seg.length_bytes D
  obtain ⟨fuel, hfuel⟩ : ∃ fuel, (seg.bytes D ++ tail).length + 1 =
      seg.records.length + (fuel + 1) :=
    ⟨(seg.bytes D ++ tail).length - seg.records.length, by rw [length_append]; omega⟩
  have hdrop : (seg.bytes D ++ tail).drop seg.header.bytes.length =
      seg.records.flatMap (recordBytes D) ++ tail := by
    rw [Segment.bytes, append_assoc, drop_left]
  have hholds : ∀ o ∈ seg.records, Frames.Holds (nextRecord D) (recordBytes D o)
      (o.record D.blake3) :=
    fun o ho => holds_recordBytes (seg.recordable o ho)
  refine ⟨fuel, ?_⟩
  rw [recordsOf, hfuel, hdrop, Frames.read_append hholds, ← hbytes]

theorem readFrom_append (seg : Segment) (tail : List UInt8) :
    SegmentHeader.readFrom (seg.bytes D ++ tail) = .ok (seg.header, seg.header.bytes.length) := by
  rw [Segment.bytes, append_assoc, SegmentHeader.readFrom_bytes]

/-- The file breaks off behind the segment, or ends with it. -/
def BreaksOff (D : Digests) (seg : Segment) (tail : List UInt8) : Prop :=
  nextRecord D (seg.bytes D).length tail = .ok (if tail = [] then .ended else .torn)

theorem breaksOff_of_torn (h : Torn D tail) : BreaksOff D seg tail :=
  nextRecord_of_torn h _

theorem recordsOf_of_breaksOff (h : BreaksOff D seg tail) :
    recordsOf D (seg.bytes D ++ tail) seg.header.bytes.length =
      ⟨Frames.placed (recordBytes D) (record D.blake3) seg.header.bytes.length
        seg.records, if tail = [] then .ended else .torn (seg.bytes D).length⟩ := by
  obtain ⟨fuel, hrecords⟩ := recordsOf_append (D := D) seg tail
  rw [hrecords, Frames.read, h]
  by_cases htail : tail = []
  · simp [htail]
  · simp [htail]

theorem scanSegment_of_breaksOff (h : BreaksOff D seg tail) (hcount : seg.records.length < 2 ^ 64) :
    scanSegment D (seg.bytes D ++ tail) = .ok (seg.header, { seg.scanned D with
      incompleteTail := if tail = [] then none else some (seg.bytes D).length }) := by
  have hscan : scanRecords D (seg.bytes D ++ tail) seg.header.bytes.length =
      .ok { seg.scanned D with
        incompleteTail := if tail = [] then none else some (seg.bytes D).length } := by
    rw [scanRecords, recordsOf_of_breaksOff h, Frames.fold, Segment.foldlM_observe hcount]
    by_cases htail : tail = []
    · simp [htail]
    · simp [htail]
  exact Except.bind_eq_ok.mpr ⟨_, readFrom_append seg tail,
    Except.bind_eq_ok.mpr ⟨_, hscan, rfl⟩⟩

/-- Recovery keeps the whole records and cuts off what is torn. -/
theorem recoverOpenSegment_of_breaksOff (h : BreaksOff D seg tail)
    (hcount : seg.records.length < 2 ^ 64) :
    recoverOpenSegment D false (seg.bytes D ++ tail) =
      (.ok ⟨seg.records.length, tail.length, (seg.bytes D).length⟩, seg.bytes D) := by
  rw [recoverOpenSegment, if_neg Bool.false_ne_true, scanSegment_of_breaksOff h hcount]
  by_cases htail : tail = []
  · simp [htail, Segment.scanned]
  · simp [htail, Segment.scanned]

theorem wholeFile_map_none {α : Type} (x : Except SpoolError α) :
    SpoolReader.wholeFile (x.map (·, none)) = x := by
  cases x <;> rfl

theorem readFrom_bytes (seg : Segment) :
    SegmentHeader.readFrom (seg.bytes D) = .ok (seg.header, seg.header.bytes.length) := by
  have hheader := readFrom_append (D := D) seg []
  rwa [append_nil] at hheader

theorem readAll_bytes (seg : Segment) : SpoolReader.readAll D (seg.bytes D) =
    .ok (seg.records.map (record D.blake3)) := by
  have hfold : ∀ values records : List SpoolRecord,
      values.foldlM (fun records value => .ok (records ++ [value])) records =
        (.ok (records ++ values) : Except SpoolError _) := by
    intro values
    induction values with
    | nil => simp
    | cons value values ih => simp [ih]
  refine Except.bind_eq_ok.mpr ⟨_, readFrom_bytes seg, ?_⟩
  dsimp only
  have hends : BreaksOff D seg [] := breaksOff_of_torn (.inl rfl)
  have hrecords := recordsOf_of_breaksOff hends
  rw [append_nil, if_pos rfl] at hrecords
  rw [hrecords, Frames.fold_ended _ fun records value => .ok (records ++ [value]),
    Frames.map_value_placed, wholeFile_map_none, hfold]
  rfl

variable {altered : List UInt8}

/-- The length in front of the bytes is one that a record may have, and more than there are. -/
def RunsPast (bytes : List UInt8) : Prop :=
  4 ≤ leNat (bytes.take 4) ∧ leNat (bytes.take 4) ≤ Spool.maxRecordBytes ∧
    bytes.length < 4 + leNat (bytes.take 4)

/-- No valid record is read from the front of the bytes. -/
def Undecodable (D : Digests) (recordOffset : ℕ) (bytes : List UInt8) : Prop :=
  ∀ record size, nextRecord D recordOffset bytes ≠ .ok (.item record size)

theorem nextRecord_of_undecodable {recordOffset : ℕ} {bytes : List UInt8}
    (h : Undecodable D recordOffset bytes) (hlen : 4 ≤ bytes.length) :
    (RunsPast bytes ∧ nextRecord D recordOffset bytes = .ok .torn) ∨
    (¬RunsPast bytes ∧ ∃ e, nextRecord D recordOffset bytes = .error e) := by
  have hne : bytes ≠ [] := ne_nil_of_length_pos (by omega)
  unfold Undecodable at h
  unfold nextRecord at h ⊢
  simp only [if_neg hne, if_neg (Nat.not_lt.mpr hlen)] at h ⊢
  by_cases hrange : leNat (bytes.take 4) < 4 ∨ Spool.maxRecordBytes < leNat (bytes.take 4)
  · rw [if_pos hrange]
    exact .inr ⟨fun hpast => by obtain ⟨h₁, h₂, -⟩ := hpast; omega, _, rfl⟩
  · rw [if_neg hrange] at h ⊢
    by_cases hshort : bytes.length < 4 + leNat (bytes.take 4)
    · rw [if_pos hshort]
      exact .inl ⟨⟨by omega, by omega, hshort⟩, rfl⟩
    · rw [if_neg hshort] at h ⊢
      refine .inr ⟨fun hpast => hshort hpast.2.2, ?_⟩
      cases hdecode : decodeRecord D ((bytes.drop 4).take (leNat (bytes.take 4)))
          recordOffset with
      | error e => exact ⟨e, rfl⟩
      | ok record =>
        rw [hdecode] at h
        exact absurd rfl (h record _)

theorem recovery_of_undecodable (hcount : seg.records.length < 2 ^ 64) (hlen : 4 ≤ altered.length)
    (h : Undecodable D (seg.bytes D).length altered) :
    (RunsPast altered ∧ recoverOpenSegment D false (seg.bytes D ++ altered) =
      (.ok ⟨seg.records.length, altered.length, (seg.bytes D).length⟩, seg.bytes D)) ∨
    (¬RunsPast altered ∧ ∃ e, recoverOpenSegment D false (seg.bytes D ++ altered) =
      (.error e, seg.bytes D ++ altered)) := by
  have hne : altered ≠ [] := ne_nil_of_length_pos (by omega)
  obtain ⟨hpast, htorn⟩ | ⟨hpast, e, herror⟩ := nextRecord_of_undecodable h hlen
  · refine .inl ⟨hpast, recoverOpenSegment_of_breaksOff ?_ hcount⟩
    rw [BreaksOff, if_neg hne, htorn]
  · refine .inr ⟨hpast, e, ?_⟩
    obtain ⟨fuel, hrecords⟩ := recordsOf_append (D := D) seg altered
    have hscan : scanRecords D (seg.bytes D ++ altered) seg.header.bytes.length = .error e := by
      rw [scanRecords, hrecords, Frames.read, herror, Frames.fold]
      simp only [append_nil, Segment.foldlM_observe hcount]
      rfl
    have hsegment : scanSegment D (seg.bytes D ++ altered) = .error e := by
      rw [scanSegment, readFrom_append]
      simp only [Except.ok_bind, hscan, Except.error_bind]
    rw [recoverOpenSegment, if_neg Bool.false_ne_true, hsegment]

/-- The bytes of a segment with other bytes in the place of a record. -/
def Segment.alteredBytes (D : Digests) (seg : Segment) (i : ℕ) (altered : List UInt8) :
    List UInt8 :=
  (seg.take i).bytes D ++ (altered ++ (seg.records.drop (i + 1)).flatMap (recordBytes D))

/-- A record that was altered so that it is none any more makes recovery fail, with the file as it
is, exactly when the length in front of the altered bytes does not run past the end of the file. -/
theorem recovery_refuses_iff {i : Fin seg.records.length} (hsize : (seg.bytes D).length < 2 ^ 64)
    (hlen : altered.length = (recordBytes D (seg.records.get i)).length)
    (h : Undecodable D ((seg.take i).bytes D).length
      (altered ++ (seg.records.drop (i + 1)).flatMap (recordBytes D))) :
    (∃ e, recoverOpenSegment D false (seg.alteredBytes D i altered) =
      (.error e, seg.alteredBytes D i altered)) ↔
    ¬RunsPast (altered ++ (seg.records.drop (i + 1)).flatMap (recordBytes D)) := by
  have hcount : (seg.take i).records.length < 2 ^ 64 := by
    have htake : (seg.take i).records.length ≤ seg.records.length := length_take_le' _ _
    have hrecords := seg.length_records_le D
    have hbytes := seg.length_bytes D
    omega
  have hfour : 4 ≤ (altered ++ (seg.records.drop (i + 1)).flatMap (recordBytes D)).length := by
    rw [length_append, hlen, length_recordBytes]
    omega
  obtain ⟨hpast, hok⟩ | ⟨hpast, herror⟩ := recovery_of_undecodable hcount hfour h
  · refine iff_of_false ?_ (not_not.mpr hpast)
    rintro ⟨e, he⟩
    rw [Segment.alteredBytes, hok] at he
    cases congrArg Prod.fst he
  · exact iff_of_true herror hpast

section Sample

open CanonicalLedger

def sumDigests : Digests := ⟨fun bytes => (bytes.map UInt8.toUInt32).foldl (· + ·) 0, sumBlake3⟩

def sampleHeader : SegmentHeader where
  sourceId := sampleChain
  sourceVersion := "v1"
  schemaVersion := "spool"
  segmentSequence := 1
  createdAtMicros := 0
  producerBuildHash := .replicate 32 0
  cursorPolicy := .contiguousNativeOffset
  sourceId_valid := by decide
  sourceVersion_valid := by decide
  schemaVersion_valid := by decide
  createdAtMicros_lt := ProtocolTime.zero_lt

def sampleObservation (offset : UInt64) : SourceObservation where
  sourceId := sampleChain
  sourceVersion := "v1"
  observationClass := .snapshot
  cursor := ⟨"epoch", offset, by decide⟩
  received := ⟨0, 0, ProtocolTime.zero_lt⟩
  parserSchemaVersion := "v1"
  payload := [7]
  warnings := []
  sourceVersion_valid := by decide
  parserSchemaVersion_valid := by decide
  payload_ne_nil := by decide

theorem recordable_sampleObservation (offset : UInt64) : Recordable (sampleObservation offset) :=
  recordable_iff.mpr ⟨rfl, (by decide : 1 ≤ maxPayloadBytes),
    (by decide : crcBytes + minBodyBytes + 5 + 2 + 1 ≤ Spool.maxRecordBytes)⟩

def sampleSegment : Segment where
  header := sampleHeader
  records := [sampleObservation 1, sampleObservation 2]
  recordable := by simp [recordable_sampleObservation]
  advancing := by simp [sampleObservation, SourceCursor.Advances]

/-- The first record with another byte in it. -/
def alteredRecord (position : ℕ) : List UInt8 :=
  (recordBytes sumDigests (sampleObservation 1)).set position 1

/-- A changed body is refused. -/
theorem recovery_refuses_iff_sampleSegment :
    ∃ e, recoverOpenSegment sumDigests false
      (sampleSegment.alteredBytes sumDigests 0 (alteredRecord 30)) =
        (.error e, sampleSegment.alteredBytes sumDigests 0 (alteredRecord 30)) := by
  have hundecodable : Undecodable sumDigests ((sampleSegment.take 0).bytes sumDigests).length
      (alteredRecord 30 ++ (sampleSegment.records.drop 1).flatMap (recordBytes sumDigests)) := by
    have herror : (nextRecord sumDigests ((sampleSegment.take 0).bytes sumDigests).length
        (alteredRecord 30 ++ (sampleSegment.records.drop 1).flatMap
          (recordBytes sumDigests))).isOk = false := by decide +kernel
    intro record size hitem
    rw [hitem] at herror
    cases herror
  have hlen : (alteredRecord 30).length =
      (recordBytes sumDigests (sampleSegment.records.get ⟨0, by decide⟩)).length := by
    decide +kernel
  refine (recovery_refuses_iff (by decide +kernel) hlen hundecodable).mpr ?_
  rintro ⟨-, -, hpast⟩
  revert hpast
  decide +kernel

/-- A changed length makes the first record look torn, and both records are cut off. -/
theorem recovery_cuts_intact_record :
    (alteredRecord 3).length = (recordBytes sumDigests (sampleObservation 1)).length ∧
    sampleSegment.records.length = 2 ∧
    recoverOpenSegment sumDigests false
      (sampleSegment.alteredBytes sumDigests 0 (alteredRecord 3)) =
        (.ok ⟨0, 162, 84⟩, sampleHeader.bytes) := by
  refine ⟨by decide +kernel, rfl, ?_⟩
  decide +kernel

end Sample

end AlphaDesk
