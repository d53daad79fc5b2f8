import AlphaDesk.Domain.Ids
import AlphaDesk.Foundation.SortedList

/-! # Source evidence

An event carries a piece of evidence from each source that reported it: where the
source has it (the locator) and the hash of what the source has there.
-/

namespace AlphaDesk

open Bytes

/-- Nonnegative microseconds since the epoch at which something became known. -/
abbrev KnownTime := ProtocolTime

abbrev RequiredText := StringId

structure SourceEvidence where
  sourceId : SourceId
  sourceVersion : RequiredText
  sourceOffset : RequiredText
  contentHash : Hash32
  sourceEventIndex : Option UInt32
  deriving DecidableEq

namespace SourceEvidence

def sameEvidenceLocator (left right : SourceEvidence) : Bool :=
  left.sourceId = right.sourceId && left.sourceVersion = right.sourceVersion &&
    left.sourceOffset = right.sourceOffset && left.sourceEventIndex = right.sourceEventIndex

/-- The same place of a source with other content. -/
def conflicts (left right : SourceEvidence) : Bool :=
  sameEvidenceLocator left right && left.contentHash ≠ right.contentHash

/-- Evidence is ordered by its locator, then by its content. -/
def compareSourceEvidence : SourceEvidence → SourceEvidence → Ordering :=
  compareLex (compareOn sourceId) <| compareLex (compareOn sourceVersion) <|
    compareLex (compareOn sourceOffset) <| compareLex (compareOn sourceEventIndex) <|
      compareOn fun e => e.contentHash.toList

instance : Ord SourceEvidence := ⟨compareSourceEvidence⟩

instance : Std.TransOrd SourceEvidence :=
  inferInstanceAs (Std.TransCmp (compareLex (compareOn sourceId) <|
    compareLex (compareOn sourceVersion) <| compareLex (compareOn sourceOffset) <|
      compareLex (compareOn sourceEventIndex) <|
        compareOn fun e : SourceEvidence => e.contentHash.toList))

instance : Std.LawfulEqOrd SourceEvidence where
  compare_self := Std.ReflOrd.compare_self
  eq_of_compare {a b} h := by
    obtain ⟨hid, h⟩ := compareLex_eq_eq.mp h
    obtain ⟨hversion, h⟩ := compareLex_eq_eq.mp h
    obtain ⟨hoffset, h⟩ := compareLex_eq_eq.mp h
    obtain ⟨hindex, hhash⟩ := compareLex_eq_eq.mp h
    have hid' : a.sourceId = b.sourceId := Std.LawfulEqOrd.eq_of_compare hid
    have hversion' : a.sourceVersion = b.sourceVersion := Std.LawfulEqOrd.eq_of_compare hversion
    have hoffset' : a.sourceOffset = b.sourceOffset := Std.LawfulEqOrd.eq_of_compare hoffset
    have hindex' : a.sourceEventIndex = b.sourceEventIndex := Std.LawfulEqOrd.eq_of_compare hindex
    have hhash' : a.contentHash = b.contentHash :=
      Vector.toList_inj.mp (Std.LawfulEqOrd.eq_of_compare hhash)
    cases a
    cases b
    simp_all

end SourceEvidence

end AlphaDesk
