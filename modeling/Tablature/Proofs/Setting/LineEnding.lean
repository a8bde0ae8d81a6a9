import Tablature.Proofs.Setting.Grammar
import Tablature.Proofs.Text.LineEnding

/-!
# Options blocks with unified line endings

Whatever line endings stand in an options block, the same segments of it are settings, and the same
ones.

* `written_unifyLines_iff`, `ofSegment_unifyLines_iff`: numerals and segments are read alike;
* `foldl_applySegment_unified`, `faults_unified_eq_nil_iff`: blocks set the same and are accepted
  alike.
-/

namespace Tablature

open Text

namespace Numeral

theorem written_unifyLines_iff {text : List Char} {n : Nat} :
    Written (unifyLines text) n ↔ Written text n := by
  have hdigits (ds : Digits) : IsLine ds.chars :=
    ⟨fun h => absurd (ds.isDigit _ h) (by decide), fun h => absurd (ds.isDigit _ h) (by decide)⟩
  have hplus (ds : Digits) : IsLine ('+' :: ds.chars) := by
    simpa [IsLine] using hdigits ds
  simp only [Written, trim_unifyLines_eq_iff (hdigits _), trim_unifyLines_eq_iff (hplus _)]

end Numeral

namespace Setting

variable {value segment : List Char} {s : Setting}

theorem ofSignature_unifyLines_iff {numerator denominator : List Char} :
    ofSignature (unifyLines numerator) (unifyLines denominator) = .ok s ↔
      ofSignature numerator denominator = .ok s := by
  simp only [ofSignature_eq_ok_iff, Numeral.written_unifyLines_iff]

theorem ofTime_unifyLines_iff : ofTime (unifyLines value) = .ok s ↔ ofTime value = .ok s := by
  unfold ofTime
  rw [trim_unifyLines, fields_unifyLines (by decide) (by decide)]
  rcases fields '/' (trim value) with _ | ⟨numerator, _ | ⟨denominator, surplus⟩⟩
  · exact iff_of_false nofun nofun
  · exact iff_of_false nofun nofun
  · exact ofSignature_unifyLines_iff

theorem ofFidelity_unifyLines_iff :
    ofFidelity (unifyLines value) = .ok s ↔ ofFidelity value = .ok s := by
  simp only [ofFidelity_eq_ok_iff, Numeral.written_unifyLines_iff]

/-- The name of a setting stands on one line, and so it is not made up of other texts. -/
theorem trim_unifyLines_eq_name_iff {name : List Char} {known : String} (h : IsLine known.toList) :
    String.ofList (trim (unifyLines name)) = known ↔ String.ofList (trim name) = known := by
  rw [← String.toList_inj, ← String.toList_inj, String.toList_ofList, String.toList_ofList,
    trim_unifyLines_eq_iff h]

/-- A segment is read alike with unified line endings. -/
theorem ofSegment_unifyLines_iff :
    ofSegment (unifyLines segment) = .ok s ↔ ofSegment segment = .ok s := by
  unfold ofSegment
  rw [trim_unifyLines, cutAt_unifyLines (by decide) (by decide)]
  rcases cutAt '=' (trim segment) with _ | ⟨name, value⟩
  · exact iff_of_false nofun nofun
  · have htime : IsLine "time".toList := by decide
    have hfidelity : IsLine "fidelity".toList := by decide
    simp only [Option.map_some, Prod.map, trim_unifyLines_eq_name_iff htime,
      trim_unifyLines_eq_name_iff hfidelity]
    split
    · exact ofTime_unifyLines_iff
    split
    · exact ofFidelity_unifyLines_iff
    · exact iff_of_false nofun nofun

theorem applySegment_unifyLines (m : Meter) (segment : List Char) :
    applySegment m (unifyLines segment) = applySegment m segment := by
  unfold applySegment
  cases h : ofSegment segment with
  | ok s => rw [ofSegment_unifyLines_iff.2 h]
  | error e =>
    cases h' : ofSegment (unifyLines segment) with
    | ok s => exact absurd (h.symm.trans (ofSegment_unifyLines_iff.1 h')) nofun
    | error e' => rfl

/-! ## Blocks -/

theorem segments_unified (block : String) :
    segments (unified block) = (segments block).map unifyLines := by
  rw [segments, unified, String.toList_ofList, fields_unifyLines (by decide) (by decide)]
  rfl

/-- A block sets the same with unified line endings. -/
theorem foldl_applySegment_unified (block : String) (m : Meter) :
    (segments (unified block)).foldl applySegment m = (segments block).foldl applySegment m := by
  simp only [segments_unified, List.foldl_map, applySegment_unifyLines]

/-- A block is accepted with unified line endings exactly when it is accepted as it stands. -/
theorem faults_unified_eq_nil_iff {block : String} :
    faults (unified block) = [] ↔ faults block = [] := by
  simp only [faults_eq_nil_iff, segments_unified, List.forall_mem_map, ofSegment_unifyLines_iff]

end Setting

end Tablature
