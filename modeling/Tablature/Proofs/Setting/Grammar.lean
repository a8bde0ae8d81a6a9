import Tablature.Proofs.Text.Numeral
import Tablature.Setting

/-!
# The written form of a setting

A segment of an options block writes a setting: `time`, an equals sign, and two numerals with a
slash between them, or `fidelity`, an equals sign, and a numeral. There may be blanks around each of
these parts. Other segments are faulty, with one exception: what stands behind a second slash of a
time signature is not looked at.

* `ofSegment_eq_ok_iff`: which segments are settings;
* `configure_accepts_iff`: which options blocks are accepted;
* `configure_overrun`: a block that is accepted although one of its segments is not written in the
  form of a setting.
-/

namespace Tablature

open Text

namespace Numeral

variable {text text' : List Char} {n : Nat}

theorem Written.of_trim_eq (h : Written text n) (htrim : trim text' = trim text) :
    Written text' n := by
  obtain ⟨ds, hds, hn⟩ := h
  exact ⟨ds, htrim ▸ hds, hn⟩

/-- A text that writes a number has no sign in it but a plus sign. -/
theorem Written.not_mem (h : Written text n) {c : Char} (hblank : isBlank c = false)
    (hdigit : c.isDigit = false) (hplus : c ≠ '+') : c ∉ text := by
  obtain ⟨ds, hds, -⟩ := h
  have hc : c ∉ ds.chars := fun hc => Bool.false_ne_true (hdigit.symm.trans (ds.isDigit c hc))
  rw [← mem_trim_iff hblank]
  rcases hds with hds | hds
  · rwa [hds]
  · rw [hds, List.mem_cons, not_or]
    exact ⟨hplus, hc⟩

theorem Written.slash_not_mem (h : Written text n) : '/' ∉ text :=
  h.not_mem (by decide) (by decide) (by decide)

theorem written_repr (h : n < 10 ^ digitLimit) : Written (Nat.repr n).toList n :=
  parse_eq_ok_iff.1 (parse_repr h)

theorem Written.lt (h : Written text n) : n < 10 ^ digitLimit :=
  lt_of_parse_eq_ok (parse_eq_ok_iff.2 h)

end Numeral

namespace Setting

/-- A value that writes a time signature: two numerals with a slash between them. -/
def SignatureWritten (value : List Char) (beats dominant : Nat) : Prop :=
  ∃ numerator denominator, value = numerator ++ '/' :: denominator ∧
    Numeral.Written numerator beats ∧ Numeral.Written denominator dominant

/-- A value that goes on behind a time signature, with a second slash. -/
def SignatureOverrun (value : List Char) (beats dominant : Nat) : Prop :=
  ∃ signature surplus, value = signature ++ '/' :: surplus ∧
    SignatureWritten signature beats dominant

/-- A segment that is written in the form of a setting. -/
inductive Written : List Char → Setting → Prop
  | time {name value : List Char} {beats dominant : Nat} (named : trim name = "time".toList)
      (signature : SignatureWritten value beats dominant) :
      Written (name ++ '=' :: value) (.signature beats dominant)
  | fidelity {name value : List Char} {fidelity : Nat} (named : trim name = "fidelity".toList)
      (numeral : Numeral.Written value fidelity) :
      Written (name ++ '=' :: value) (.fidelity fidelity)

/-- A segment whose value goes on behind a time signature. -/
inductive Overrun : List Char → Setting → Prop
  | time {name value : List Char} {beats dominant : Nat} (named : trim name = "time".toList)
      (signature : SignatureOverrun value beats dominant) :
      Overrun (name ++ '=' :: value) (.signature beats dominant)

variable {value value' segment segment' : List Char} {beats dominant : Nat} {s s' : Setting}

/-! ## Time signatures -/

theorem SignatureWritten.of_trim_eq (h : SignatureWritten value beats dominant)
    (htrim : trim value' = trim value) : SignatureWritten value' beats dominant := by
  obtain ⟨numerator, denominator, rfl, hn, hd⟩ := h
  obtain ⟨numerator', denominator', rfl, hn', hd'⟩ :=
    exists_append_cons_of_trim_eq (by decide) htrim
  exact ⟨numerator', denominator', rfl, hn.of_trim_eq hn', hd.of_trim_eq hd'⟩

theorem SignatureOverrun.of_trim_eq (h : SignatureOverrun value beats dominant)
    (htrim : trim value' = trim value) : SignatureOverrun value' beats dominant := by
  obtain ⟨signature, surplus, rfl, hs⟩ := h
  obtain ⟨signature', surplus', rfl, hs', -⟩ := exists_append_cons_of_trim_eq (by decide) htrim
  exact ⟨signature', surplus', rfl, hs.of_trim_eq hs'⟩

/-- A time signature has two parts between slashes. -/
theorem signatureWritten_iff : SignatureWritten value beats dominant ↔
    ∃ numerator denominator, fields '/' value = [numerator, denominator] ∧
      Numeral.Written numerator beats ∧ Numeral.Written denominator dominant := by
  constructor
  · rintro ⟨numerator, denominator, rfl, hn, hd⟩
    refine ⟨numerator, denominator, ?_, hn, hd⟩
    rw [fields_append_cons hn.slash_not_mem, fields_of_not_mem hd.slash_not_mem]
  · rintro ⟨numerator, denominator, hfields, hn, hd⟩
    refine ⟨numerator, denominator, ?_, hn, hd⟩
    rw [← intercalate_fields '/' value, hfields]
    simp [List.intercalate]

/-- What goes on behind a time signature has more parts than two. -/
theorem signatureOverrun_iff : SignatureOverrun value beats dominant ↔
    ∃ numerator denominator surplus, surplus ≠ [] ∧
      fields '/' value = numerator :: denominator :: surplus ∧
      Numeral.Written numerator beats ∧ Numeral.Written denominator dominant := by
  constructor
  · rintro ⟨signature, surplus, rfl, hs⟩
    obtain ⟨numerator, denominator, hfields, hn, hd⟩ := signatureWritten_iff.1 hs
    refine ⟨numerator, denominator, fields '/' surplus, fields_ne_nil _ _, ?_, hn, hd⟩
    rw [fields_append, hfields]
    rfl
  · rintro ⟨numerator, denominator, surplus, hne, hfields, hn, hd⟩
    obtain ⟨f, fs, rfl⟩ := List.exists_cons_of_ne_nil hne
    refine ⟨numerator ++ '/' :: denominator, ['/'].intercalate (f :: fs), ?_,
      numerator, denominator, rfl, hn, hd⟩
    rw [← intercalate_fields '/' value, hfields]
    simp [List.intercalate]

theorem ofSignature_eq_ok_iff {numerator denominator : List Char} :
    ofSignature numerator denominator = .ok s ↔ ∃ beats dominant,
      (Numeral.Written numerator beats ∧ Numeral.Written denominator dominant) ∧
        s = .signature beats dominant := by
  simp only [← Numeral.parse_eq_ok_iff, ofSignature]
  cases Numeral.parse numerator <;> cases Numeral.parse denominator <;> simp [eq_comm]

/-- The parts of a value that begins with a time signature. -/
theorem signature_iff :
    SignatureWritten value beats dominant ∨ SignatureOverrun value beats dominant ↔
      ∃ numerator denominator rest, fields '/' (trim value) = numerator :: denominator :: rest ∧
        Numeral.Written numerator beats ∧ Numeral.Written denominator dominant := by
  have hwritten : SignatureWritten value beats dominant ↔
      SignatureWritten (trim value) beats dominant :=
    ⟨fun h => h.of_trim_eq (trim_trim value), fun h => h.of_trim_eq (trim_trim value).symm⟩
  have hoverrun : SignatureOverrun value beats dominant ↔
      SignatureOverrun (trim value) beats dominant :=
    ⟨fun h => h.of_trim_eq (trim_trim value), fun h => h.of_trim_eq (trim_trim value).symm⟩
  rw [hwritten, hoverrun, signatureWritten_iff, signatureOverrun_iff]
  constructor
  · rintro (⟨numerator, denominator, h⟩ | ⟨numerator, denominator, surplus, -, h⟩)
    · exact ⟨numerator, denominator, [], h⟩
    · exact ⟨numerator, denominator, surplus, h⟩
  · rintro ⟨numerator, denominator, _ | ⟨f, fs⟩, h⟩
    · exact .inl ⟨numerator, denominator, h⟩
    · exact .inr ⟨numerator, denominator, f :: fs, List.cons_ne_nil _ _, h⟩

/-- The values that are read as time signatures. -/
theorem ofTime_eq_ok_iff : ofTime value = .ok s ↔ ∃ beats dominant,
    (SignatureWritten value beats dominant ∨ SignatureOverrun value beats dominant) ∧
      s = .signature beats dominant := by
  simp only [signature_iff]
  unfold ofTime
  split
  · rename_i numerator denominator rest hfields
    simp [ofSignature_eq_ok_iff, hfields]
  · rename_i hfields
    refine iff_of_false nofun ?_
    rintro ⟨beats, dominant, ⟨numerator, denominator, rest, h, -⟩, -⟩
    exact hfields _ _ _ h

theorem ofFidelity_eq_ok_iff :
    ofFidelity value = .ok s ↔
      ∃ fidelity, Numeral.Written value fidelity ∧ s = .fidelity fidelity := by
  simp only [← Numeral.parse_eq_ok_iff, ofFidelity]
  cases Numeral.parse value <;> simp [eq_comm]

/-! ## Segments -/

theorem Written.of_trim_eq (h : Written segment s) (htrim : trim segment' = trim segment) :
    Written segment' s := by
  cases h with
  | time named signature =>
    obtain ⟨name', value', rfl, hname, hvalue⟩ := exists_append_cons_of_trim_eq (by decide) htrim
    exact .time (hname.trans named) (signature.of_trim_eq hvalue)
  | fidelity named numeral =>
    obtain ⟨name', value', rfl, hname, hvalue⟩ := exists_append_cons_of_trim_eq (by decide) htrim
    exact .fidelity (hname.trans named) (numeral.of_trim_eq hvalue)

theorem Overrun.of_trim_eq (h : Overrun segment s) (htrim : trim segment' = trim segment) :
    Overrun segment' s := by
  obtain ⟨named, signature⟩ := h
  obtain ⟨name', value', rfl, hname, hvalue⟩ := exists_append_cons_of_trim_eq (by decide) htrim
  exact .time (hname.trans named) (signature.of_trim_eq hvalue)

/-- A segment is taken apart behind its name. -/
theorem cutAt_name {name : List Char} {known : String} (hname : trim name = known.toList)
    (hknown : '=' ∉ known.toList) (value : List Char) :
    cutAt '=' (name ++ '=' :: value) = some (name, value) :=
  cutAt_append_cons (by rwa [← mem_trim_iff (by decide), hname]) value

/-- A segment is read by its name. -/
theorem ofSegment_of_trim {name : List Char} (hsegment : trim segment = name ++ '=' :: value)
    {known : String} (hname : trim name = known.toList) (hknown : '=' ∉ known.toList) :
    ofSegment segment =
      if known = "time" then ofTime value
      else if known = "fidelity" then ofFidelity value
      else .error (.unknown known) := by
  simp only [ofSegment, hsegment, cutAt_name hname hknown, hname, String.ofList_toList]

/-- What is read of a segment has been written in it. -/
theorem written_or_overrun_of_ofSegment (h : ofSegment segment = .ok s) :
    Written (trim segment) s ∨ Overrun (trim segment) s := by
  simp only [ofSegment] at h
  split at h
  · cases h
  · rename_i name value hcut
    obtain ⟨-, htrim⟩ := cutAt_eq_some_iff.1 hcut
    rw [htrim]
    split at h
    · rename_i hname
      have named : trim name = "time".toList := by rw [← hname, String.toList_ofList]
      obtain ⟨beats, dominant, hs, rfl⟩ := ofTime_eq_ok_iff.1 h
      exact hs.imp (.time named) (.time named)
    · split at h
      · rename_i hname
        have named : trim name = "fidelity".toList := by rw [← hname, String.toList_ofList]
        obtain ⟨fidelity, hs, rfl⟩ := ofFidelity_eq_ok_iff.1 h
        exact .inl (.fidelity named hs)
      · cases h

/-- The segments that are settings. -/
theorem ofSegment_eq_ok_iff :
    ofSegment segment = .ok s ↔ Written segment s ∨ Overrun segment s := by
  constructor
  · intro h
    have htrim := (trim_trim segment).symm
    exact (written_or_overrun_of_ofSegment h).imp (·.of_trim_eq htrim) (·.of_trim_eq htrim)
  · intro h
    have h := h.imp (·.of_trim_eq (trim_trim segment)) (·.of_trim_eq (trim_trim segment))
    generalize htrim : trim segment = t at h
    rcases h with (⟨named, signature⟩ | ⟨named, numeral⟩) | ⟨named, signature⟩
    · rw [ofSegment_of_trim htrim named (by decide), if_pos rfl]
      exact ofTime_eq_ok_iff.2 ⟨_, _, .inl signature, rfl⟩
    · rw [ofSegment_of_trim htrim named (by decide), if_neg (by decide), if_pos rfl]
      exact ofFidelity_eq_ok_iff.2 ⟨_, numeral, rfl⟩
    · rw [ofSegment_of_trim htrim named (by decide), if_pos rfl]
      exact ofTime_eq_ok_iff.2 ⟨_, _, .inr signature, rfl⟩

/-- A segment that goes on behind a time signature is not written in the form of a setting. -/
theorem Overrun.not_written (h : Overrun segment s) : ¬ Written segment s' := by
  obtain @⟨name, value, beats, dominant, named, signature⟩ := h
  intro hw
  have hcut := cutAt_name named (by decide) value
  generalize name ++ '=' :: value = segment at hw hcut
  cases hw with
  | time named' signature' =>
    rw [cutAt_name named' (by decide)] at hcut
    cases hcut
    obtain ⟨_, _, hfields', -⟩ := signatureWritten_iff.1 signature'
    obtain ⟨_, _, surplus, hne, hfields, -⟩ := signatureOverrun_iff.1 signature
    rw [hfields'] at hfields
    cases hfields
    exact hne rfl
  | fidelity named' numeral =>
    rw [cutAt_name named' (by decide)] at hcut
    cases hcut
    exact absurd (named.symm.trans named') (by decide)

theorem segments_ofList (segment : { cs : List Char // ';' ∉ cs }) :
    segments (String.ofList segment.val) = [segment.val] := by
  rw [segments, String.toList_ofList, fields_of_not_mem segment.property]

end Setting

namespace Meter

open Setting

/-! ## Blocks -/

/-- A block is accepted when each of its segments is a setting, or goes on behind a time signature.
Blocks in the form of settings are thus the only ones to be accepted, as long as no segment goes on
like that. A block of one segment that is neither is rejected, and the meter stays as it was. -/
theorem configure_accepts_iff (block : String) (m : Meter) :
    ((m.configure block).fault = none ↔
        ∀ segment ∈ segments block, ∃ s, Written segment s ∨ Overrun segment s) ∧
      (((m.configure block).fault = none ↔ ∀ segment ∈ segments block, ∃ s, Written segment s) ↔
        ((m.configure block).fault = none →
          ∀ segment ∈ segments block, ¬ ∃ s, Overrun segment s)) ∧
      ∀ segment : { cs : List Char // ';' ∉ cs },
        (∃ s, (Written segment.val s ∨ Overrun segment.val s) ∧
            m.configure (String.ofList segment.val) = .done (s.apply m)) ∨
          (¬ ∃ s, Written segment.val s ∨ Overrun segment.val s) ∧
            ∃ e, m.configure (String.ofList segment.val) = .stopped m [e] := by
  have haccepted : (m.configure block).fault = none ↔
      ∀ segment ∈ segments block, ∃ s, Written segment s ∨ Overrun segment s := by
    simp only [fault_configure_eq_none_iff, ofSegment_eq_ok_iff]
  refine ⟨haccepted, ⟨fun h hnone segment hsegment => ?_, fun h => ⟨fun hnone => ?_, fun hw => ?_⟩⟩,
    fun segment => ?_⟩
  · rintro ⟨s, hs⟩
    obtain ⟨s', hs'⟩ := h.1 hnone segment hsegment
    exact hs.not_written hs'
  · intro segment hsegment
    obtain ⟨s, hs⟩ := haccepted.1 hnone segment hsegment
    exact ⟨s, hs.resolve_right fun ho => h hnone segment hsegment ⟨s, ho⟩⟩
  · exact haccepted.2 fun segment hsegment => (hw segment hsegment).imp fun s => .inl
  · simp only [← ofSegment_eq_ok_iff]
    rw [configure, faults, segments_ofList]
    cases hread : ofSegment segment.val with
    | ok s => exact .inl ⟨s, rfl, by simp [fault?, applySegment, hread]⟩
    | error e => exact .inr ⟨by simp, e, by simp [fault?, applySegment, hread]⟩

/-- A time signature with three parts is accepted. -/
theorem configure_overrun :
    common.configure "time=3/4/5" = .done (common.setSignature 3 4) ∧
      ¬ ∀ segment ∈ segments "time=3/4/5", ∃ s, Written segment s := by
  refine ⟨by decide +kernel, fun h => ?_⟩
  obtain ⟨s, hs⟩ := h "time=3/4/5".toList (by decide +kernel)
  have hoverrun : Overrun ("time".toList ++ '=' :: "3/4/5".toList) (.signature 3 4) :=
    .time (by decide) ⟨"3/4".toList, "5".toList, by decide, "3".toList, "4".toList, by decide,
      Numeral.parse_eq_ok_iff.1 (by decide), Numeral.parse_eq_ok_iff.1 (by decide)⟩
  exact hoverrun.not_written hs

end Meter

end Tablature
