import Tablature.Proofs.CommandLine.Transcript
import Tablature.Proofs.Files.Tree
import Tablature.Proofs.Interpret

/-!
# Which failures are contained

A run that fails should say so and return two. It does this for the faults of the system, and for
sources that are rejected. All other faults escape.

* `contained_iff`: when a run is contained, in any file system, and what escapes if it is not;
* `not_contained_of_byte`: a file that is no text, whose fault escapes.
-/

namespace Tablature.CommandLine

open Text

/-- There is an output path unless the one that is asked for has no name. -/
theorem exists_job_iff (r : Request) (input : Path) :
    (∃ job, r.job? input = .ok job) ↔ ∀ output ∈ r.output, (Path.ofText output).names ≠ [] := by
  rw [Request.job?, Job.exists_ofPaths_iff]
  cases r.output with
  | none => simpa using Job.names_defaultOutput_ne_nil input
  | some output => simp

/-! ## Faults of what was read -/

/-- What was read can be made something of that is reported: the system did not refuse the path
altogether, the bytes are those of a text, and every step of its plan has a label. -/
structure Wholesome (content : Except FileFault ByteArray) : Prop where
  not_null : content ≠ .error .embeddedNull
  encoded : ∀ bytes, content = .ok bytes → ∃ raw : String, bytes = raw.toUTF8
  playable : ∀ (raw : String) tokens, content = .ok raw.toUTF8 →
    tokenize (unified raw) = .ok tokens → (Plan.ofTokens tokens).IsPlayable

/-- What is wrong with a source is reported if every step of its plan has a label. -/
theorem isReported_of_isPlayable {source : String} {e : InterpretFault}
    (h : ∀ tokens, tokenize source = .ok tokens → (Plan.ofTokens tokens).IsPlayable)
    (he : interpret source = .error e) : (RunFault.interpret e).isReported = true := by
  rw [interpret_eq] at he
  cases htokens : tokenize source with
  | error diagnostics =>
    rw [htokens] at he
    exact Except.error.inj he ▸ rfl
  | ok tokens =>
    rw [htokens] at he
    have hrender := render_of_isPlayable (h tokens htokens)
    by_cases hnil : tokens.filterMap Token.rejection? = []
    · obtain ⟨text, htext⟩ := hrender.1 hnil
      simp only [htext] at he
      cases he
    · simp only [hrender.2 hnil] at he
      exact Except.error.inj he ▸ rfl

theorem isPlayable_of_isReported {source : String} {tokens : List Token}
    (h : ∀ e, interpret source = .error e → (RunFault.interpret e).isReported = true)
    (htokens : tokenize source = .ok tokens) : (Plan.ofTokens tokens).IsPlayable := by
  refine Classical.byContradiction fun hnot => ?_
  obtain ⟨e, he, -⟩ := render_of_not_isPlayable hnot
  have hinterpret : interpret source = .error (.render (.stopped (.label e))) := by
    rw [interpret_of_tokenize htokens, he]
    rfl
  cases h _ hinterpret

theorem wholesome_iff {content : Except FileFault ByteArray} :
    Wholesome content ↔ ∀ e, ContentFault content e → e.isReported = true := by
  constructor
  · rintro ⟨hnull, hencoded, hplayable⟩ e h
    cases h with
    | unreadable e =>
      cases e with
      | embeddedNull => exact absurd rfl hnull
      | system => rfl
    | undecodable h =>
      obtain ⟨raw, rfl⟩ := hencoded _ rfl
      rw [Utf8.decode_eq_ok_iff.2 rfl] at h
      cases h
    | @uninterpretable raw e h =>
      exact isReported_of_isPlayable (fun tokens => hplayable raw tokens rfl) h
  · intro h
    refine ⟨?_, fun bytes hbytes => ?_, fun raw tokens hraw htokens => ?_⟩
    · rintro rfl
      cases h _ (.unreadable _)
    · subst hbytes
      cases hdecode : Utf8.decode bytes.data.toList with
      | ok raw => exact ⟨raw, Utf8.decode_eq_ok_iff.1 hdecode⟩
      | error e => cases h _ (.undecodable hdecode)
    · subst hraw
      exact isPlayable_of_isReported (fun e he => h _ (.uninterpretable he)) htokens

/-! ## Failures -/

section Runs

variable {σ : Type} {host : Host (StateM σ)} {s : σ} {r : Request} {input : Path}

/-- What may keep a run from the tablature that it is asked for: the output path cannot be derived,
nothing can be made of the input, or the output cannot be written. -/
inductive Failure (host : Host (StateM σ)) (s : σ) (r : Request) (input : Path) : RunFault → Prop
  | underivable {e : Job.Nameless} (stdout : r.stdout = false) (derived : r.job? input = .error e) :
      Failure host s r input (.nameless e)
  | content {e : RunFault} (h : ContentFault (host.read input s).1 e) : Failure host s r input e
  | unwritable {job : Job} {raw text : String} {e : FileFault} (stdout : r.stdout = false)
      (derived : r.job? input = .ok job) (read : (host.read input s).1 = .ok raw.toUTF8)
      (interpreted : interpret (unified raw) = .ok text)
      (store : (store host job.output text (host.read input s).2).1 = .error e) :
      Failure host s r input (.file e)

/-- A run is contained: it returns zero or two, and if there is a failure it returns two and says
which one there is. -/
def Contained (host : Host (StateM σ)) (s : σ) (r : Request) (input : Path)
    (report : Report) : Prop :=
  (report.ending = .ok 0 ∨ report.ending = .ok 2) ∧
    ((∃ e, Failure host s r input e) → report.ending = .ok 2 ∧
      ∃ e log, Failure host s r input e ∧ report.stderr = log ++ e.complaint)

/-- A run meets no failure but those that are reported. -/
structure Orderly (host : Host (StateM σ)) (s : σ) (r : Request) (input : Path) : Prop where
  named : r.stdout = false → ∀ output ∈ r.output, (Path.ofText output).names ≠ []
  wholesome : Wholesome (host.read input s).1
  writable : r.stdout = false → ∀ job (raw : String) text, r.job? input = .ok job →
    (host.read input s).1 = .ok raw.toUTF8 → interpret (unified raw) = .ok text →
      (store host job.output text (host.read input s).2).1 ≠ .error .embeddedNull

theorem orderly_iff :
    Orderly host s r input ↔ ∀ e, Failure host s r input e → e.isReported = true := by
  constructor
  · intro h e hfailure
    cases hfailure with
    | underivable stdout derived =>
      obtain ⟨job, hjob⟩ := (exists_job_iff r input).2 (h.named stdout)
      rw [derived] at hjob
      cases hjob
    | content hfault => exact wholesome_iff.1 h.wholesome e hfault
    | @unwritable job raw text e stdout derived read interpreted store =>
      cases e with
      | embeddedNull => exact absurd store (h.writable stdout job raw text derived read interpreted)
      | system => rfl
  · intro h
    refine ⟨fun stdout => (exists_job_iff r input).1 ?_,
      wholesome_iff.2 fun e hfault => h e (.content hfault),
      fun stdout job raw text derived read interpreted hnull => ?_⟩
    · cases hjob : r.job? input with
      | ok job => exact ⟨job, rfl⟩
      | error e => cases h _ (.underivable stdout hjob)
    · cases h _ (.unwritable stdout derived read interpreted hnull)

/-! ## Where a run stops -/

variable {t : Transcript} {s' : σ}

/-- A run stops at a failure. -/
theorem Transcribed.failure (h : Transcribed host s r input (t, s')) {e : RunFault}
    (he : t.result = .error e) : Failure host s r input e := by
  cases h with
  | printed | failed => exact .content (result_ofContent_eq_error_iff.1 he)
  | nameless stdout derived => exact Except.error.inj he ▸ .underivable stdout derived
  | unwritten stdout derived result store =>
    obtain ⟨raw, hread, hinterpret⟩ := result_ofContent_eq_ok_iff.1 result
    exact Except.error.inj he ▸
      .unwritable stdout derived hread hinterpret (congrArg Prod.fst store)
  | written => cases he

/-- Where a tablature is there to be written, a failure is one of writing it. -/
theorem Failure.of_tablature {job : Job} {text : String} {e : RunFault}
    (h : Failure host s r input e) (derived : r.job? input = .ok job)
    (result : (Transcript.ofContent .interpreter input (host.read input s).1).result = .ok text) :
    ∃ e', e = .file e' ∧ (store host job.output text (host.read input s).2).1 = .error e' := by
  cases h with
  | underivable _ hderived => cases derived.symm.trans hderived
  | content hfault => cases result.symm.trans (result_ofContent_eq_error_iff.2 hfault)
  | @unwritable _ raw _ e _ hderived hread hinterpret hstore =>
    cases derived.symm.trans hderived
    cases result.symm.trans (result_ofContent_eq_ok_iff.2 ⟨raw, hread, hinterpret⟩)
    exact ⟨e, rfl, hstore⟩

/-- If there is a failure, a run stops at it, or before it, where the output path is derived. -/
theorem Transcribed.stops (h : Transcribed host s r input (t, s')) {e : RunFault}
    (hfailure : Failure host s r input e) :
    t.result = .error e ∨ ∃ e', t.result = .error (.nameless e') := by
  cases h with
  | printed stdout =>
    cases hfailure with
    | underivable hstdout | unwritable hstdout => exact absurd stdout (by simp [hstdout])
    | content hfault => exact .inl (result_ofContent_eq_error_iff.2 hfault)
  | nameless => exact .inr ⟨_, rfl⟩
  | failed stdout derived result =>
    cases hfailure with
    | underivable _ hderived => cases derived.symm.trans hderived
    | content hfault => exact .inl (result_ofContent_eq_error_iff.2 hfault)
    | @unwritable _ raw _ _ _ _ hread hinterpret =>
      cases result.symm.trans (result_ofContent_eq_ok_iff.2 ⟨raw, hread, hinterpret⟩)
  | unwritten _ derived result store =>
    obtain ⟨e', rfl, hstore⟩ := hfailure.of_tablature derived result
    rw [store] at hstore
    obtain rfl := Except.error.inj hstore
    exact .inl rfl
  | written _ derived result store =>
    obtain ⟨e', rfl, hstore⟩ := hfailure.of_tablature derived result
    rw [store] at hstore
    cases hstore

/-- A run is contained if there is no failure but those that are reported. -/
theorem contained_ofTranscript_iff (h : Transcribed host s r input (t, s')) :
    Contained host s r input (.ofTranscript r t) ↔
      ∀ e, Failure host s r input e → e.isReported = true := by
  obtain ⟨events, e | text⟩ := t
  · have hfailure : Failure host s r input e := h.failure rfl
    cases hreported : e.isReported with
    | true =>
      rw [ofTranscript_of_isReported r hreported]
      obtain ⟨log, hlog⟩ := stderr_ofParts r (events.push .failed) "" e.complaint (.ok 2)
      refine iff_of_true
        ⟨.inr (ending_ofParts ..), fun _ => ⟨ending_ofParts .., e, log, hfailure, hlog⟩⟩
        fun e' hfailure' => ?_
      rcases h.stops hfailure' with hstop | ⟨n, hstop⟩
      · exact Except.error.inj hstop ▸ hreported
      · cases hstop
        cases hreported
    | false =>
      rw [ofTranscript_of_not_isReported r hreported]
      refine iff_of_false (fun hcontained => ?_) fun h => ?_
      · rcases hcontained.1 with h | h <;> rw [ending_ofParts] at h <;> cases h
      · rw [h e hfailure] at hreported
        cases hreported
  · have hnone : ∀ e, ¬ Failure host s r input e := fun e hfailure => by
      rcases h.stops hfailure with hstop | ⟨n, hstop⟩ <;> cases hstop
    rw [ofTranscript_of_ok]
    exact iff_of_true ⟨.inl (ending_ofParts ..), fun ⟨e, he⟩ => absurd he (hnone e)⟩
      fun e he => absurd he (hnone e)

end Runs

/-- When a run is contained, and what escapes if it is not. -/
theorem contained_iff {σ : Type} (host : Host (StateM σ)) (s : σ) {arguments : List String}
    {r : Request} {input : Path} (h : Asks arguments r input) :
    (Contained host s r input (run host arguments s).1 ↔ Orderly host s r input) ∧
      (¬ Orderly host s r input →
        ∃ e, Failure host s r input e ∧ (run host arguments s).1.ending = .error e) := by
  have hdone := transcribe_transcribed host s r input
  rw [run_of_asks h, orderly_iff]
  generalize transcribe host r input s = done at hdone
  refine ⟨contained_ofTranscript_iff hdone, fun hnot => ?_⟩
  obtain ⟨e, he⟩ := Classical.not_forall.1 hnot
  obtain ⟨hfailure, hreported⟩ := Classical.not_imp.1 he
  rcases hdone.stops hfailure with hstop | ⟨n, hstop⟩
  · exact ⟨e, hfailure, ending_of_not_isReported hstop (Bool.eq_false_iff.2 hreported)⟩
  · exact ⟨_, hdone.failure hstop, ending_of_not_isReported hstop rfl⟩

theorem asks_of_one_file : Asks ["a.tab"] { input := some "a.tab" } ⟨.relative, ["a.tab"]⟩ :=
  ⟨rfl, by decide +kernel⟩

theorem isAcceptable_of_one_file : Path.IsAcceptable ⟨.relative, ["a.tab"]⟩ :=
  ⟨by decide +kernel, by decide +kernel⟩

/-- A file that is not there, which is reported. -/
theorem contained_of_missing :
    let report := (run FileTree.host ["a.tab"] {}).1
    Contained FileTree.host {} { input := some "a.tab" } ⟨.relative, ["a.tab"]⟩ report ∧
      report.ending = .ok 2 := by
  intro report
  have hmissing : ({} : FileTree).read ⟨.relative, ["a.tab"]⟩ =
      (.error (.system ⟨.noEntry, ⟨.relative, ["a.tab"]⟩⟩), {}) := by
    rw [FileTree.read, FileTree.atPath_of_acceptable isAcceptable_of_one_file]
    rfl
  have hread : FileTree.host.read ⟨.relative, ["a.tab"]⟩ {} =
      (.error (.system ⟨.noEntry, ⟨.relative, ["a.tab"]⟩⟩), {}) := hmissing
  have horderly : Orderly FileTree.host {} { input := some "a.tab" } ⟨.relative, ["a.tab"]⟩ := by
    refine ⟨fun _ _ h => (by cases h), ?_, ?_⟩ <;> rw [hread]
    · exact ⟨fun h => (by cases h), fun _ h => (by cases h), fun _ _ h => (by cases h)⟩
    · exact fun _ _ _ _ _ h => (by cases h)
  have hcontained := (contained_iff FileTree.host {} asks_of_one_file).1.2 horderly
  have hfailure : Failure FileTree.host {} { input := some "a.tab" } ⟨.relative, ["a.tab"]⟩
      (.file (.system ⟨.noEntry, ⟨.relative, ["a.tab"]⟩⟩)) := by
    refine .content ?_
    rw [hread]
    exact .unreadable _
  exact ⟨hcontained, (hcontained.2 ⟨_, hfailure⟩).1⟩

/-- A file with a byte that is no text, whose fault escapes. -/
theorem not_contained_of_byte :
    let t := FileTree.oneFile "a.tab" ⟨#[0xFF]⟩
    let report := (run FileTree.host ["a.tab"] t).1
    Asks ["a.tab"] { input := some "a.tab" } ⟨.relative, ["a.tab"]⟩ ∧
      report.ending = .error (.undecodable ⟨0xFF, 0, 1, .invalidStart⟩) ∧
      ¬ Contained FileTree.host t { input := some "a.tab" } ⟨.relative, ["a.tab"]⟩ report := by
  intro t report
  have hread : FileTree.host.read ⟨.relative, ["a.tab"]⟩ t = (.ok ⟨#[0xFF]⟩, t) :=
    FileTree.read_oneFile isAcceptable_of_one_file (by decide) (by decide)
  have hjob : Request.job? { input := some "a.tab" } ⟨.relative, ["a.tab"]⟩ =
      .ok ⟨⟨.relative, ["a.tab"]⟩, ⟨.relative, ["a-output.txt"]⟩⟩ := rfl
  have hresult : (Transcript.ofContent .interpreter ⟨.relative, ["a.tab"]⟩ (.ok ⟨#[0xFF]⟩)).result =
      .error (.undecodable ⟨0xFF, 0, 1, .invalidStart⟩) :=
    result_ofContent_eq_error_iff.2 (.undecodable rfl)
  have hending : report.ending = .error (.undecodable ⟨0xFF, 0, 1, .invalidStart⟩) := by
    change (run FileTree.host ["a.tab"] t).1.ending = _
    rw [run_of_asks asks_of_one_file, transcribe_of_job rfl hjob, perform_eq]
    simp only [hread, hresult]
    exact ending_of_not_isReported hresult rfl
  refine ⟨asks_of_one_file, hending, fun h => ?_⟩
  rcases h.1 with h | h <;> rw [hending] at h <;> cases h

end Tablature.CommandLine
