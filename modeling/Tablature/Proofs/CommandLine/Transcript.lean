import Tablature.CommandLine.Run
import Tablature.Proofs.Job
import Tablature.Proofs.Text.LineEnding
import Tablature.Proofs.Text.Utf8

/-!
# What a run does

A run with a file to interpret prints the tablature, or writes it to another file, or fails on the
way. `Transcribed` has a case for each of these, with what the run reports and what it leaves
behind, in any file system.

* `result_ofContent_eq_ok_iff`, `result_ofContent_eq_error_iff`: what is made of what was read;
* `transcribe_transcribed`: a run does one of these things;
* `run_of_asks`, `run_of_not_asks`: a run of the whole program.
-/

namespace Tablature.CommandLine

open Text

/-- The source in a file that a text is encoded in is the text, with its line endings made one. -/
theorem sourceOf_toUTF8 (raw : String) : sourceOf raw.toUTF8 = .ok (unified raw) := by
  rw [sourceOf, Utf8.decode_eq_ok_iff.2 rfl]
  rfl

/-! ## What is made of what was read -/

section Content

variable {origin : Event.Origin} {path : Path} {content : Except FileFault ByteArray}

theorem ofContent_toUTF8 (origin : Event.Origin) (path : Path) (raw : String) :
    Transcript.ofContent origin path (.ok raw.toUTF8) =
      ⟨#[.reading origin path.text] ++ (Interpretation.ofSource (unified raw)).events,
        (interpret (unified raw)).mapError .interpret⟩ := by
  simp only [Transcript.ofContent, sourceOf_toUTF8]
  rfl

/-- Why no tablature is made of what was read. -/
inductive ContentFault : Except FileFault ByteArray → RunFault → Prop
  | unreadable (e : FileFault) : ContentFault (.error e) (.file e)
  | undecodable {bytes : ByteArray} {e : Utf8.Fault}
      (h : Utf8.decode bytes.data.toList = .error e) : ContentFault (.ok bytes) (.undecodable e)
  | uninterpretable {raw : String} {e : InterpretFault} (h : interpret (unified raw) = .error e) :
      ContentFault (.ok raw.toUTF8) (.interpret e)

/-- What was read is the encoding of a text that has a tablature, or there is a fault. -/
theorem exists_tablature_or_contentFault (content : Except FileFault ByteArray) :
    (∃ raw text : String, content = .ok raw.toUTF8 ∧ interpret (unified raw) = .ok text) ∨
      ∃ e, ContentFault content e := by
  cases content with
  | error e => exact .inr ⟨_, .unreadable e⟩
  | ok bytes =>
    cases hdecode : Utf8.decode bytes.data.toList with
    | error e => exact .inr ⟨_, .undecodable hdecode⟩
    | ok raw =>
      obtain rfl := Utf8.decode_eq_ok_iff.1 hdecode
      cases hinterpret : interpret (unified raw) with
      | error e => exact .inr ⟨_, .uninterpretable hinterpret⟩
      | ok text => exact .inl ⟨raw, text, rfl, hinterpret⟩

theorem result_of_tablature {raw text : String} (h : interpret (unified raw) = .ok text) :
    (Transcript.ofContent origin path (.ok raw.toUTF8)).result = .ok text := by
  rw [ofContent_toUTF8, h]
  rfl

theorem result_of_contentFault {e : RunFault} (h : ContentFault content e) :
    (Transcript.ofContent origin path content).result = .error e := by
  cases h with
  | unreadable e => rfl
  | @undecodable bytes e h =>
    have hsource : sourceOf bytes = .error e := by rw [sourceOf, h]; rfl
    simp only [Transcript.ofContent, hsource]
  | uninterpretable h =>
    rw [ofContent_toUTF8, h]
    rfl

theorem result_ofContent_eq_ok_iff {text : String} :
    (Transcript.ofContent origin path content).result = .ok text ↔
      ∃ raw : String, content = .ok raw.toUTF8 ∧ interpret (unified raw) = .ok text := by
  constructor
  · intro h
    rcases exists_tablature_or_contentFault content with ⟨raw, text', rfl, hinterpret⟩ | ⟨e, he⟩
    · obtain rfl := Except.ok.inj ((result_of_tablature hinterpret).symm.trans h)
      exact ⟨raw, rfl, hinterpret⟩
    · cases (result_of_contentFault he).symm.trans h
  · rintro ⟨raw, rfl, hinterpret⟩
    exact result_of_tablature hinterpret

theorem result_ofContent_eq_error_iff {e : RunFault} :
    (Transcript.ofContent origin path content).result = .error e ↔ ContentFault content e := by
  refine ⟨fun h => ?_, result_of_contentFault⟩
  rcases exists_tablature_or_contentFault content with ⟨raw, text, rfl, hinterpret⟩ | ⟨e', he'⟩
  · cases (result_of_tablature hinterpret).symm.trans h
  · obtain rfl := Except.error.inj ((result_of_contentFault he').symm.trans h)
    exact he'

end Content

/-! ## Reports -/

@[simp]
theorem ending_ofParts (r : Request) (events : Array Event) (printed complaint : String)
    (ending : Except RunFault Nat) :
    (Report.ofParts r events printed complaint ending).ending = ending := by
  unfold Report.ofParts
  split <;> rfl

/-- The complaint is the last thing on the standard error. -/
theorem stderr_ofParts (r : Request) (events : Array Event) (printed complaint : String)
    (ending : Except RunFault Nat) :
    ∃ log, (Report.ofParts r events printed complaint ending).stderr = log ++ complaint := by
  unfold Report.ofParts
  split
  · exact ⟨_, rfl⟩
  · exact ⟨"", String.empty_append.symm⟩

/-- What is said of a fault that is reported. -/
def RunFault.complaint (e : RunFault) : String := "Interpreter failed:\n" ++ e.message ++ "\n"

theorem ofTranscript_of_ok {events : Array Event} {text : String} (r : Request) :
    Report.ofTranscript r ⟨events, .ok text⟩ = .ofParts r events text "" (.ok 0) := rfl

theorem ofTranscript_of_isReported {events : Array Event} {e : RunFault} (r : Request)
    (h : e.isReported = true) :
    Report.ofTranscript r ⟨events, .error e⟩ =
      .ofParts r (events.push .failed) "" e.complaint (.ok 2) :=
  if_pos h

theorem ofTranscript_of_not_isReported {events : Array Event} {e : RunFault} (r : Request)
    (h : e.isReported = false) :
    Report.ofTranscript r ⟨events, .error e⟩ = .ofParts r events "" "" (.error e) :=
  if_neg (by rw [h]; exact Bool.false_ne_true)

theorem ending_of_not_isReported {t : Transcript} {e : RunFault} (h : t.result = .error e)
    (hreported : e.isReported = false) : (Report.ofTranscript r t).ending = .error e := by
  obtain ⟨events, result⟩ := t
  obtain rfl : result = .error e := h
  rw [ofTranscript_of_not_isReported r hreported, ending_ofParts]

/-- A run that fails does not return zero. -/
theorem ending_ofTranscript_ne {r : Request} {t : Transcript} {e : RunFault}
    (h : t.result = .error e) : (Report.ofTranscript r t).ending ≠ .ok 0 := by
  obtain ⟨events, result⟩ := t
  obtain rfl : result = .error e := h
  unfold Report.ofTranscript Report.ofParts
  dsimp only
  split <;> split <;> simp

/-! ## What a run does -/

section Runs

variable {σ : Type} {host : Host (StateM σ)} {s : σ} {r : Request} {input : Path}

/-- The job of a request. -/
def Request.job? (r : Request) (input : Path) : Except Job.Nameless Job :=
  Job.ofPaths input (r.output.map Path.ofText)

/-- What a run with a file to interpret does: what it reports, and what it leaves behind. -/
inductive Transcribed (host : Host (StateM σ)) (s : σ) (r : Request) (input : Path) :
    Transcript × σ → Prop
  | printed (stdout : r.stdout = true) : Transcribed host s r input
      (.ofContent .commandLine input (host.read input s).1, (host.read input s).2)
  | nameless {e : Job.Nameless} (stdout : r.stdout = false) (derived : r.job? input = .error e) :
      Transcribed host s r input (⟨#[], .error (.nameless e)⟩, s)
  | failed {job : Job} {e : RunFault} (stdout : r.stdout = false) (derived : r.job? input = .ok job)
      (result : (Transcript.ofContent .interpreter input (host.read input s).1).result = .error e) :
      Transcribed host s r input
        (.ofContent .interpreter input (host.read input s).1, (host.read input s).2)
  | unwritten {job : Job} {text : String} {e : FileFault} {s' : σ} (stdout : r.stdout = false)
      (derived : r.job? input = .ok job)
      (result : (Transcript.ofContent .interpreter input (host.read input s).1).result = .ok text)
      (store : store host job.output text (host.read input s).2 = (.error e, s')) :
      Transcribed host s r input
        (⟨(Transcript.ofContent .interpreter input (host.read input s).1).events.push
            (.writing job.output.text), .error (.file e)⟩, s')
  | written {job : Job} {text : String} {s' : σ} (stdout : r.stdout = false)
      (derived : r.job? input = .ok job)
      (result : (Transcript.ofContent .interpreter input (host.read input s).1).result = .ok text)
      (store : store host job.output text (host.read input s).2 = (.ok (), s')) :
      Transcribed host s r input
        (⟨((Transcript.ofContent .interpreter input (host.read input s).1).events.push
            (.writing job.output.text)).push .succeeded, .ok ""⟩, s')

theorem perform_eq (host : Host (StateM σ)) (job : Job) (s : σ) :
    let t := Transcript.ofContent .interpreter job.input (host.read job.input s).1
    perform host job s = match t.result with
      | .error _ => (t, (host.read job.input s).2)
      | .ok text => match store host job.output text (host.read job.input s).2 with
        | (.ok (), s') => (⟨(t.events.push (.writing job.output.text)).push .succeeded, .ok ""⟩, s')
        | (.error e, s') => (⟨t.events.push (.writing job.output.text), .error (.file e)⟩, s') := by
  unfold perform
  simp only [bind, StateT.bind]
  rcases host.read job.input s with ⟨content, s₁⟩
  dsimp only
  cases (Transcript.ofContent .interpreter job.input content).result with
  | error e => rfl
  | ok text =>
    dsimp only [StateT.bind]
    rcases store host job.output text s₁ with ⟨_ | _, s'⟩ <;> rfl

theorem transcribe_of_job {job : Job} (hstdout : r.stdout = false) (hjob : r.job? input = .ok job) :
    transcribe host r input s = perform host job s := by
  rw [Request.job?] at hjob
  simp only [transcribe, hstdout, hjob, Bool.false_eq_true, if_false]

theorem transcribe_of_nameless {e : Job.Nameless} (hstdout : r.stdout = false)
    (hjob : r.job? input = .error e) :
    transcribe host r input s = (⟨#[], .error (.nameless e)⟩, s) := by
  rw [Request.job?] at hjob
  simp only [transcribe, hstdout, hjob, Bool.false_eq_true, if_false]
  rfl

theorem transcribe_of_stdout (h : r.stdout = true) :
    transcribe host r input s =
      (.ofContent .commandLine input (host.read input s).1, (host.read input s).2) := by
  rw [transcribe, if_pos h]
  rfl

/-- A run with a file to interpret does one of these things. -/
theorem transcribe_transcribed (host : Host (StateM σ)) (s : σ) (r : Request) (input : Path) :
    Transcribed host s r input (transcribe host r input s) := by
  cases hstdout : r.stdout with
  | true =>
    rw [transcribe_of_stdout hstdout]
    exact .printed hstdout
  | false =>
    cases hjob : r.job? input with
    | error e =>
      rw [transcribe_of_nameless hstdout hjob]
      exact .nameless hstdout hjob
    | ok job =>
      rw [transcribe_of_job hstdout hjob, perform_eq]
      have hinput := Job.input_of_ofPaths hjob
      subst hinput
      cases hresult :
          (Transcript.ofContent .interpreter job.input (host.read job.input s).1).result with
      | error e => exact .failed hstdout hjob hresult
      | ok text =>
        rcases hstore : store host job.output text (host.read job.input s).2 with ⟨e | _, s'⟩
        · simp only [hstore]
          exact .unwritten hstdout hjob hresult hstore
        · simp only [hstore]
          exact .written hstdout hjob hresult hstore

/-- Arguments that ask for the tablature of a file. -/
def Asks (arguments : List String) (r : Request) (input : Path) : Prop :=
  Invocation.ofArguments arguments = .ok (.interpret r) ∧ r.input.map Path.ofText = some input

/-- A run with a file to interpret is what it does, and a report of it. -/
theorem run_of_asks {arguments : List String} (h : Asks arguments r input) :
    run host arguments s =
      let (transcript, s') := transcribe host r input s
      (.ofTranscript r transcript, s') := by
  obtain ⟨harguments, hinput⟩ := h
  obtain ⟨text, htext, rfl⟩ := Option.map_eq_some_iff.1 hinput
  simp only [run, harguments, htext]
  rfl

/-- Any other run leaves everything as it is. -/
theorem run_of_not_asks {arguments : List String} (h : ∀ r input, ¬ Asks arguments r input) :
    (run host arguments s).2 = s := by
  unfold run
  cases harguments : Invocation.ofArguments arguments with
  | error e => rfl
  | ok invocation =>
    cases invocation with
    | help => rfl
    | interpret r =>
      cases hinput : r.input with
      | none =>
        simp only [hinput]
        rfl
      | some text => exact absurd ⟨harguments, by rw [hinput]; rfl⟩ (h r (Path.ofText text))

end Runs

end Tablature.CommandLine
