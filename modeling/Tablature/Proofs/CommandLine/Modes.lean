import Mathlib.Control.Monad.Basic
import Tablature.Proofs.CommandLine.Arguments
import Tablature.Proofs.CommandLine.Store
import Tablature.Proofs.CommandLine.Transcript

/-!
# The two modes

A tablature is printed, or written to a file. Either way it is the same one, and what is reported
besides does not get into it.

* `modes_agree`: what both modes give for a file that can be read.
-/

namespace Tablature.CommandLine

open Text

/-- The arguments that ask for the tablature of a file on the standard output. `--debug` may stand
on both sides, any number of times. -/
def printing (before after : Nat) (input : String) : List String :=
  List.replicate before "--debug" ++ [input, "--stdout"] ++ List.replicate after "--debug"

/-- The arguments that ask for the tablature of a file in another one. -/
def writing (before after : Nat) (input output : String) : List String :=
  List.replicate before "--debug" ++ [input, output] ++ List.replicate after "--debug"

/-- `--debug` is on if it stands on one side at least. -/
theorem debug_mem_iff {before after : Nat} {between : List Flag} (h : .debug ∉ between) :
    .debug ∈ List.replicate before Flag.debug ++ (between ++ List.replicate after .debug) ↔
      0 < before + after := by
  simp only [List.mem_append, List.mem_replicate, h, and_true, false_or]
  omega

theorem ofArguments_printing {before after : Nat} {input : String} (hinput : IsPlain input) :
    Invocation.ofArguments (printing before after input) =
      .ok (.interpret { input := some input, stdout := true,
                        debug := decide (0 < before + after) }) := by
  have harguments : printing before after input =
      (List.replicate before .debug).map Flag.spelling ++ (input :: none.toList) ++
        ([Flag.stdout] ++ List.replicate after Flag.debug).map Flag.spelling := by
    simp [printing, Flag.spelling]
  rw [harguments, ofArguments_of_operands (by simp) hinput (by simp)]
  simp only [debug_mem_iff (show Flag.debug ∉ [Flag.stdout] by simp)]
  simp

theorem ofArguments_writing {before after : Nat} {input output : String} (hinput : IsPlain input)
    (houtput : IsPlain output) :
    Invocation.ofArguments (writing before after input output) =
      .ok (.interpret { input := some input, output := some output,
                        debug := decide (0 < before + after) }) := by
  have harguments : writing before after input output =
      (List.replicate before .debug).map Flag.spelling ++ (input :: (some output).toList) ++
        ([] ++ List.replicate after Flag.debug).map Flag.spelling := by
    simp [writing, Flag.spelling]
  rw [harguments,
    ofArguments_of_operands (by simp) hinput fun a ha => Option.some.inj ha ▸ houtput]
  simp only [debug_mem_iff List.not_mem_nil]
  simp

/-- The log of reading a file and interpreting its source. -/
def logOf (debug : Bool) (origin : Event.Origin) (path : Path) (source : String) : String :=
  logText debug (#[.reading origin path.text] ++ (Interpretation.ofSource source).events)

section Read

variable {t : FileTree} {input output raw : String} {before after : Nat}
  (hinput : IsPlain input) (hread : (t.read (Path.ofText input)).1 = .ok raw.toUTF8)

include hinput hread

theorem run_printing_eq :
    (run FileTree.host (printing before after input) t).1 =
      .ofTranscript { input := some input, stdout := true, debug := decide (0 < before + after) }
        ⟨#[.reading .commandLine (Path.ofText input).text] ++
          (Interpretation.ofSource (unified raw)).events,
          (interpret (unified raw)).mapError .interpret⟩ := by
  rw [run_of_asks ⟨ofArguments_printing hinput, rfl⟩, transcribe_of_stdout rfl]
  simp only [show (FileTree.host.read (Path.ofText input) t).1 = .ok raw.toUTF8 from hread,
    ofContent_toUTF8]

theorem run_printing_of_ok {text : String} (h : interpret (unified raw) = .ok text) :
    (run FileTree.host (printing before after input) t).1 =
      ⟨.ok 0, text, logOf (decide (0 < before + after)) .commandLine (Path.ofText input)
        (unified raw)⟩ := by
  rw [run_printing_eq hinput hread, h]
  simp [Except.mapError, ofTranscript_of_ok, Report.ofParts, logOf]

theorem run_printing_of_error {e : InterpretFault} (h : interpret (unified raw) = .error e)
    (hreported : (RunFault.interpret e).isReported = true) :
    ∃ log, (run FileTree.host (printing before after input) t).1 =
      ⟨.ok 2, "", log ++ (RunFault.interpret e).complaint⟩ := by
  rw [run_printing_eq hinput hread, h]
  exact ⟨_, ofTranscript_of_isReported _ hreported⟩

variable {out : Path} (houtput : IsPlain output)
  (hout : (Path.ofText output).withSuffix? Job.outputSuffix = some out)

include houtput hout

theorem run_writing_eq :
    run FileTree.host (writing before after input output) t =
      let r : Request := { input := some input, output := some output,
                           debug := decide (0 < before + after) }
      let events := #[.reading .interpreter (Path.ofText input).text] ++
        (Interpretation.ofSource (unified raw)).events
      match interpret (unified raw) with
      | .error e => (.ofTranscript r ⟨events, .error (.interpret e)⟩, t)
      | .ok text => match store FileTree.host out text t with
        | (.ok (), t') =>
          (.ofTranscript r ⟨(events.push (.writing out.text)).push .succeeded, .ok ""⟩, t')
        | (.error e, t') =>
          (.ofTranscript r ⟨events.push (.writing out.text), .error (.file e)⟩, t') := by
  have hjob : ({ input := some input, output := some output,
                 debug := decide (0 < before + after) } : Request).job? (Path.ofText input) =
      .ok ⟨Path.ofText input, out⟩ := by
    simp only [Request.job?, Job.ofPaths, Option.map_some, Option.getD_some, hout]
  have hread' : FileTree.host.read (Path.ofText input) t = (.ok raw.toUTF8, t) :=
    Prod.ext hread (FileTree.read_snd _ t)
  rw [run_of_asks ⟨ofArguments_writing hinput houtput, rfl⟩, transcribe_of_job rfl hjob, perform_eq]
  simp only [hread', ofContent_toUTF8]
  cases interpret (unified raw) with
  | error e => rfl
  | ok text =>
    simp only [Except.mapError]
    rcases store FileTree.host out text t with ⟨_ | _, t'⟩ <;> rfl

theorem run_writing_of_ok {text : String} (h : interpret (unified raw) = .ok text)
    (hstorable : t.Storable out) :
    ∃ log, run FileTree.host (writing before after input output) t =
      (⟨.ok 0, log, ""⟩, t.stored out text.toUTF8) := by
  rw [run_writing_eq hinput hread houtput hout, h]
  simp only [hstorable.store]
  exact ⟨_, congrArg (·, _) (ofTranscript_of_ok _)⟩

theorem run_writing_of_error {e : InterpretFault} (h : interpret (unified raw) = .error e)
    (hreported : (RunFault.interpret e).isReported = true) :
    ∃ log, run FileTree.host (writing before after input output) t =
      (⟨.ok 2, log, (RunFault.interpret e).complaint⟩, t) := by
  rw [run_writing_eq hinput hread houtput hout, h]
  exact ⟨_, congrArg (·, t) (ofTranscript_of_isReported _ hreported)⟩

end Read

/-- Both modes give the tablature of a file that can be read, and nothing else: the one on the
standard output, with the log apart, and the other in the file that the output path is made into, if
this can be stored. A source that has none makes the same complaint in both. -/
theorem modes_agree (t : FileTree) {input output raw : String} {out : Path} (hinput : IsPlain input)
    (houtput : IsPlain output)
    (hout : (Path.ofText output).withSuffix? Job.outputSuffix = some out)
    (hread : (t.read (Path.ofText input)).1 = .ok raw.toUTF8) (before after : Nat) :
    let printed := (run FileTree.host (printing before after input) t).1
    let written := run FileTree.host (writing before after input output) t
    let log := logOf (decide (0 < before + after)) .commandLine (Path.ofText input) (unified raw)
    (∀ text, interpret (unified raw) = .ok text →
      printed.ending = .ok 0 ∧ printed.stdout = text ∧ printed.stderr = log ∧
        (t.Storable out → written.1.ending = .ok 0 ∧ (written.2.read out).1 = .ok text.toUTF8)) ∧
    ∀ e, interpret (unified raw) = .error e →
      (∃ diagnostics, e = .lexical diagnostics ∨ e = .render (.rejected diagnostics)) →
        printed.ending = .ok 2 ∧ written.1.ending = .ok 2 ∧ printed.stdout = "" ∧
          (∃ log, printed.stderr = log ++ (RunFault.interpret e).complaint) ∧
            written.1.stderr = (RunFault.interpret e).complaint := by
  intro printed written log
  constructor
  · intro text h
    have hprinted : printed = ⟨.ok 0, text, log⟩ := run_printing_of_ok hinput hread h
    refine ⟨by rw [hprinted], by rw [hprinted], by rw [hprinted], fun hstorable => ?_⟩
    obtain ⟨log', hwritten⟩ : ∃ log', written = (⟨.ok 0, log', ""⟩, t.stored out text.toUTF8) :=
      run_writing_of_ok hinput hread houtput hout h hstorable
    rw [hwritten]
    exact ⟨rfl, by rw [hstorable.read_stored]⟩
  · intro e h hkind
    have hreported : (RunFault.interpret e).isReported = true := by
      obtain ⟨diagnostics, rfl | rfl⟩ := hkind <;> rfl
    obtain ⟨log', hprinted⟩ : ∃ log',
        printed = ⟨.ok 2, "", log' ++ (RunFault.interpret e).complaint⟩ :=
      run_printing_of_error hinput hread h hreported
    obtain ⟨log'', hwritten⟩ : ∃ log'',
        written = (⟨.ok 2, log'', (RunFault.interpret e).complaint⟩, t) :=
      run_writing_of_error hinput hread houtput hout h hreported
    rw [hprinted, hwritten]
    exact ⟨rfl, rfl, rfl, ⟨log', rfl⟩, rfl⟩

/-- A cell on a string, and a character that stands for nothing. -/
theorem modes_agree_of_one_cell :
    let tablature := "E  |---\n\n     1 \n\n"
    let fault := "[1] Error: Unknown character value: ?"
    let t := FileTree.oneFile "a.tab" "E .".toUTF8
    let t' := FileTree.oneFile "a.tab" "?".toUTF8
    let written := run FileTree.host (writing 0 1 "a.tab" "b") t
    let written' := run FileTree.host (writing 1 0 "a.tab" "b") t'
    (run FileTree.host (printing 0 1 "a.tab") t).1.stdout = tablature ∧ written.1.ending = .ok 0 ∧
      (written.2.read ⟨.relative, ["b.txt"]⟩).1 = .ok tablature.toUTF8 ∧
      (run FileTree.host (printing 1 0 "a.tab") t').1.ending = .ok 2 ∧
      written'.1.stderr = "Interpreter failed:\n" ++ fault ++ "\n" := by
  intro tablature fault t t' written written'
  have hread (source : String) :
      ((FileTree.oneFile "a.tab" source.toUTF8).read (Path.ofText "a.tab")).1 =
        .ok source.toUTF8 := by
    rw [show Path.ofText "a.tab" = ⟨.relative, ["a.tab"]⟩ by decide +kernel,
      FileTree.read_oneFile ⟨by decide +kernel, by decide +kernel⟩ (by decide) (by decide)]
  have hstorable : t.Storable ⟨.relative, ["b.txt"]⟩ :=
    FileTree.storable_oneFile (by decide) ⟨by decide +kernel, by decide +kernel⟩ (by decide)
      (by decide)
  have hplain : IsPlain "a.tab" ∧ IsPlain "b" := by unfold IsPlain; decide
  have hout : (Path.ofText "b").withSuffix? Job.outputSuffix = some ⟨.relative, ["b.txt"]⟩ := by
    decide +kernel
  have hagree (source : String) := modes_agree (FileTree.oneFile "a.tab" source.toUTF8) hplain.1
    hplain.2 hout (hread source)
  obtain ⟨-, hprinted, -, hwritten⟩ := (hagree "E ." 0 1).1 tablature (by decide +kernel)
  obtain ⟨hending, -, -, -, hcomplaint⟩ := (hagree "?" 1 0).2
    (.lexical ⟨#[⟨1, "Unknown character value: ?"⟩]⟩) (by decide +kernel) ⟨_, .inl rfl⟩
  refine ⟨hprinted, (hwritten hstorable).1, (hwritten hstorable).2, hending, hcomplaint.trans ?_⟩
  decide +kernel

end Tablature.CommandLine
