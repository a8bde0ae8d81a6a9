import Tablature.CommandLine.Arguments
import Tablature.Files.Host
import Tablature.Interpret
import Tablature.Job
import Tablature.Text.LineEnding
import Tablature.Text.Utf8

/-!
# Running the program

A run reads its arguments, interprets a file, and prints the tablature or writes it to another
file. All that it prints is part of the report, so that a run is a function of the arguments and
of the file system. A fault is reported and gives the exit code 2, or escapes.
-/

namespace Tablature.CommandLine

/-- Why a run yields no tablature. -/
inductive RunFault where
  | nameless (fault : Job.Nameless)
  | file (fault : FileFault)
  | undecodable (fault : Utf8.Fault)
  | interpret (fault : InterpretFault)
deriving DecidableEq, Repr

def RunFault.message : RunFault → String
  | nameless e => e.message
  | file e => e.message
  | undecodable e => e.message
  | interpret e => e.message

/-- Whether a fault is reported; any other escapes. -/
def RunFault.isReported : RunFault → Bool
  | file (.system _) => true
  | interpret (.lexical _) => true
  | interpret (.render (.rejected _)) => true
  | interpret (.render (.stopped (.locked _))) => true
  | _ => false

/-- The events of a run, and what it prints at its end. -/
structure Transcript where
  events : Array Event
  result : Except RunFault String

/-- What a run leaves on its outputs, and its exit code or the fault that escapes. -/
structure Report where
  ending : Except RunFault Nat
  stdout : String := ""
  stderr : String := ""

/-- The source in a file. -/
def sourceOf (content : ByteArray) : Except Utf8.Fault String :=
  (Utf8.decode content.data.toList).map fun text => String.ofList (Text.unifyLines text.toList)

/-- Interprets what was read from a path. -/
def Transcript.ofContent (origin : Event.Origin) (path : Path)
    (content : Except FileFault ByteArray) : Transcript :=
  let events := #[.reading origin path.text]
  match content with
  | .error e => ⟨events, .error (.file e)⟩
  | .ok content =>
    match sourceOf content with
    | .error e => ⟨events, .error (.undecodable e)⟩
    | .ok source =>
      let i := Interpretation.ofSource source
      ⟨events ++ i.events, i.result.mapError .interpret⟩

/-! ## Reports -/

/-- The line of an event in the log. -/
def logLine (debug : Bool) (e : Event) : String :=
  (if debug then e.origin.name ++ " - " ++ e.level.name ++ " - " else "") ++ e.message ++ "\n"

/-- The lines of the events that are shown: details only where they are asked for. -/
def logText (debug : Bool) (events : Array Event) : String :=
  String.join ((events.toList.filter fun e => debug || e.level == .info).map (logLine debug))

/-- A report with the log on the standard output, or, where this is for the tablature, on the
standard error. -/
def Report.ofParts (r : Request) (events : Array Event) (printed complaint : String)
    (ending : Except RunFault Nat) : Report :=
  let log := logText r.debug events
  if r.stdout then ⟨ending, printed, log ++ complaint⟩ else ⟨ending, log ++ printed, complaint⟩

def Report.ofTranscript (r : Request) (t : Transcript) : Report :=
  match t.result with
  | .ok text => ofParts r t.events text "" (.ok 0)
  | .error e =>
    if e.isReported then
      ofParts r (t.events.push .failed) "" ("Interpreter failed:\n" ++ e.message ++ "\n") (.ok 2)
    else ofParts r t.events "" "" (.error e)

/-! ## Runs -/

variable {m : Type → Type} [Monad m]

/-- Writes a text to a file, in directories that are made if they are not there. -/
def store (host : Host m) (path : Path) (text : String) : m (Except FileFault Unit) := do
  match ← host.makeDirectories path.parent with
  | .ok () => host.write path text.toUTF8
  | .error e => return .error e

/-- Interprets a file, and prints the tablature. -/
def print (host : Host m) (input : Path) : m Transcript := do
  return .ofContent .commandLine input (← host.read input)

/-- Interprets a file, and writes the tablature to another one. -/
def perform (host : Host m) (job : Job) : m Transcript := do
  let t := Transcript.ofContent .interpreter job.input (← host.read job.input)
  match t.result with
  | .error _ => return t
  | .ok text =>
    let events := t.events.push (.writing job.output.text)
    match ← store host job.output text with
    | .ok () => return ⟨events.push .succeeded, .ok ""⟩
    | .error e => return ⟨events, .error (.file e)⟩

/-- Interprets the file of a request, as it asks for. -/
def transcribe (host : Host m) (r : Request) (input : Path) : m Transcript :=
  if r.stdout then print host input
  else match Job.ofPaths input (r.output.map Path.ofText) with
    | .ok job => perform host job
    | .error e => return ⟨#[], .error (.nameless e)⟩

/-- Runs the program. -/
def run (host : Host m) (arguments : List String) : m Report := do
  match Invocation.ofArguments arguments with
  | .error e => return { ending := .ok 2, stderr := e.report }
  | .ok .help => return { ending := .ok 0, stdout := helpText }
  | .ok (.interpret r) =>
    match r.input with
    | none =>
      return { ending := .ok 1, stderr := "Could not parse arguments: No filename was provided.\n" }
    | some input => return .ofTranscript r (← transcribe host r (Path.ofText input))

end Tablature.CommandLine
