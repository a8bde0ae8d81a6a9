import Tablature.Diagnostics
import Tablature.Event
import Tablature.Score
import Tablature.Token.Basic

/-!
# Rendering tokens

The tokens of a source are operations on a score. Rendering performs them one after the other. A
faulty options block is recorded and leaves the rest alone; a cell that cannot be written stops
the rendering.

* `generate_of_text`: a text that was rendered is given again.
-/

namespace Tablature

/-- The operation that a token stands for, if it stands for one. -/
def Token.command? (t : Token) : Option Score.Command :=
  match t.kind, t.literal with
  | .note, _ => some (.note t.text)
  | .number, _ => some (.stroke (.fret t.text))
  | .empty, _ => some (.stroke .empty)
  | .next, _ => some (.stroke .next)
  | .spreadEmpty, some (.number n) => some (.stroke (.spreadEmpty n))
  | .spreadNext, some (.number n) => some (.stroke (.spreadNext n))
  | .options, some (.options block) => some (.options block)
  | _, _ => none

/-- A score and what has been found and reported on the way to it. -/
structure Rendering where
  score : Score := {}
  diagnostics : Diagnostics := {}
  events : Array Event := #[]
deriving DecidableEq, Repr

namespace Rendering

/-- Declares a string, and reports the staff if this starts one. -/
def note (name : String) (r : Rendering) : Outcome Staff.Fault Rendering :=
  let events :=
    if r.score.opensStaff then r.events.push (.staffStarted (r.score.newestFirst.length + 1))
    else r.events
  (r.score.addNote name).map (fun score => { r with score, events }) id

def stroke (k : Staff.Stroke) : Rendering → Outcome Staff.Fault Rendering
  | ⟨score, diagnostics, events⟩ => (score.stroke k).map (⟨·, diagnostics, events⟩) id

/-- Sets the meter of the staffs to come, and records what is wrong with the block. -/
def options (block : String) (line : Int) (r : Rendering) : Rendering :=
  match r.score.setOptions block with
  | ⟨score, none⟩ => { r with score, events := r.events.push (.defaultsSet score.defaults) }
  | ⟨score, some faults⟩ =>
    { r with score, diagnostics := r.diagnostics.record line ("\n" ++ Setting.report faults) }

/-- The rendering with one more token. -/
def step (t : Token) (r : Rendering) : Outcome Staff.Fault Rendering :=
  match t.command? with
  | none => .done r
  | some (.note name) => r.note name
  | some (.stroke k) => r.stroke k
  | some (.options block) => .done (r.options block t.line)

/-- The rendering of tokens, with diagnostics of before. -/
def ofTokens (tokens : List Token) (diagnostics : Diagnostics) : Outcome Staff.Fault Rendering :=
  Outcome.runAll step tokens { diagnostics }

/-- The text of a rendering that came to its end. -/
def textOf (o : Outcome Staff.Fault Rendering) : Except Staff.Fault String :=
  match o.fault with
  | some e => .error e
  | none => o.state.score.text

end Rendering

/-- Why tokens have no text. -/
inductive RenderFault where
  /-- Options blocks were faulty. -/
  | rejected (diagnostics : Diagnostics)
  /-- The rendering was stopped. -/
  | stopped (cause : Staff.Fault)
deriving DecidableEq, Repr

def RenderFault.message : RenderFault → String
  | rejected diagnostics => diagnostics.text
  | stopped cause => cause.message

/-- Tokens that are rendered when their text is asked for, and only once. -/
structure Renderer where
  tokens : List Token
  diagnostics : Diagnostics := {}
  text? : Option String := none
deriving DecidableEq, Repr

/-- What comes of asking a renderer for its text. -/
structure Rendered where
  renderer : Renderer
  result : Except RenderFault String
  events : Array Event

namespace Renderer

/-- A renderer with other tokens. A text that was rendered stays. -/
def setTokens (r : Renderer) (tokens : List Token) : Renderer := { r with tokens }

/-- The text, unless options blocks were faulty. -/
def verdict (diagnostics : Diagnostics) (text : String) : Except RenderFault String :=
  if diagnostics.isEmpty then .ok text else .error (.rejected diagnostics)

/-- Renders the tokens. Only a rendering that came to its end is kept. -/
def renderNow (r : Renderer) : Rendered :=
  let o := Rendering.ofTokens r.tokens r.diagnostics
  let r := { r with diagnostics := o.state.diagnostics }
  match Rendering.textOf o with
  | .error e => ⟨r, .error (.stopped e), o.state.events⟩
  | .ok text =>
    ⟨{ r with text? := some text }, verdict r.diagnostics text,
      o.state.events.push (.rendered o.state.score.newestFirst.length)⟩

/-- The text of the tokens, rendered now if it was not before. -/
def generate (r : Renderer) : Rendered :=
  match r.text? with
  | some text => ⟨r, verdict r.diagnostics text, #[]⟩
  | none => r.renderNow

theorem generate_of_text {r : Renderer} {text : String} (h : r.text? = some text) :
    r.generate = ⟨r, verdict r.diagnostics text, #[]⟩ := by
  simp [generate, h]

end Renderer

/-- The text of tokens, or what is wrong with them. -/
def render (tokens : List Token) : Except RenderFault String :=
  ({ tokens } : Renderer).generate.result

end Tablature
