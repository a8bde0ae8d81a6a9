import Tablature.Render
import Tablature.Token.Scan

/-!
# Interpreting a source

A source is scanned, and, if there is nothing wrong with it, its tokens are rendered.
-/

namespace Tablature

/-- Why a source has no tablature. -/
inductive InterpretFault where
  /-- The source has faulty lexemes. -/
  | lexical (diagnostics : Diagnostics)
  | render (cause : RenderFault)
deriving DecidableEq, Repr

def InterpretFault.message : InterpretFault → String
  | lexical diagnostics => diagnostics.text
  | render cause => cause.message

/-- The tablature of a source, or why it has none, and what was reported on the way. -/
structure Interpretation where
  result : Except InterpretFault String
  events : Array Event

namespace Interpretation

/-- The events of scanning. -/
def scanEvents (s : Scan) : Array Event := #[.generatingTokens, .scanned s.tokens.size s.line]

def ofSource (source : String) : Interpretation :=
  let scan := Scan.ofText source
  match scan.result with
  | .error diagnostics => ⟨.error (.lexical diagnostics), scanEvents scan⟩
  | .ok tokens =>
    let rendered := ({ tokens } : Renderer).generate
    ⟨rendered.result.mapError .render, scanEvents scan ++ #[.generatingTabs] ++ rendered.events⟩

end Interpretation

/-- The tablature of a source, or why it has none. -/
def interpret (source : String) : Except InterpretFault String :=
  (Interpretation.ofSource source).result

end Tablature
