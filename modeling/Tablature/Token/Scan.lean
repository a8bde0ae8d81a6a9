import Tablature.Diagnostics
import Tablature.Token.Lexeme

/-!
# Scanning a source

A scan goes over the lexemes of a source once. It keeps the tokens and, for every lexeme that is
none, a diagnostic, both with the line on which the lexeme ends.
-/

namespace Tablature

/-- What was found in the part of a source that has been scanned, and the line it ends on. -/
structure Scan where
  tokens : Array Token := #[]
  diagnostics : Diagnostics := {}
  line : Nat := 1
deriving DecidableEq, Repr

namespace Scan

/-- The scan with one more lexeme. -/
def add (s : Scan) (x : Lexeme) : Scan :=
  let line := s.line + x.text.count '\n'
  match x.reading with
  | .blank => { s with line }
  | .token kind literal =>
    { s with line, tokens := s.tokens.push ⟨kind, String.ofList x.text, literal, line⟩ }
  | .fault f => { s with line, diagnostics := s.diagnostics.record line f.message }

/-- The scan of the whole of a source, closed by the token for its end. -/
def ofText (source : String) : Scan :=
  let s := (Lexeme.lexemes source.toList).foldl add {}
  { s with tokens := s.tokens.push (Token.endOfFile s.line) }

/-- The tokens, unless there was something wrong. -/
def result (s : Scan) : Except Diagnostics (List Token) :=
  if s.diagnostics.isEmpty then .ok s.tokens.toList else .error s.diagnostics

end Scan

/-- The tokens of a source, or all that is wrong with it. -/
def tokenize (source : String) : Except Diagnostics (List Token) := (Scan.ofText source).result

/-- A source that is scanned when its tokens are asked for, and only once. -/
structure Scanner where
  source : String
  scan? : Option Scan := none
deriving DecidableEq, Repr

namespace Scanner

/-- The scan: the one made before, if there is one. -/
def scan (s : Scanner) : Scan := s.scan?.getD (Scan.ofText s.source)

/-- The tokens of the source or what is wrong with it, and the scanner afterwards. -/
def generate (s : Scanner) : Except Diagnostics (List Token) × Scanner :=
  (s.scan.result, { s with scan? := some s.scan })

/-- A scanner with another source. A scan that was made stays. -/
def setSource (s : Scanner) (source : String) : Scanner := { s with source }

/-- The tokens found so far. -/
def tokens (s : Scanner) : List Token := (s.scan?.getD {}).tokens.toList

/-- What was found wrong so far. -/
def diagnostics (s : Scanner) : Diagnostics := (s.scan?.getD {}).diagnostics

end Scanner

end Tablature
