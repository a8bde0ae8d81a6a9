/-!
# Tokens of the tab notation
-/

namespace Tablature

/-- What a token stands for. -/
inductive Token.Kind where
  /-- `.`, an empty cell. -/
  | empty
  /-- `,`, the end of a beat. -/
  | next
  /-- A letter from `A` to `G`, perhaps with `b` or `#`. -/
  | note
  /-- `:` and a number of empty cells. -/
  | spreadEmpty
  /-- `;` and a number of beats. -/
  | spreadNext
  /-- Digits, a fret. -/
  | number
  /-- Settings in brackets. -/
  | options
  | endOfFile
deriving DecidableEq, Repr

def Token.Kind.name : Token.Kind → String
  | empty => "Empty"
  | next => "Next"
  | note => "Note"
  | spreadEmpty => "Spread Empty"
  | spreadNext => "Spread Next"
  | number => "Number"
  | options => "Options"
  | endOfFile => "EndOfFile"

/-- The value that a token carries. -/
inductive Token.Literal where
  | number (value : Int)
  | options (text : String)
deriving DecidableEq, Repr

/-- A token, with its text as it stands in the source and the line on which it ends. -/
structure Token where
  kind : Token.Kind
  text : String
  literal : Option Token.Literal
  line : Int
deriving DecidableEq, Repr

namespace Token

/-- The token that follows the source. -/
def endOfFile (line : Int) : Token := ⟨.endOfFile, "", none, line⟩

def describe (t : Token) : String :=
  "[" ++ toString t.line ++ "] " ++ t.kind.name ++ " \"" ++ t.text ++ "\""

end Token

end Tablature
