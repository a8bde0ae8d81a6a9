import Tablature.Text.Numeral
import Tablature.Token.Basic

/-!
# Lexemes

A source text falls into lexemes: one character, and the `body` that follows it. What a lexeme
means is read off its text alone.

* `lexemes_nil`, `lexemes_cons`: the first lexeme, and the lexemes of what follows it;
* `flatMap_text_lexemes`: the texts of the lexemes, one after the other, are the source.
-/

namespace Tablature

/-- Why a lexeme is no token. -/
inductive Lexeme.Fault where
  | unknown (c : Char)
  | spread (kind : Token.Kind) (digits : String) (cause : Numeral.Fault)
  | number (digits : String) (cause : Numeral.Fault)
  | unterminated
deriving DecidableEq, Repr

def Lexeme.Fault.message : Lexeme.Fault → String
  | unknown c => "Unknown character value: " ++ c.toString
  | spread kind digits cause =>
    "Spread amount \"" ++ digits ++ "\" for \"" ++ kind.name ++
      "\" could not be parsed into a number: " ++ cause.message
  | number digits cause =>
    "String \"" ++ digits ++ "\" could not be parsed into a number: " ++ cause.message
  | unterminated => "Unterminated options sequence. Close options sequences with \"]\"."

/-- A character of the source, and those behind it that belong to it. -/
structure Lexeme where
  head : Char
  body : List Char
deriving DecidableEq, Repr

/-- What a lexeme means. -/
inductive Lexeme.Reading where
  | blank
  | token (kind : Token.Kind) (literal : Option Token.Literal)
  | fault (fault : Lexeme.Fault)
deriving DecidableEq, Repr

namespace Lexeme

def text (x : Lexeme) : List Char := x.head :: x.body

def isNoteName (c : Char) : Bool := 'A' ≤ c && c ≤ 'G'

def isModifier (c : Char) : Bool := c == 'b' || c == '#'

def isSpread (c : Char) : Bool := c == ':' || c == ';'

/-- The characters of `cs` that belong to the character `c` in front of them: a note takes one
modifier, a spread and a number all digits, and a bracket all up to the next closing one. -/
def bodyOf (c : Char) (cs : List Char) : List Char :=
  if isNoteName c then (cs.take 1).takeWhile isModifier
  else if isSpread c || c.isDigit then cs.takeWhile Char.isDigit
  else if c == '[' then cs.take ((cs.takeWhile (· != ']')).length + 1)
  else []

/-- The first lexeme of the text `c :: cs`. -/
def first (c : Char) (cs : List Char) : Lexeme := ⟨c, bodyOf c cs⟩

/-- What follows the first lexeme of the text `c :: cs`. -/
def rest (c : Char) (cs : List Char) : List Char := cs.drop (bodyOf c cs).length

/-- The meaning of a spread, given what follows its sign. -/
def spreadReading (kind : Token.Kind) (digits : List Char) : Reading :=
  match Numeral.read digits with
  | .ok n => .token kind (some (.number n))
  | .error e => .fault (.spread kind (String.ofList digits) e)

/-- The meaning of a run of digits. -/
def numberReading (digits : List Char) : Reading :=
  match Numeral.read digits with
  | .ok n => .token .number (some (.number n))
  | .error e => .fault (.number (String.ofList digits) e)

/-- The meaning of an options block, given what follows its opening bracket. -/
def blockReading (body : List Char) : Reading :=
  if body.getLast? = some ']' then .token .options (some (.options (String.ofList body.dropLast)))
  else .fault .unterminated

def reading (x : Lexeme) : Reading :=
  if x.head = '.' then .token .empty none
  else if x.head = ',' then .token .next none
  else if isNoteName x.head then .token .note none
  else if x.head = ':' then spreadReading .spreadEmpty x.body
  else if x.head = ';' then spreadReading .spreadNext x.body
  else if x.head ≤ ' ' then .blank
  else if x.head = '[' then blockReading x.body
  else if x.head.isDigit then numberReading x.text
  else .fault (.unknown x.head)

theorem length_rest_lt (c : Char) (cs : List Char) : (rest c cs).length < (c :: cs).length := by
  simp only [rest, List.length_drop, List.length_cons]
  omega

/-- The lexemes of a text, behind those cut off before it (the latest first). -/
def lexemesOnto (cut : List Lexeme) : List Char → List Lexeme
  | [] => cut.reverse
  | c :: cs => lexemesOnto (first c cs :: cut) (rest c cs)
termination_by cs => cs.length
decreasing_by exact length_rest_lt c cs

/-- The lexemes of a text. -/
def lexemes (cs : List Char) : List Lexeme := lexemesOnto [] cs

theorem lexemesOnto_eq (cut : List Lexeme) (cs : List Char) :
    lexemesOnto cut cs = cut.reverse ++ lexemes cs := by
  suffices h : ∀ cut more, lexemesOnto (more ++ cut) cs = cut.reverse ++ lexemesOnto more cs by
    simpa [lexemes] using h cut []
  fun_induction lexemesOnto cut cs with
  | case1 => simp [lexemesOnto]
  | case2 cut c cs ih =>
    intro cut' more
    rw [lexemesOnto, lexemesOnto, ← List.cons_append]
    exact ih cut' (first c cs :: more)

theorem lexemes_nil : lexemes [] = [] := by simp [lexemes, lexemesOnto]

theorem lexemes_cons (c : Char) (cs : List Char) :
    lexemes (c :: cs) = first c cs :: lexemes (rest c cs) := by
  rw [lexemes, lexemesOnto, lexemesOnto_eq]
  rfl

/-- The body of a lexeme is the front of what follows its head. -/
theorem bodyOf_append_rest (c : Char) (cs : List Char) : bodyOf c cs ++ rest c cs = cs := by
  suffices h : bodyOf c cs <+: cs from (List.prefix_iff_eq_append.1 h)
  unfold bodyOf
  split
  · exact (List.takeWhile_prefix _).trans (List.take_prefix _ _)
  · split
    · exact List.takeWhile_prefix _
    · split
      · exact List.take_prefix _ _
      · exact List.nil_prefix

/-- Nothing of a source is lost, merged or made up: the lexemes' texts are the source. -/
theorem flatMap_text_lexemes (cs : List Char) : (lexemes cs).flatMap text = cs := by
  induction h : cs.length using Nat.strongRecOn generalizing cs with
  | ind n ih =>
    cases cs with
    | nil => simp [lexemes_nil]
    | cons c cs =>
      rw [lexemes_cons, List.flatMap_cons,
        ih _ (h ▸ length_rest_lt c cs) _ rfl]
      simp [text, first, bodyOf_append_rest]

end Lexeme

end Tablature
