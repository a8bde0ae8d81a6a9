import Tablature.Text.Numeral
import Tablature.Text.Quoted

/-!
# Reading the command line

Each argument is read as a word: an operand, a flag, or something unknown. Flags may be shortened
to any beginning that no other flag shares. The argument `--` makes operands of all that follow
it. The first run of operands names the files; operands behind it are left over.
-/

namespace Tablature.CommandLine

open Text

inductive Flag where
  | help
  | stdout
  | debug
deriving DecidableEq, Repr

/-- A flag as messages name it. -/
def Flag.title : Flag → String
  | help => "-h/--help"
  | stdout => "--stdout"
  | debug => "--debug"

/-- The long spellings of the flags. -/
def longSpellings : List (String × Flag) :=
  [("--help", .help), ("--stdout", .stdout), ("--debug", .debug)]

/-- A flag as it is given, with the text attached to it, if there is one. -/
inductive GivenFlag where
  /-- A long spelling, with what follows its equals sign. -/
  | long (flag : Flag) (value : Option String)
  /-- `-h`, with what follows it, but for an equals sign in between. -/
  | short (value : Option String)
deriving DecidableEq, Repr

/-- What an argument is. -/
inductive Word where
  | operand (text : String)
  | flag (given : GivenFlag)
  | unknown (text : String)
  | separator
deriving DecidableEq, Repr

/-- What is wrong with a command line. -/
inductive UsageFault where
  /-- A shortened flag that more than one spelling begins with. -/
  | ambiguous (argument : String) (spellings : List String)
  /-- A flag with a text attached to it. -/
  | ignoredValue (flag : Flag) (value : String)
  | unrecognized (arguments : List String)
deriving DecidableEq, Repr

def UsageFault.message : UsageFault → String
  | ambiguous argument spellings =>
    "ambiguous option: " ++ argument ++ " could match " ++ ", ".intercalate spellings
  | ignoredValue flag value =>
    "argument " ++ flag.title ++ ": ignored explicit argument " ++ quoted value
  | unrecognized arguments => "unrecognized arguments: " ++ " ".intercalate arguments

/-! ## Words -/

/-- Whether a text is a number with a minus sign: digits, or a point with digits behind it. One
line feed may follow. -/
def isNegativeNumber (text : String) : Bool :=
  match text.toList with
  | '-' :: cs =>
    let cs := if cs.getLast? = some '\n' then cs.dropLast else cs
    match cs.dropWhile isDecimalDigit with
    | [] => !cs.isEmpty
    | '.' :: ds => !ds.isEmpty && ds.all isDecimalDigit
    | _ => false
  | _ => false

/-- An argument with a hyphen in front that is no flag. -/
def Word.ofOther (text : String) : Word :=
  if isNegativeNumber text || text.contains ' ' then .operand text else .unknown text

/-- An argument that starts with two hyphens, split at its first equals sign. -/
def Word.ofLong (text spelling : String) (value : Option String) : Except UsageFault Word :=
  match longSpellings.lookup spelling with
  | some f => .ok (.flag (.long f value))
  | none =>
    match longSpellings.filter fun (long, _) => spelling.toList.isPrefixOf long.toList with
    | [] => .ok (.ofOther text)
    | [(_, f)] => .ok (.flag (.long f value))
    | several => .error (.ambiguous text (several.map (·.1)))

/-- The text attached to `-h`, given what follows it. -/
def attachedTo : List Char → Option String
  | [] => none
  | '=' :: text => some (String.ofList text)
  | text => some (String.ofList text)

/-- The word that an argument is, in front of any separator. -/
def Word.ofArgument (text : String) : Except UsageFault Word :=
  match text.toList with
  | '-' :: '-' :: _ =>
    match cutAt '=' text.toList with
    | some (spelling, value) => ofLong text (String.ofList spelling) (some (String.ofList value))
    | none => ofLong text text none
  | '-' :: 'h' :: behind => .ok (.flag (.short (attachedTo behind)))
  | '-' :: _ :: _ => .ok (.ofOther text)
  | _ => .ok (.operand text)

/-- The words of a command line. -/
def wordsOf : List String → Except UsageFault (List Word)
  | [] => .ok []
  | argument :: arguments =>
    if argument = "--" then .ok (.separator :: arguments.map .operand)
    else match Word.ofArgument argument with
      | .ok word => (wordsOf arguments).map (word :: ·)
      | .error e => .error e

/-! ## Flags -/

/-- The flags that have been given, help apart. -/
structure Switches where
  stdout : Bool := false
  debug : Bool := false
deriving DecidableEq, Repr

/-- The flag that was given. No flag takes a value. In the value of `-h` the letters `h` in front
repeat the flag, as in `-hh`, and only what follows them is too much; so is an empty value. -/
def GivenFlag.resolve : GivenFlag → Except UsageFault Flag
  | long flag none => .ok flag
  | long flag (some value) => .error (.ignoredValue flag value)
  | short none => .ok .help
  | short (some value) =>
    let ignored := String.ofList (value.toList.dropWhile (· == 'h'))
    if ignored = "" ∧ value ≠ "" then .ok .help else .error (.ignoredValue .help ignored)

/-- The switches after flags in their order; nothing if one of them asks for help. -/
def Switches.turnOn (s : Switches) : List GivenFlag → Except UsageFault (Option Switches)
  | [] => .ok (some s)
  | given :: later =>
    match given.resolve with
    | .error e => .error e
    | .ok .help => .ok none
    | .ok .stdout => turnOn { s with stdout := true } later
    | .ok .debug => turnOn { s with debug := true } later

/-! ## Operands -/

def Word.isOperand : Word → Bool
  | operand _ | separator => true
  | _ => false

/-- The argument that a word was read from, for a word that is no flag. -/
def Word.text? : Word → Option String
  | operand text | unknown text => some text
  | separator => some "--"
  | flag _ => none

/-- The front of a run of operands: one operand, and the separators around it. -/
def frontOf (run : List Word) : List Word :=
  let separators := run.takeWhile (· == .separator)
  let behind := run.drop separators.length
  separators ++ behind.take 1 ++ (behind.drop 1).takeWhile (· == .separator)

/-- The value of the front of a run: what is left of it but for one `--`. -/
def valueOf (front : List Word) : Option String := ((front.filterMap Word.text?).erase "--").head?

/-- The two values of a run of operands, and the operands that are left over. -/
def valuesOf (run : List Word) : Option String × Option String × List Word :=
  let first := frontOf run
  let second := frontOf (run.drop first.length)
  (valueOf first, valueOf second, run.drop (first.length + second.length))

/-! ## Invocations -/

/-- A request to interpret a file. -/
structure Request where
  input : Option String := none
  output : Option String := none
  stdout : Bool := false
  debug : Bool := false
deriving DecidableEq, Repr

inductive Invocation where
  | help
  | interpret (request : Request)
deriving DecidableEq, Repr

/-- The invocation that words write. -/
def Invocation.ofWords (words : List Word) : Except UsageFault Invocation :=
  let before := words.takeWhile (!·.isOperand)
  let tail := words.dropWhile (!·.isOperand)
  let (input, output, left) := valuesOf (tail.takeWhile Word.isOperand)
  let unused := before ++ left ++ tail.dropWhile Word.isOperand
  let given := words.filterMap fun
    | .flag given => some given
    | _ => none
  match ({} : Switches).turnOn given with
  | .error e => .error e
  | .ok none => .ok .help
  | .ok (some s) =>
    match unused.filterMap Word.text? with
    | [] => .ok (.interpret { input, output, stdout := s.stdout, debug := s.debug })
    | arguments => .error (.unrecognized arguments)

/-- The invocation that arguments write. -/
def Invocation.ofArguments (arguments : List String) : Except UsageFault Invocation := do
  ofWords (← wordsOf arguments)

/-! ## Texts -/

def usage : String := "usage: tab-interpreter [-h] [--stdout] [--debug] [input] [output]\n"

def helpText : String :=
  usage ++
    "\nRender compact tab notation as ASCII guitar tablature\n" ++
    "\npositional arguments:\n" ++
    "  input       Tab notation file to interpret\n" ++
    "  output      Output file, always given a .txt extension (default:\n" ++
    "              <input>-output.txt)\n" ++
    "\noptions:\n" ++
    "  -h, --help  show this help message and exit\n" ++
    "  --stdout    Print the tablature instead of writing a file\n" ++
    "  --debug     Enable detailed debug logging messages\n" ++
    "\nExamples:\n" ++
    "  tab-interpreter testdata/standard_riff.tab\n" ++
    "  tab-interpreter testdata/standard_riff.tab riff.txt\n" ++
    "  tab-interpreter testdata/standard_riff.tab --stdout\n" ++
    "        \n"

/-- The text of a usage fault. -/
def UsageFault.report (e : UsageFault) : String :=
  usage ++ "tab-interpreter: error: " ++ e.message ++ "\n"

end Tablature.CommandLine
