import Tablature.Meter.Basic

/-!
# Progress events

What is reported while a source is interpreted. Every event has an origin, a level and a message.
When it happened, which line of the program reported it and how a failure came about are not part
of it.
-/

namespace Tablature

/-- How much detail an event belongs to. -/
inductive Event.Level where
  | debug
  | info
deriving DecidableEq, Repr

def Event.Level.name : Event.Level → String
  | debug => "DEBUG"
  | info => "INFO"

/-- The part of the program that reports an event. -/
inductive Event.Origin where
  | commandLine
  | interpreter
  | scanner
  | settings
  | score
  | rendering
deriving DecidableEq, Repr

def Event.Origin.name : Event.Origin → String
  | commandLine => "tab_interpreter.cli"
  | interpreter => "tab_interpreter.interpreter"
  | scanner => "tab_interpreter.lexer.tokenizer"
  | settings => "tab_interpreter.renderer.options"
  | score => "tab_interpreter.renderer.manager"
  | rendering => "tab_interpreter.renderer.parser"

inductive Event where
  | reading (origin : Event.Origin) (path : String)
  | generatingTokens
  | scanned (tokens lines : Nat)
  | generatingTabs
  | staffStarted (number : Nat)
  | defaultsSet (meter : Meter)
  | rendered (staffs : Nat)
  | writing (path : String)
  | succeeded
  | failed
deriving DecidableEq, Repr

namespace Event

def origin : Event → Origin
  | reading origin _ => origin
  | generatingTokens | generatingTabs | writing _ | succeeded => .interpreter
  | scanned _ _ => .scanner
  | staffStarted _ => .score
  | defaultsSet _ => .settings
  | rendered _ => .rendering
  | failed => .commandLine

def level : Event → Level
  | reading _ _ | generatingTokens | generatingTabs | writing _ | succeeded => .info
  | scanned _ _ | staffStarted _ | defaultsSet _ | rendered _ | failed => .debug

def message : Event → String
  | reading _ path => "Reading contents from " ++ path ++ "."
  | generatingTokens => "Generating tokens..."
  | scanned tokens lines =>
    "Scanned " ++ toString tokens ++ " tokens over " ++ toString lines ++ " lines"
  | generatingTabs => "Generating tabs..."
  | staffStarted number => "Started staff " ++ toString number
  | defaultsSet m =>
    "Staff defaults now time=" ++ toString m.beats ++ "/" ++ toString m.dominant ++ " fidelity=" ++
      toString m.fidelity
  | rendered staffs => "Rendered " ++ toString staffs ++ " staffs"
  | writing path => "Writing output to " ++ path ++ "."
  | succeeded => "Guitar tabs interpreted successfully!"
  | failed => "Interpretation failed"

end Event

end Tablature
