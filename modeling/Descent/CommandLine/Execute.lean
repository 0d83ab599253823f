import Descent.Calc.Evaluate
import Descent.Calc.Grammar
import Descent.CommandLine.Basic
import Descent.Diagnostic.Render

/-! # Executing commands

What the program writes for a command, and how it ends. Results go to standard output; diagnostics
and failures go to standard error and make the program end with 1.
-/

namespace Descent.CommandLine

/-- What the program writes and its exit code. -/
structure Output where
  code : Nat := 0
  stdout : String := ""
  stderr : String := ""
deriving Repr, DecidableEq

/-- Why the text of an origin cannot be read. -/
inductive ReadError where
  /-- Refused by the system, with its number for the reason. -/
  | system (number : Nat)
  | notUtf8
deriving Repr, DecidableEq

namespace ReadError

/-- The system's words for the reasons that come with reading. -/
def systemText : Nat → String
  | 1 => "Operation not permitted"
  | 2 => "No such file or directory"
  | 5 => "Input/output error"
  | 13 => "Permission denied"
  | 20 => "Not a directory"
  | 21 => "Is a directory"
  | 23 => "Too many open files in system"
  | 24 => "Too many open files"
  | 36 => "File name too long"
  | 40 => "Too many levels of symbolic links"
  | n => s!"Unknown error {n}"

def message : ReadError → String
  | system number => s!"{systemText number} (os error {number})"
  | notUtf8 => "stream did not contain valid UTF-8"

end ReadError

/-- Why there is no text to work on. -/
def Origin.failure (e : ReadError) : Origin → String
  | file path => s!"failed to read '{path}': {e.message}"
  | _ => s!"failed to read stdin: {e.message}"

/-- The text of a program and the name that diagnostics give to it. -/
structure Source where
  name : Option String
  text : String

namespace Output

def failure (message : String) : Output := { code := 1, stderr := s!"error: {message}\n" }

def lines (ls : List String) : String := String.join (ls.map (· ++ "\n"))

/-- Adds diagnostics, which make the program fail if there are any. -/
def withDiagnostics (o : Output) (ds : List Diagnostic) (s : Source) (colored : Bool) : Output :=
  if ds.isEmpty then o
  else
    { o with
      code := 1
      stderr := o.stderr ++ Diagnostic.render ds s.text s.name colored ++ "\n" }

def json (j : Json) (compact : Bool) : Output :=
  { stdout := (if compact then j.compact else j.pretty) ++ "\n" }

end Output

namespace Action

/-- A symbol as one line. -/
def symbolLine (g : Grammar Calc.Node) (s : Symbol) : String :=
  s!"{s.start}..{s.stop} {g.terminalName s.terminal} {Text.quoted s.text}"

def symbolJson (g : Grammar Calc.Node) (s : Symbol) : Json :=
  .obj ([("terminal", .str (g.terminalName s.terminal)), ("start", .num s.start),
    ("end", .num s.stop)] ++ (s.capturedText.map fun t => ("text", .str t)).toList)

/-- Shows the symbols of a program. -/
def showSymbols (json : Bool) (s : Source) (colored : Bool) : Output :=
  let p := Calc.parser {}
  match p.symbolize s.text with
  | .error e => .failure e.message
  | .ok stream =>
    let symbols := stream.symbols.toList
    let shown : Output :=
      if json then .json (.arr (symbols.map (symbolJson p.grammar))) false
      else { stdout := Output.lines (symbols.map (symbolLine p.grammar)) }
    shown.withDiagnostics stream.diagnostics s colored

/-- The part of a program that could be parsed: where it starts well, and behind errors. -/
def salvagedJson (r : Parse Calc.Node) : Json :=
  let program := r.value.bind Calc.programOf?
  .obj [("program", (program.map (·.toJson)).getD .null),
    ("recovered", .arr ((r.recovered.filterMap Calc.programOf?).map (·.toJson)))]

/-- Shows the syntax of a program, or what the program prints. -/
def showParse (evaluate compact : Bool) (fuel : Option Nat) (s : Source) (colored : Bool) :
    Output :=
  match ((Calc.parser { fuel }).parse s.text).result with
  | .error e => .failure e.message
  | .ok r =>
    if r.diagnostics.isEmpty then
      let program := (r.value.bind Calc.programOf?).getD {}
      if evaluate then
        match program.evaluate with
        | .ok printed => { stdout := Output.lines printed }
        | .error e => .failure e.message
      else .json program.toJson compact
    else
      let shown : Output := if evaluate then {} else .json (salvagedJson r) compact
      shown.withDiagnostics r.diagnostics s colored

/-- Shows how the rules were evaluated. -/
def showTrace (detail : Nat) (fuel : Option Nat) (s : Source) (colored : Bool) : Output :=
  let p := (Calc.parser { fuel }).force
  match p.compiled with
  | .error e => .failure e.message
  | .ok compiled =>
    let outcome := p.parse s.text
    let lines := Output.lines (Event.trace compiled (.ofCount detail) outcome.events)
    match outcome.result with
    | .error e => { Output.failure e.message with stdout := lines }
    | .ok r => { stdout := lines : Output }.withDiagnostics r.diagnostics s colored

def run : Action → Source → Bool → Output
  | symbolize json => showSymbols json
  | parse evaluate compact fuel => showParse evaluate compact fuel
  | trace detail fuel => showTrace detail fuel

end Action

namespace Command

/-- Carries a command out. `content` is what reading the origin gives, if the command has one. -/
def run (content : Except ReadError String) (onTerminal : Bool) : Command → Output
  | dump =>
    match (Calc.parser {}).listing with
    | .ok listing => { stdout := listing }
    | .error e => .failure e.message
  | onSource _ none _ =>
    .failure "source is required: use a positional argument or -s/--source"
  | onSource action (some origin) color =>
    match content with
    | .error e => .failure (origin.failure e)
    | .ok text => action.run { name := origin.name?, text } (color.colors onTerminal)

end Command

end Descent.CommandLine
