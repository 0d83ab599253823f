import Descent.Match.Trace

/-! # Commands

What the program can be asked to do, and why a request is refused. A command works on the text of a
calculator program, except the one that lists the grammar of the language.
-/

namespace Descent.CommandLine

/-- When diagnostics are coloured. -/
inductive ColorChoice where
  /-- On a terminal only. -/
  | auto
  | always
  | never
deriving Repr, DecidableEq

namespace ColorChoice

def ofWord? : String → Option ColorChoice
  | "auto" => some auto
  | "always" => some always
  | "never" => some never
  | _ => none

def colors (onTerminal : Bool) : ColorChoice → Bool
  | auto => onTerminal
  | always => true
  | never => false

end ColorChoice

/-- Where the text of a program comes from. -/
inductive Origin where
  | inline (text : String)
  | standardInput
  | file (path : String)
deriving Repr, DecidableEq

namespace Origin

/-- The origin that an argument for a file denotes: a lone hyphen stands for standard input. -/
def ofPath (path : String) : Origin := if path = "-" then standardInput else file path

/-- The name that diagnostics give to the text. -/
def name? : Origin → Option String
  | inline _ => none
  | standardInput => some "<stdin>"
  | file path => some path

end Origin

/-- What is done with the text of a program. -/
inductive Action where
  | symbolize (json : Bool)
  | parse (evaluate compact : Bool) (fuel : Option Nat)
  /-- Shows the evaluation of rules in the detail that a count asks for. -/
  | trace (detail : Nat) (fuel : Option Nat)
deriving Repr, DecidableEq

inductive Command where
  /-- Lists the compiled grammar. -/
  | dump
  | onSource (action : Action) (origin : Option Origin) (color : ColorChoice)
deriving Repr, DecidableEq

def Command.origin? : Command → Option Origin
  | dump => none
  | onSource _ origin _ => origin

/-- Why the arguments do not make a command. -/
inductive ArgumentError where
  /-- Help was asked for. -/
  | help
  | noArguments
  | unknownCommand (word : String)
  | unknownArgument (word : String)
  /-- A value for an option that takes none. -/
  | needlessValue (option : String)
  /-- No value, or none of those that an option admits. -/
  | invalidValue (option : String)
  | malformedNumber (word : String)
  /-- An option that cannot stand beside the ones before it. -/
  | conflict (option : String)
deriving Repr, DecidableEq

namespace ArgumentError

def message : ArgumentError → String
  | help => "usage: descent (symbolize | parse | trace) (SOURCE | -s TEXT) [OPTIONS]\n" ++
      "       descent dump"
  | noArguments => "a command is required"
  | unknownCommand word => s!"unknown command '{word}'"
  | unknownArgument word => s!"unexpected argument '{word}'"
  | needlessValue option => s!"'{option}' takes no value"
  | invalidValue option => s!"'{option}' requires a value, one of those it admits"
  | malformedNumber word => s!"'{word}' is not a number in range"
  | conflict option => s!"'{option}' cannot be used again or with the other arguments"

/-- Help is an answer; all else is a failure. -/
def exitCode : ArgumentError → Nat
  | help => 0
  | _ => 2

end ArgumentError

end Descent.CommandLine
