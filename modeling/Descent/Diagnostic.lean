import Descent.Terminal.Basic

/-! # Diagnostics

One diagnostic is one error in the input: where it is, what text it covers, and for a symbol out of
place what was found and what would have been accepted. Errors of the grammar are not diagnostics.
-/

namespace Descent

open Descent.Text

inductive DiagnosticKind where
  /-- Characters no terminal matches. -/
  | unrecognizedText
  /-- A symbol that no rule accepts where it stands. -/
  | unexpectedSymbol
  /-- The input ended while a rule still needed symbols. -/
  | unexpectedEnd
deriving Repr, DecidableEq

namespace DiagnosticKind

def isLexical : DiagnosticKind → Bool
  | unrecognizedText => true
  | _ => false

/-- The message of a diagnostic without details. -/
def plainMessage : DiagnosticKind → String
  | unrecognizedText => "unrecognized text"
  | unexpectedSymbol => "unexpected symbol"
  | unexpectedEnd => "unexpected end of input"

/-- What stands before and after the detail of a message. -/
def frame : DiagnosticKind → String × String
  | unrecognizedText => ("unrecognized text `", "`")
  | unexpectedSymbol => ("unexpected ", "")
  | unexpectedEnd => (plainMessage unexpectedEnd ++ "; ", "")

/-- The frame of a message with a pair of braces for the detail. -/
def template (k : DiagnosticKind) : String :=
  k.frame.1 ++ "\x7b\x7d" ++ k.frame.2

def message (k : DiagnosticKind) : Option String → String
  | none => k.plainMessage
  | some detail => k.frame.1 ++ detail ++ k.frame.2

end DiagnosticKind

structure Diagnostic where
  kind : DiagnosticKind
  /-- First byte covered. -/
  start : Nat
  /-- First byte past the covered ones. -/
  stop : Nat
  message : String := kind.plainMessage
  /-- The covered text; empty at the end of the input. -/
  text : String := ""
  found : Option TerminalId := none
  expected : List TerminalId := []
deriving Repr, DecidableEq

namespace Diagnostic

/-- The same diagnostic with a message that gives the detail. -/
def withDetail (d : Diagnostic) (detail : String) : Diagnostic :=
  { d with message := d.kind.message (some detail) }

/-- The diagnostic on one line. -/
def summary (d : Diagnostic) : String :=
  s!"error at {d.start}..{d.stop}: {d.message}"

/-- The error for a run of characters no terminal matches. -/
def unrecognized (start : Nat) (cs : List Char) : Diagnostic :=
  let text := String.ofList cs
  { kind := .unrecognizedText, start, stop := start + byteLength cs,
    message := DiagnosticKind.unrecognizedText.message (some text), text }

/-- Some of the diagnostics concern characters and not symbols. -/
def anyLexical (ds : List Diagnostic) : Bool := ds.any (·.kind.isLexical)

end Diagnostic

end Descent
