import Descent.Grammar.Value
import Descent.Diagnostic

/-! # Symbols

Text is cut into symbols before any rule looks at it. A symbol is one match of a terminal.
-/

namespace Descent

open Descent.Text

structure Symbol where
  terminal : TerminalId
  /-- First byte of the symbol in the source. -/
  start : Nat
  text : String
  /-- The text is not implied by the terminal. -/
  captured : Bool
deriving Repr, DecidableEq

namespace Symbol

/-- Bytes of the symbol. -/
def length (s : Symbol) : Nat := byteLength s.text.toList

/-- First byte past the symbol. -/
def stop (s : Symbol) : Nat := s.start + s.length

/-- The text, unless the terminal implies it. -/
def capturedText (s : Symbol) : Option String := if s.captured then some s.text else none

def token (s : Symbol) : Token := ⟨s.terminal, s.start, s.text, !s.captured⟩

end Symbol

/-- The symbols of a text and the errors met while cutting it. -/
structure SymbolStream where
  symbols : Array Symbol
  diagnostics : List Diagnostic
deriving Repr, DecidableEq

namespace SymbolStream

def isOk (s : SymbolStream) : Bool := s.diagnostics.isEmpty

def tokens (s : SymbolStream) : List Token := s.symbols.toList.map (·.token)

end SymbolStream

end Descent
