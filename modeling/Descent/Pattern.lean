import Descent.Pattern.Program
import Descent.Pattern.Reader

/-! # Patterns

A pattern is a regular expression together with the text it was written as and the program that
matches it.
-/

namespace Descent

open Descent.Text

structure Pattern where
  source : String
  program : Pattern.Program
deriving Repr, DecidableEq

/-- A text that was to be a pattern and is none. -/
structure InvalidPattern where
  source : String
deriving Repr, DecidableEq

def InvalidPattern.message (e : InvalidPattern) : String :=
  s!"invalid terminal pattern `{e.source}`: error parsing pattern 0"

namespace Pattern

def ofRegex (source : String) (r : Regex) : Pattern := ⟨source, .ofRegex r⟩

/-- Reads a pattern. -/
def ofSource (source : String) : Except InvalidPattern Pattern :=
  match Regex.ofText? source with
  | some r => .ok (ofRegex source r)
  | none => .error ⟨source⟩

/-- Bytes of the preferred match that begins at the spot. What stands behind the spot is seen by
assertions only. -/
def matchLength (p : Pattern) (spot : Spot) : Option Nat :=
  p.program.matchLength spot

end Pattern

end Descent
