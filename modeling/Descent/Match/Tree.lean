import Descent.Grammar.Error
import Descent.Symbol.Basic

/-! # Match trees and evaluation events

Evaluation builds a tree of symbol positions and rules and leaves behind a record of what it tried.
Neither holds values: they are built once a match is settled.
-/

namespace Descent

inductive MatchTree where
  /-- An optional step that did not match. -/
  | absent
  /-- The symbol at a position. -/
  | symbol (position : Nat)
  | rule (id : RuleId) (children : List MatchTree)
deriving Repr

/-- One thing that happened during evaluation. Positions count symbols. -/
inductive Event where
  | enter (rule : RuleId) (position : Nat)
  /-- A rule was left, at the position where it left the cursor. -/
  | exit (rule : RuleId) (matched : Bool) (position : Nat)
  /-- A reference to `terminal` took the symbol. -/
  | took (terminal : TerminalId) (symbol : Symbol)
  /-- A reference to `terminal` did not accept what it found. -/
  | missed (terminal : TerminalId) (found : Option Symbol)
  /-- A rule was entered too often at one position. -/
  | refused (rule : RuleId) (position : Nat)
  /-- A rule gave up what it had read. -/
  | backtrack (rule : RuleId) (source target : Nat)
deriving Repr, DecidableEq

/-- The furthest position at which a step that had to match did not, and the terminals it would
have accepted there, in order of first mention. -/
structure Furthest where
  position : Nat
  expected : List TerminalId
deriving Repr, DecidableEq

/-- What is furthest after one more failure. -/
def Furthest.update (f : Option Furthest) (position : Nat) (expected : List TerminalId) :
    Option Furthest :=
  match f with
  | none => some ⟨position, expected⟩
  | some f =>
    if f.position > position then some f
    else if f.position = position then some ⟨position, TerminalId.merge f.expected expected⟩
    else some ⟨position, expected⟩

end Descent
