import Descent.Symbol.Basic

/-! # Cursors

A cursor is a place among the symbols that evaluation moves forward and back, and a mark behind
which it must not go. A move back that would cross the mark is refused and changes nothing.
-/

namespace Descent

structure Cursor where
  symbols : Array Symbol
  /-- The mark: what lies before it is settled. -/
  committed : Nat := 0
  position : Nat := 0
deriving Repr, DecidableEq

/-- A refused move back. -/
inductive CursorError where
  | rollback (count position committed : Nat)
  | rollbackTo (target position committed : Nat)
deriving Repr, DecidableEq

def CursorError.message : CursorError → String
  | rollback count position committed =>
    s!"rollback: cannot move back {count} from {position} past committed position {committed}"
  | rollbackTo target position committed =>
    s!"rollback_to: target {target} outside committed..=position ({committed}..={position})"

namespace Cursor

/-- The symbol at the position, if the end is not reached. -/
def peek? (c : Cursor) : Option Symbol := c.symbols[c.position]?

def peekId? (c : Cursor) : Option TerminalId := c.peek?.map (·.terminal)

def isAtEnd (c : Cursor) : Bool := c.symbols.size ≤ c.position

/-- The symbol at the position, and the cursor behind it. At the end the cursor stays. -/
def advance (c : Cursor) : Option Symbol × Cursor :=
  match c.peek? with
  | none => (none, c)
  | some s => (some s, { c with position := c.position + 1 })

/-- Moves back by `n` symbols. -/
def rollback (c : Cursor) (n : Nat) : Except CursorError Cursor :=
  if n ≤ c.position - c.committed then .ok { c with position := c.position - n }
  else .error (.rollback n c.position c.committed)

/-- Moves back to a position. -/
def rollbackTo (c : Cursor) (target : Nat) : Except CursorError Cursor :=
  if c.committed ≤ target ∧ target ≤ c.position then .ok { c with position := target }
  else .error (.rollbackTo target c.position c.committed)

/-- Moves the mark up to the position. -/
def commit (c : Cursor) : Cursor := { c with committed := c.position }

end Cursor

end Descent
