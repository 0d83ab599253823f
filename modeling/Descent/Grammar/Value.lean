import Descent.Terminal.Basic

/-! # Values

What a match means: tokens for symbols, whatever actions and transforms have built, and lists for
matches that nothing builds from. A rule's action receives its children by position.
-/

namespace Descent

open Descent.Text

/-- A matched terminal with its text. -/
structure Token where
  terminal : TerminalId
  /-- First byte of the token in the source. -/
  start : Nat
  text : String
  /-- The definition of the terminal implies the text. -/
  literal : Bool
deriving Repr, DecidableEq

namespace Token

/-- First byte past the token. -/
def stop (t : Token) : Nat := t.start + byteLength t.text.toList

/-- The text, unless the terminal implies it. -/
def captured (t : Token) : Option String := if t.literal then none else some t.text

end Token

inductive Value (α : Type) where
  /-- An optional step that did not match. -/
  | absent
  /-- A terminal without a transform. -/
  | token (t : Token)
  /-- What an action or a transform has built. -/
  | node (a : α)
  /-- The children of a match without an action. -/
  | list (items : List (Value α))
deriving Repr

namespace Value

variable {α : Type}

def token? : Value α → Option Token
  | token t => some t
  | _ => none

def node? : Value α → Option α
  | node a => some a
  | _ => none

def list? : Value α → Option (List (Value α))
  | list items => some items
  | _ => none

end Value

/-- The values of a rule's match: one for each step of a sequence, one for each item of a
repetition. -/
abbrev Children (α : Type) := List (Value α)

namespace Children

variable {α : Type}

/-- The child at a position, and the children with nothing left there. -/
def take (cs : Children α) (i : Nat) : Value α × Children α :=
  (cs[i]?.getD .absent, cs.set i .absent)

/-- What was built for the child at a position. -/
def nodeAt? (cs : Children α) (i : Nat) : Option α := cs[i]?.bind (·.node?)

/-- The token at a position. -/
def tokenAt? (cs : Children α) (i : Nat) : Option Token := cs[i]?.bind (·.token?)

end Children

end Descent
