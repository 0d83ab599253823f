import Descent.Terminal.Basic

/-! # The table of terminals

Terminals are registered one after the other and never change. A set may only name terminals that
stand before it, so everything that follows members to their own members goes down in number and
ends; the depth argument of the functions below counts that descent.
-/

namespace Descent

open Descent.Text

/-- A registered terminal with the length of its text, if it is literal. -/
structure TableEntry where
  terminal : Terminal
  literalLength : Option Nat

structure TerminalTable where
  entries : Array TableEntry := #[]

/-- A successful match: the text of the symbol, what is skipped after it, and what remains. -/
structure TerminalMatch where
  text : List Char
  skipped : List Char
  rest : List Char
deriving Repr, DecidableEq

namespace TerminalTable

def size (t : TerminalTable) : Nat := t.entries.size

def get? (t : TerminalTable) (id : TerminalId) : Option Terminal :=
  t.entries[id.index]?.map (·.terminal)

def contains (t : TerminalTable) (id : TerminalId) : Bool := id.index < t.size

def ids (t : TerminalTable) : List TerminalId := (List.range t.size).map TerminalId.mk

/-- Length of the shortest text of a literal terminal; `none` for the others. -/
def literalLength (t : TerminalTable) (id : TerminalId) : Option Nat :=
  t.entries[id.index]?.bind (·.literalLength)

def isLiteral (t : TerminalTable) (id : TerminalId) : Bool := (t.literalLength id).isSome

def isIgnored (t : TerminalTable) (id : TerminalId) : Bool := (t.get? id).any (·.ignored)

/-! ## Registration -/

/-- The least of the members' lengths, if there are members and all are literal. -/
def leastLength (t : TerminalTable) : List TerminalId → Option Nat
  | [] => none
  | [id] => t.literalLength id
  | id :: ids => do
    let first ← t.literalLength id
    let others ← t.leastLength ids
    some (min first others)

def lengthOf (t : TerminalTable) : Matcher → Option Nat
  | .char c => some c.utf8Size
  | .literal text => some (byteLength text.toList)
  | .scan _ => none
  | .pattern _ => none
  | .oneOf members => t.leastLength members

/-- The identity the next registered terminal gets. -/
def nextId (t : TerminalTable) : TerminalId := ⟨t.size⟩

def push (t : TerminalTable) (terminal : Terminal) : TerminalTable :=
  ⟨t.entries.push ⟨terminal, t.lengthOf terminal.matcher⟩⟩

/-- The first member of a set that is not registered yet. -/
def unknownMember? (t : TerminalTable) (terminal : Terminal) : Option TerminalId :=
  terminal.matcher.members.find? fun id => !t.contains id

/-! ## Sets and their members -/

/-- The members of a set that stand before it; nothing for other terminals. -/
def membersOf (t : TerminalTable) (id : TerminalId) : List TerminalId :=
  match t.get? id with
  | none => []
  | some terminal => terminal.matcher.members.filter (·.index < id.index)

/-- Goes along the list from place `i` for at most `turns` turns. What stands there brings those of
its members that are new to the end of the list, so that their turn comes too. -/
def collect (t : TerminalTable) : (turns i : Nat) → List TerminalId → List TerminalId
  | 0, _, found => found
  | turns + 1, i, found =>
    match found[i]? with
    | none => found
    | some s => t.collect turns (i + 1) (TerminalId.merge found (t.membersOf s))

/-- Every identity a reference to `id` accepts: its own and those of all members, of members'
members and so on, in the order in which they are met. None of them stands behind `id`, and none
is met twice, so there are enough turns. -/
def accepted (t : TerminalTable) (id : TerminalId) : List TerminalId :=
  t.collect (id.index + 1) 0 [id]

/-- Matches a terminal through at most `depth` levels of sets. -/
def matchWithin (t : TerminalTable) (spot : Spot) : Nat → TerminalId → Option TerminalMatch
  | 0, _ => none
  | depth + 1, id => do
    let terminal ← t.get? id
    let (text, rest) ← match terminal.matcher with
      | .oneOf _ =>
        (t.membersOf id).findSome? fun m =>
          (t.matchWithin spot depth m).map fun r => (r.text, r.skipped ++ r.rest)
      | matcher => matcher.take? spot
    let (skipped, rest) := terminal.skip rest
    some ⟨text, skipped, rest⟩

/-- Matches terminal `id` at the spot. A set takes the text of its first member that matches and
leaves that member's extension to itself. -/
def matchAt (t : TerminalTable) (id : TerminalId) (spot : Spot) : Option TerminalMatch :=
  t.matchWithin spot (id.index + 1) id

/-- Names a terminal through at most `depth` levels of sets. -/
def nameWithin (t : TerminalTable) : Nat → TerminalId → String
  | 0, id => id.label
  | depth + 1, id =>
    match t.get? id with
    | none => id.label
    | some terminal =>
      match terminal.name, terminal.matcher with
      | some name, _ => name
      | none, .char c => quotedChar c
      | none, .literal text => quoted text
      | none, .pattern p => "/" ++ p.source ++ "/"
      | none, .scan _ => id.label
      | none, .oneOf members =>
        " | ".intercalate <| members.map fun m =>
          if m.index < id.index then t.nameWithin depth m else m.label

/-- The name of a terminal: the one it was given, or else its definition in short. -/
def displayName (t : TerminalTable) (id : TerminalId) : String :=
  t.nameWithin (id.index + 1) id

end TerminalTable

end Descent
