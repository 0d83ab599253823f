import Descent.Compiled.Basic
import Descent.Match.Cursor
import Descent.Match.Tree

/-! # Evaluating rules

`Eval.rule` tries to match a rule where the cursor stands. A match moves the cursor past it, a
failure leaves it where it was. Alternatives are tried in order and the first that matches is kept;
a sequence that fails gives back all it has read, a repetition keeps what it has.

Two caps can stop an evaluation with a `Fault`: one on the number of rule and terminal attempts, one
on the depth of nested rules. A guard refuses to enter a rule again and again at one position, which
bounds the nesting in any case.
-/

namespace Descent

/-- What stops an evaluation without an answer. -/
inductive Fault where
  | fuelExhausted
  | recursionLimitExceeded
  /-- The cursor refused to move back. -/
  | cursor (e : CursorError)
  /-- Rules were nested deeper than the guard lets them be. -/
  | unguarded
deriving Repr, DecidableEq

/-- Optional caps on evaluation. -/
structure Limits where
  /-- The most rule and terminal attempts of one parse. -/
  fuel : Option Nat := none
  /-- The deepest nesting of rules. -/
  depth : Option Nat := none
deriving Repr, DecidableEq

/-- Where a rule was entered last, if it is open, and how many times again at that position. -/
structure GuardEntry where
  position : Option Nat := none
  reentries : Nat := 0
deriving Repr, DecidableEq

/-- How often an open rule may be entered again at the position where it was entered last. -/
def maxReentries : Nat := 2

structure EvalState where
  cursor : Cursor
  /-- For each rule its guard entry. -/
  guard : Array GuardEntry
  /-- Rules that are open. -/
  depth : Nat := 0
  /-- Attempts left, if they are capped. -/
  fuel : Option Nat
  furthest : Option Furthest := none
  /-- What has happened, latest first. -/
  events : List Event := []
deriving Repr, DecidableEq

abbrev Eval := EStateM Fault EvalState

namespace Eval

def emit (e : Event) : Eval Unit := modify fun s => { s with events := e :: s.events }

def position : Eval Nat := do return (← get).cursor.position

/-- Pays for one attempt. -/
def burn : Eval Unit := do
  let s ← get
  match s.fuel with
  | none => pure ()
  | some 0 => throw .fuelExhausted
  | some (n + 1) => set { s with fuel := some n }

/-- Records that a step failed which had to match. -/
def expect (step : CompiledStep) (position : Nat) : Eval Unit :=
  modify fun s => { s with furthest := Furthest.update s.furthest position step.first }

/-- Moves the cursor by a function that may refuse. -/
def moveBack (move : Cursor → Except CursorError Cursor) : Eval Unit := do
  let s ← get
  match move s.cursor with
  | .ok cursor => set { s with cursor }
  | .error e => throw (.cursor e)

/-- Tries a reference to a terminal. -/
def terminal (g : CompiledGrammar) (id : TerminalId) : Eval (Option MatchTree) := do
  burn
  let s ← get
  match s.cursor.peek? with
  | some symbol =>
    if g.accepts id symbol.terminal then
      set { s with cursor := s.cursor.advance.2 }
      emit (.took id symbol)
      return some (.symbol s.cursor.position)
    else
      emit (.missed id (some symbol))
      return none
  | none =>
    emit (.missed id none)
    return none

section Bodies

variable (g : CompiledGrammar) (enter : RuleId → Eval (Option MatchTree))

def leaf : Leaf → Eval (Option MatchTree)
  | .terminal id => terminal g id
  | .rule id => enter id

/-- Tries the alternatives with the given numbers and keeps the first that matches. -/
def choose (branches : Array Leaf) : List UInt16 → Eval (Option MatchTree)
  | [] => return none
  | n :: ns => do
    match branches[n.toNat]? with
    | none => choose branches ns
    | some l =>
      match ← leaf g enter l with
      | some tree => return some tree
      | none => choose branches ns

/-- Tries a step: the alternatives that the symbol ahead can begin, or that can match nothing. -/
def step (s : CompiledStep) : Eval (Option MatchTree) := do
  choose g enter s.branches (s.candidates (← get).cursor.peekId?)

/-- Matches the steps of a sequence that began at `start`; `children` holds the earlier ones, latest
first. -/
def sequence (rule : RuleId) (start : Nat) (children : List MatchTree) :
    List CompiledStep → Eval (Option (List MatchTree))
  | [] => return some children.reverse
  | s :: steps => do
    match ← step g enter s with
    | some tree => sequence rule start (tree :: children) steps
    | none =>
      if s.optional then sequence rule start (.absent :: children) steps
      else
        let failed ← position
        expect s failed
        if failed > start then emit (.backtrack rule failed start)
        moveBack (·.rollbackTo start)
        return none

/-- Matches a separator and an item over and over; `items` holds those matched, latest first. An
iteration that reads nothing ends the list, and a separator without an item is given back. The fuel
is more than the number of symbols left. -/
def separatedMore (rule : RuleId) (item separator : CompiledStep) :
    Nat → List MatchTree → Eval (List MatchTree)
  | 0, items => return items.reverse
  | fuel + 1, items => do
    let before ← position
    match ← step g enter separator with
    | none => return items.reverse
    | some _ =>
      let between ← position
      match ← step g enter item with
      | some tree =>
        if (← position) > before then separatedMore rule item separator fuel (tree :: items)
        else return items.reverse
      | none =>
        expect item between
        if between > before then emit (.backtrack rule between before)
        moveBack (·.rollback (between - before))
        return items.reverse

/-- Matches items with separators between them. -/
def separated (rule : RuleId) (item separator : CompiledStep) (allowEmpty : Bool) :
    Eval (Option (List MatchTree)) := do
  let start ← position
  match ← step g enter item with
  | none =>
    if allowEmpty then return some []
    expect item start
    return none
  | some tree =>
    let fuel := (← get).cursor.symbols.size + 1
    return some (← separatedMore g enter rule item separator fuel [tree])

/-- Matches a step over and over, until it fails or reads nothing; `items` holds what it matched,
latest first. The fuel is more than the number of symbols left. -/
def cyclic (s : CompiledStep) : Nat → List MatchTree → Eval (List MatchTree)
  | 0, items => return items.reverse
  | fuel + 1, items => do
    let before ← position
    match ← step g enter s with
    | none => return items.reverse
    | some tree =>
      if (← position) > before then cyclic s fuel (tree :: items) else return items.reverse

/-- Matches the body of a rule. -/
def body (rule : RuleId) : CompiledBody → Eval (Option (List MatchTree))
  | .sequence steps => do sequence g enter rule (← position) [] steps
  | .separated item separator allowEmpty => separated g enter rule item separator allowEmpty
  | .cyclic s => do return some (← cyclic g enter s ((← get).cursor.symbols.size + 1) [])

end Bodies

/-- Runs an evaluation with the rule marked as open, and takes the mark back whatever comes of
it. -/
def opened {α : Type} (id : RuleId) (entry : GuardEntry) (run : Eval α) : Eval α := fun s =>
  let saved := s.guard[id.index]?.getD {}
  let close := fun t : EvalState =>
    { t with guard := t.guard.setIfInBounds id.index saved, depth := t.depth - 1 }
  match run { s with guard := s.guard.setIfInBounds id.index entry, depth := s.depth + 1 } with
  | .ok a t => .ok a (close t)
  | .error e t => .error e (close t)

/-- Tries a rule through at most as many open rules as the first argument says. -/
def rule (g : CompiledGrammar) (limits : Limits) : Nat → RuleId → Eval (Option MatchTree)
  | 0, _ => throw .unguarded
  | nesting + 1, id => do
    burn
    match g.rule? id with
    | none => return none
    | some r =>
      let s ← get
      let start := s.cursor.position
      let saved := s.guard[id.index]?.getD {}
      let reentries := if saved.position = some start then saved.reentries + 1 else 0
      if reentries > maxReentries then
        emit (.refused id start)
        return none
      if limits.depth.any (· ≤ s.depth) then throw .recursionLimitExceeded
      let children ← opened id ⟨some start, reentries⟩ do
        emit (.enter id start)
        body g (rule g limits nesting) id r.body
      emit (.exit id children.isSome (← position))
      return children.map (.rule id)

end Eval

namespace EvalState

/-- Nothing has been tried yet. -/
def initial (g : CompiledGrammar) (limits : Limits) (symbols : Array Symbol) : EvalState where
  cursor := { symbols }
  guard := Array.replicate g.rules.size {}
  fuel := limits.fuel

/-- More rules than the guard lets be open at once: each at each position as often as it may be
entered there. -/
def nesting (s : EvalState) : Nat :=
  (maxReentries + 1) * s.guard.size * (s.cursor.symbols.size + 1) + 1

end EvalState

/-- Tries to match a rule where the cursor stands. -/
def CompiledGrammar.evaluate (g : CompiledGrammar) (limits : Limits) (id : RuleId) :
    Eval (Option MatchTree) := do
  Eval.rule g limits (← get).nesting id

end Descent
