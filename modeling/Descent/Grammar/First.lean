import Descent.Grammar.Reach
import Descent.Terminal.Set

/-! # Nullable rules and first sets

A rule is nullable if it can match without reading a symbol; its first set holds the terminals its
matches can begin with. Both are the least solution of one equation per rule, found by going over
the rules until nothing is added.
-/

namespace Descent

/-- What is known so far: for each rule whether it is nullable and its first set, and for each
terminal the identities that a reference to it accepts. -/
structure Facts where
  nullable : Array Bool
  first : Array TerminalSet
  accepts : Array TerminalSet
deriving Repr, DecidableEq

namespace Facts

/-! ## What follows for steps and bodies -/

def leafNullable (f : Facts) : Leaf → Bool
  | .terminal _ => false
  | .rule id => f.nullable[id.index]?.getD false

def leafFirst (f : Facts) : Leaf → TerminalSet
  | .terminal id => f.accepts[id.index]?.getD (.single id)
  | .rule id => f.first[id.index]?.getD ∅

def stepNullable (f : Facts) (s : Step) : Bool := s.leaves.any f.leafNullable

/-- The union of the first sets of some steps' alternatives. -/
def leavesFirst (f : Facts) (leaves : List Leaf) : TerminalSet :=
  leaves.foldl (fun s l => s ∪ f.leafFirst l) ∅

def stepFirst (f : Facts) (s : Step) : TerminalSet := f.leavesFirst s.leaves

/-- A slot that a match can pass without reading. -/
def slotNullable (f : Facts) (slot : Slot) : Bool := slot.optional || f.stepNullable slot.step

/-- The slots a sequence can begin to read in: those up to the first that must read. -/
def leading (f : Facts) : List Slot → List Slot
  | [] => []
  | slot :: slots => if f.slotNullable slot then slot :: f.leading slots else [slot]

/-- The steps a body can begin to read in. -/
def leadingSteps (f : Facts) : Body → List Step
  | .undefined => []
  | .sequence slots => (f.leading slots).map (·.step)
  | .separated item separator _ => if f.stepNullable item then [item, separator] else [item]
  | .cyclic alternatives => alternatives

def bodyNullable (f : Facts) : Body → Bool
  | .undefined => false
  | .sequence slots => slots.all f.slotNullable
  | .separated item _ allowEmpty => allowEmpty || f.stepNullable item
  | .cyclic _ => true

def bodyFirst (f : Facts) (b : Body) : TerminalSet :=
  (f.leadingSteps b).foldl (fun s step => s ∪ f.stepFirst step) ∅

/-! ## The least solution -/

/-- Adds what follows for one rule from its body. -/
def add (f : Facts) (id : RuleId) (b : Body) : Facts :=
  let f := { f with nullable := f.nullable.modify id.index (· || f.bodyNullable b) }
  { f with first := f.first.modify id.index (· ∪ f.bodyFirst b) }

variable {α : Type}

/-- Adds what follows for each of the rules in turn. -/
def round (g : Grammar α) (order : List RuleId) (f : Facts) : Facts :=
  order.foldl (fun f id => match g.rule? id with
    | none => f
    | some r => f.add id r.body) f

/-- Repeats rounds until one adds nothing. -/
def settle (g : Grammar α) (order : List RuleId) : Nat → Facts → Facts
  | 0, f => f
  | fuel + 1, f =>
    let next := round g order f
    if next = f then f else settle g order fuel next

/-- Nothing is known of the rules yet. -/
def initial (g : Grammar α) : Facts where
  nullable := Array.replicate g.ruleCount false
  first := Array.replicate g.ruleCount ∅
  accepts := (g.terminals.ids.map fun id => .ofList (g.terminals.accepted id)).toArray

/-- The facts of the rules in `order`. A round that is not the last adds a nullable rule or a member
of a first set, so there are no more rounds than such facts, and one. -/
def of (g : Grammar α) (order : List RuleId) : Facts :=
  settle g order (g.ruleCount * (g.terminals.size + 1) + 1) (initial g)

end Facts

end Descent
