import Descent.Grammar.LeftRecursion

/-! # Compiled grammars

A compiled grammar is what evaluation runs on: for every reachable rule its steps with their
alternatives flattened, and for every step a table from the symbol ahead to the alternatives worth
trying. Alternatives are numbered in sixteen bits.
-/

namespace Descent

/-- A step ready to be tried. -/
structure CompiledStep where
  /-- The step may be absent. -/
  optional : Bool
  /-- The terminals a match can begin with, in order of identity. -/
  first : List TerminalId
  /-- The alternatives in order of preference. -/
  branches : Array Leaf
  /-- For each terminal of `first`, the alternatives that it can begin or that can match nothing. -/
  dispatch : List (TerminalId × List UInt16)
  /-- The alternatives that can match nothing: worth trying whatever is ahead. -/
  fallback : List UInt16
deriving Repr, DecidableEq

/-- The numbers of the alternatives to try for the symbol ahead, in order. -/
def CompiledStep.candidates (s : CompiledStep) (ahead : Option TerminalId) : List UInt16 :=
  match ahead.bind fun id => s.dispatch.find? (·.1 = id) with
  | some entry => entry.2
  | none => s.fallback

inductive CompiledBody where
  | sequence (steps : List CompiledStep)
  | separated (item separator : CompiledStep) (allowEmpty : Bool)
  | cyclic (step : CompiledStep)
deriving Repr, DecidableEq

structure CompiledRule where
  name : String
  nullable : Bool
  /-- The terminals a match can begin with, in order of identity. -/
  first : List TerminalId
  body : CompiledBody
  hasAction : Bool
deriving Repr, DecidableEq

/-- The terminals that text is cut into symbols with, in the order they are tried. -/
structure TerminalOrder where
  /-- Every ignored terminal, in order of registration. -/
  ignored : List TerminalId
  /-- The literal terminals that rules refer to, longest first. -/
  literal : List TerminalId
  /-- The other terminals that rules refer to, in order of registration. -/
  scanning : List TerminalId
deriving Repr, DecidableEq

/-- The terminals that make symbols. -/
def TerminalOrder.scanned (o : TerminalOrder) : List TerminalId := o.literal ++ o.scanning

structure CompiledGrammar where
  root : RuleId
  /-- The reachable rules, the root first. -/
  order : List RuleId
  /-- For each rule its compiled form, if it is reachable. -/
  rules : Array (Option CompiledRule)
  terminals : TerminalOrder
  /-- For each terminal, the identities that a reference to it accepts. -/
  accepted : Array TerminalSet
  names : Array String
deriving Repr, DecidableEq

namespace CompiledGrammar

def rule? (g : CompiledGrammar) (id : RuleId) : Option CompiledRule := g.rules[id.index]?.join

def ruleName? (g : CompiledGrammar) (id : RuleId) : Option String := (g.rule? id).map (·.name)

/-- The name of a rule where one has to be shown. -/
def ruleLabel (g : CompiledGrammar) (id : RuleId) : String := (g.ruleName? id).getD "?"

def isNullable? (g : CompiledGrammar) (id : RuleId) : Option Bool := (g.rule? id).map (·.nullable)

def first? (g : CompiledGrammar) (id : RuleId) : Option (List TerminalId) :=
  (g.rule? id).map (·.first)

def terminalName (g : CompiledGrammar) (id : TerminalId) : String := g.names[id.index]?.getD "?"

/-- The text can hold symbols of the terminal. -/
def isScanned (g : CompiledGrammar) (id : TerminalId) : Bool := g.terminals.scanned.contains id

/-- A reference to `expected` accepts a symbol of `found`. -/
def accepts (g : CompiledGrammar) (expected found : TerminalId) : Bool :=
  expected = found || g.accepted[expected.index]?.any (·.has found)

end CompiledGrammar

end Descent
