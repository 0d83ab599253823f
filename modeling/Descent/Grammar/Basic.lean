import Descent.Grammar.Error
import Descent.Grammar.Value
import Descent.Terminal.Table

/-! # Grammars

A grammar holds terminals and rules. Rules are declared by name, so that they may refer to each
other and to themselves, and get their bodies afterwards, clause by clause. No building function
fails: misuse leaves the grammar as it was, apart from an entry at the end of its list of errors.
-/

namespace Descent

/-- An element of a rule body. -/
inductive Step where
  | terminal (id : TerminalId)
  | rule (id : RuleId)
  /-- Ordered choice: the first alternative that matches wins. -/
  | choice (alternatives : List Step)
deriving Repr

/-- A step that is no choice. -/
inductive Leaf where
  | terminal (id : TerminalId)
  | rule (id : RuleId)
deriving Repr, DecidableEq

namespace Step

mutual

/-- The alternatives of a step, nested choices flattened. -/
def leaves : Step → List Leaf
  | terminal id => [.terminal id]
  | rule id => [.rule id]
  | choice alternatives => leavesOfAll alternatives

def leavesOfAll : List Step → List Leaf
  | [] => []
  | s :: ss => s.leaves ++ leavesOfAll ss

end

def isChoice : Step → Bool
  | choice _ => true
  | _ => false

/-- The rules a step refers to, in order of reference. -/
def rules (s : Step) : List RuleId :=
  s.leaves.filterMap fun
    | .rule id => some id
    | .terminal _ => none

/-- The terminals a step refers to, in order of reference. -/
def terminals (s : Step) : List TerminalId :=
  s.leaves.filterMap fun
    | .terminal id => some id
    | .rule _ => none

end Step

/-- A step of a sequence. -/
structure Slot where
  step : Step
  optional : Bool
deriving Repr

inductive Body where
  | undefined
  | sequence (slots : List Slot)
  /-- Items with separators between them: one or more, or any number if `allowEmpty`. -/
  | separated (item separator : Step) (allowEmpty : Bool)
  /-- The choice between the alternatives, repeated until none matches. -/
  | cyclic (alternatives : List Step)
deriving Repr

namespace Body

def kind : Body → BodyKind
  | undefined => .undefined
  | sequence _ => .sequence
  | separated .. => .separated
  | cyclic _ => .cyclic

/-- The steps of a body in the order they are written. -/
def steps : Body → List Step
  | undefined => []
  | sequence slots => slots.map (·.step)
  | separated item separator _ => [item, separator]
  | cyclic alternatives => alternatives

/-- The rules a body refers to, in order of reference. -/
def rules (b : Body) : List RuleId := b.steps.flatMap (·.rules)

/-- The terminals a body refers to, in order of reference. -/
def terminals (b : Body) : List TerminalId := b.steps.flatMap (·.terminals)

end Body

structure Rule (α : Type) where
  name : String
  body : Body := .undefined
  /-- Builds from the children of a match. -/
  action : Option (Children α → α) := none

/-- Terminals and rules that build values of type `α`. -/
structure Grammar (α : Type) where
  terminals : TerminalTable := {}
  /-- For each terminal, what builds from its tokens. -/
  transforms : Array (Option (Token → α)) := #[]
  rules : Array (Rule α) := #[]
  /-- Misuse recorded so far, earliest first. -/
  errors : List GrammarError := []

/-- A part of a rule's definition. -/
inductive Clause (α : Type) where
  /-- Appends a step to a sequence. -/
  | step (s : Step)
  /-- Appends a step that may be absent. -/
  | optional (s : Step)
  | separated (item separator : Step) (allowEmpty : Bool)
  /-- Appends alternatives to a repeated choice. -/
  | cyclic (alternatives : List Step)
  | action (build : Children α → α)

namespace Rule

variable {α : Type}

/-- A rule with one more clause, or the reason why it cannot have it. -/
def extend (r : Rule α) : Clause α → Except GrammarError (Rule α)
  | .step s => addSlot ⟨s, false⟩
  | .optional s => addSlot ⟨s, true⟩
  | .separated item separator allowEmpty =>
    match r.body with
    | .undefined => .ok { r with body := .separated item separator allowEmpty }
    | body => .error (.mixedKinds r.name body.kind .separated)
  | .cyclic alternatives =>
    match r.body with
    | .undefined => .ok { r with body := .cyclic alternatives }
    | .cyclic existing => .ok { r with body := .cyclic (existing ++ alternatives) }
    | body => .error (.mixedKinds r.name body.kind .cyclic)
  | .action build =>
    match r.action with
    | none => .ok { r with action := some build }
    | some _ => .error (.duplicateAction r.name)
where
  addSlot (slot : Slot) : Except GrammarError (Rule α) :=
    match r.body with
    | .undefined => .ok { r with body := .sequence [slot] }
    | .sequence slots => .ok { r with body := .sequence (slots ++ [slot]) }
    | body => .error (.mixedKinds r.name body.kind .sequence)

end Rule

namespace Grammar

variable {α : Type}

def ruleCount (g : Grammar α) : Nat := g.rules.size

def rule? (g : Grammar α) (id : RuleId) : Option (Rule α) := g.rules[id.index]?

def ruleName? (g : Grammar α) (id : RuleId) : Option String := (g.rule? id).map (·.name)

def terminalName (g : Grammar α) (id : TerminalId) : String := g.terminals.displayName id

def transform? (g : Grammar α) (id : TerminalId) : Option (Token → α) :=
  g.transforms[id.index]?.join

def action? (g : Grammar α) (id : RuleId) : Option (Children α → α) :=
  (g.rule? id).bind (·.action)

/-! ## Building -/

def record (g : Grammar α) (e : GrammarError) : Grammar α := { g with errors := g.errors ++ [e] }

/-- What is wrong with registering a terminal now. -/
def terminalErrors (g : Grammar α) (t : Terminal) : List GrammarError :=
  let id := g.terminals.nextId
  (if t.isEmptyLiteral then [.emptyLiteral id] else []) ++
    ((g.terminals.unknownMember? t).map (GrammarError.unknownTerminal (.member id))).toList

/-- Registers a terminal and answers its identity. -/
def addTerminal (g : Grammar α) (t : Terminal) : TerminalId × Grammar α :=
  (g.terminals.nextId,
    { g with
      terminals := g.terminals.push t
      transforms := g.transforms.push none
      errors := g.errors ++ g.terminalErrors t })

/-- From now on, symbols of the terminal become what `build` makes of their tokens. -/
def setTransform (g : Grammar α) (id : TerminalId) (build : Token → α) : Grammar α :=
  if id.index < g.transforms.size then
    { g with transforms := g.transforms.setIfInBounds id.index (some build) }
  else g.record (.unknownTerminal .transform id)

/-- Declares a rule and answers its identity. -/
def addRule (g : Grammar α) (name : String) : RuleId × Grammar α :=
  (⟨g.rules.size⟩, { g with rules := g.rules.push { name } })

/-- Adds one clause to a rule; nothing happens if there is no such rule. -/
def addClause (g : Grammar α) (id : RuleId) (clause : Clause α) : Grammar α :=
  match g.rule? id with
  | none => g
  | some r =>
    match r.extend clause with
    | .ok r => { g with rules := g.rules.setIfInBounds id.index r }
    | .error e => g.record e

/-- Adds clauses to a rule, in order. -/
def define (g : Grammar α) (id : RuleId) (clauses : List (Clause α)) : Grammar α :=
  let g := if id.index < g.rules.size then g else g.record (.unknownRule .definition id)
  clauses.foldl (fun g c => g.addClause id c) g

/-- The grammar on one line. -/
def describe (g : Grammar α) : String :=
  let names := ", ".intercalate (g.rules.toList.map fun r => Text.quoted r.name)
  let errors := ", ".intercalate (g.errors.map (·.describe))
  s!"Grammar \x7b terminals: {g.terminals.size}, rules: [{names}], errors: [{errors}] \x7d"

end Grammar

end Descent
