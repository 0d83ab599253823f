import Descent.Compiled.Basic

/-! # Compiling a grammar

`Grammar.compile` refuses a grammar with recorded misuse, with a reachable rule that is ill formed,
or with left recursion, and otherwise builds the dispatch tables of the reachable rules.
-/

namespace Descent

namespace Facts

/-- The alternative `l` is worth trying when a symbol of `id` is ahead. -/
def canStart (f : Facts) (id : TerminalId) (l : Leaf) : Bool :=
  f.leafNullable l || (f.leafFirst l).has id

/-- The numbers of the alternatives that satisfy `p`. -/
def numbers (leaves : List Leaf) (p : Leaf → Bool) : List UInt16 :=
  (leaves.zipIdx.filter fun l => p l.1).map fun l => .ofNat l.2

def compileStep (f : Facts) (step : Step) (optional : Bool) : CompiledStep :=
  let leaves := step.leaves
  let first := (f.leavesFirst leaves).toList
  { optional
    first
    branches := leaves.toArray
    dispatch := first.map fun id => (id, numbers leaves (f.canStart id))
    fallback := numbers leaves f.leafNullable }

def compileBody (f : Facts) : Body → CompiledBody
  | .undefined => .sequence []
  | .sequence slots => .sequence (slots.map fun slot => f.compileStep slot.step slot.optional)
  | .separated item separator allowEmpty =>
    .separated (f.compileStep item false) (f.compileStep separator false) allowEmpty
  | .cyclic alternatives => .cyclic (f.compileStep (.choice alternatives) false)

end Facts

namespace Grammar

variable {α : Type}

def compileRule (f : Facts) (id : RuleId) (r : Rule α) : CompiledRule where
  name := r.name
  nullable := f.nullable[id.index]?.getD false
  first := (f.first[id.index]?.getD ∅).toList
  body := f.compileBody r.body
  hasAction := r.action.isSome

/-- The terminals that the rules in `order` refer to. -/
def referenced (g : Grammar α) (order : List RuleId) : TerminalSet :=
  .ofList (order.flatMap fun id => ((g.rule? id).map (·.body.terminals)).getD [])

/-- Sorts the terminals by how they are matched. Ignored ones count whether they are referred to or
not, the others only if they are. -/
def terminalOrder (g : Grammar α) (referenced : TerminalSet) : TerminalOrder :=
  let table := g.terminals
  let used := table.ids.filter fun id => !table.isIgnored id && referenced.has id
  let length := fun id => (table.literalLength id).getD 0
  { ignored := table.ids.filter table.isIgnored
    literal := (used.filter table.isLiteral).mergeSort fun a b => length b ≤ length a
    scanning := used.filter fun id => !table.isLiteral id }

/-- The compiled form of the rules in `order`, which begins with `root`. -/
def build (g : Grammar α) (root : RuleId) (order : List RuleId) (f : Facts) : CompiledGrammar where
  root
  order
  rules := g.rules.mapIdx fun i r => if order.contains ⟨i⟩ then some (compileRule f ⟨i⟩ r) else none
  terminals := g.terminalOrder (g.referenced order)
  accepted := f.accepts
  names := (g.terminals.ids.map g.terminals.displayName).toArray

def compile (g : Grammar α) (root : RuleId) : Except GrammarError CompiledGrammar :=
  match g.errors with
  | e :: _ => .error e
  | [] => do
    let order ← g.reachable root
    let facts := Facts.of g order
    match g.leftRecursion? order facts with
    | some cycle => .error (.leftRecursion cycle)
    | none => .ok (g.build root order facts)

end Grammar

end Descent
