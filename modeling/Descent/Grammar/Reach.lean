import Descent.Grammar.Basic

/-! # The rules that matter

Starting from a root, the rules that are referred to, directly or through others, are visited depth
first, each body's references in order. Every visited rule is checked before its references are
followed, so of several errors the one met first on this walk is reported.
-/

namespace Descent

mutual

/-- The first thing wrong with a step of the rule `name`. -/
def Step.fault? (terminals : TerminalTable) (name : String) : Step → Option GrammarError
  | .terminal id =>
    if terminals.contains id then none else some (.unknownTerminal (.rule name) id)
  | .rule _ => none
  | .choice [] => some (.emptyChoice name)
  | .choice (s :: ss) => (s.fault? terminals name).or (Step.faultOfAll? terminals name ss)

def Step.faultOfAll? (terminals : TerminalTable) (name : String) : List Step → Option GrammarError
  | [] => none
  | s :: ss => (s.fault? terminals name).or (Step.faultOfAll? terminals name ss)

end

namespace Rule

variable {α : Type}

/-- The first thing wrong with the shape of a body. -/
def shapeFault? (r : Rule α) : Option GrammarError :=
  match r.body with
  | .undefined => some (.emptyRule r.name)
  | .sequence slots =>
    let choices := slots.countP (·.step.isChoice)
    if choices > 1 && r.action.isNone then some (.missingAction r.name choices) else none
  | .separated .. => none
  | .cyclic alternatives => if alternatives.isEmpty then some (.emptyChoice r.name) else none

/-- The first thing wrong with a rule, the rules it refers to aside. -/
def fault? (terminals : TerminalTable) (r : Rule α) : Option GrammarError :=
  r.shapeFault?.or (Step.faultOfAll? terminals r.name r.body.steps)

end Rule

/-- A walk over the rules: those seen so far, the seen ones still to be visited, and the visited
ones, latest first. -/
structure Walk where
  seen : Array Bool
  waiting : List RuleId
  visited : List RuleId
deriving Repr, DecidableEq

namespace Walk

/-- Puts an unseen rule in front of the waiting ones. `rule` is the name of the rule that refers to
it. -/
def meet (rule : String) (w : Walk) (id : RuleId) : Except GrammarError Walk :=
  match w.seen[id.index]? with
  | none => .error (.unknownRule (.rule rule) id)
  | some true => .ok w
  | some false =>
    .ok { w with seen := w.seen.setIfInBounds id.index true, waiting := id :: w.waiting }

end Walk

namespace Grammar

variable {α : Type}

/-- Visits the rule in front of the waiting ones. Its references are met last to first, so that the
first of them is visited next. -/
def visit (g : Grammar α) (w : Walk) (id : RuleId) (waiting : List RuleId) :
    Except GrammarError Walk :=
  let w := { w with waiting }
  match g.rule? id with
  | none => .ok w
  | some r =>
    match r.fault? g.terminals with
    | some e => .error e
    | none => r.body.rules.reverse.foldlM (Walk.meet r.name) { w with visited := id :: w.visited }

/-- Goes on until no rule is waiting. A rule waits at most once, so the number of rules is fuel
enough. -/
def walk (g : Grammar α) : Nat → Walk → Except GrammarError Walk
  | 0, w => .ok w
  | fuel + 1, w =>
    match w.waiting with
    | [] => .ok w
    | id :: waiting => do
      let w ← g.visit w id waiting
      g.walk fuel w

/-- The rules reachable from `root`, in the order of the walk, the root first. -/
def reachable (g : Grammar α) (root : RuleId) : Except GrammarError (List RuleId) :=
  if root.index < g.ruleCount then do
    let unseen := Array.replicate g.ruleCount false
    let w ← g.walk g.ruleCount ⟨unseen.setIfInBounds root.index true, [root], []⟩
    .ok w.visited.reverse
  else .error (.unknownRule .root root)

end Grammar

end Descent
