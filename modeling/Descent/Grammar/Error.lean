import Descent.Terminal.Basic

/-! # Errors of a grammar

Misuse of the building functions is recorded while a grammar is built; what is wrong with its
structure is found when it is compiled. Both are values of `GrammarError`.
-/

namespace Descent

open Descent.Text

/-- Identity of a declared rule: its place among the rules. -/
structure RuleId where
  index : Nat
deriving Repr, DecidableEq

/-- The identity as listings show it. -/
def RuleId.tag (id : RuleId) : String := s!"R{id.index}"

/-- The kinds of rule bodies. -/
inductive BodyKind where
  | undefined
  | sequence
  | separated
  | cyclic
deriving Repr, DecidableEq

def BodyKind.word : BodyKind → String
  | undefined => "undefined"
  | sequence => "sequence"
  | separated => "separated"
  | cyclic => "cyclic"

/-- Where a terminal is referred to. -/
inductive TerminalUse where
  | member (set : TerminalId)
  | transform
  | rule (name : String)
deriving Repr, DecidableEq

def TerminalUse.words : TerminalUse → String
  | member set => s!"terminal {set.label}"
  | transform => "transform"
  | rule name => s!"rule `{name}`"

/-- Where a rule is referred to. -/
inductive RuleUse where
  | definition
  | root
  | rule (name : String)
deriving Repr, DecidableEq

def RuleUse.words : RuleUse → String
  | definition => "<define>"
  | root => "<root>"
  | rule name => name

inductive GrammarError where
  | emptyRule (rule : String)
  /-- A choice without alternatives. -/
  | emptyChoice (rule : String)
  /-- A rule of one kind was given steps of another. -/
  | mixedKinds (rule : String) (existing attempted : BodyKind)
  /-- A sequence with several choices needs an action to tell them apart. -/
  | missingAction (rule : String) (choices : Nat)
  | duplicateAction (rule : String)
  /-- The rules can be entered one from the other, and the first again, before anything is read. -/
  | leftRecursion (cycle : List String)
  | unknownRule (use : RuleUse) (id : RuleId)
  | unknownTerminal (use : TerminalUse) (id : TerminalId)
  | emptyLiteral (id : TerminalId)
deriving Repr, DecidableEq

namespace GrammarError

def message : GrammarError → String
  | emptyRule rule => s!"rule `{rule}` has no steps"
  | emptyChoice rule => s!"rule `{rule}` contains an empty alternation"
  | mixedKinds rule existing attempted =>
    s!"rule `{rule}` is a {existing.word} rule and cannot take {attempted.word} steps"
  | missingAction rule choices =>
    s!"rule `{rule}` has {choices} alternation groups but no match action"
  | duplicateAction rule => s!"rule `{rule}` already has a match action"
  | leftRecursion cycle => "left recursion without progress: " ++ " -> ".intercalate cycle
  | unknownRule use id => s!"rule `{use.words}` references unknown rule #{id.index}"
  | unknownTerminal use id => s!"{use.words} references unknown terminal {id.label}"
  | emptyLiteral id => s!"terminal {id.label} is an empty literal"

/-- The kind of the error in a word. -/
def kind : GrammarError → String
  | emptyRule _ => "EmptyRule"
  | emptyChoice _ => "EmptyAlternation"
  | mixedKinds .. => "MixedRuleKinds"
  | missingAction .. => "MissingAction"
  | duplicateAction _ => "DuplicateAction"
  | leftRecursion _ => "LeftRecursion"
  | unknownRule .. => "UnknownRule"
  | unknownTerminal .. => "UnknownTerminal"
  | emptyLiteral _ => "EmptyLiteral"

/-- The details of the error by name. -/
def details : GrammarError → List (String × String)
  | emptyRule rule => [("rule", quoted rule)]
  | emptyChoice rule => [("rule", quoted rule)]
  | mixedKinds rule existing attempted =>
    [("rule", quoted rule), ("existing", quoted existing.word),
      ("attempted", quoted attempted.word)]
  | missingAction rule choices => [("rule", quoted rule), ("groups", s!"{choices}")]
  | duplicateAction rule => [("rule", quoted rule)]
  | leftRecursion cycle => [("cycle", "[" ++ ", ".intercalate (cycle.map quoted) ++ "]")]
  | unknownRule use id => [("rule", quoted use.words), ("id", s!"{id.index}")]
  | unknownTerminal use id => [("context", quoted use.words), ("id", s!"{id.number}")]
  | emptyLiteral id => [("id", s!"{id.number}")]

/-- The error on one line, kind and details. -/
def describe (e : GrammarError) : String :=
  s!"{e.kind} \x7b " ++ ", ".intercalate (e.details.map fun d => s!"{d.1}: {d.2}") ++ " \x7d"

end GrammarError

end Descent
