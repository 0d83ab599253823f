import Descent.Compiled.Basic
import Descent.Match.Tree

/-! # Resolving matches

A settled match tree is turned into a value from the leaves up: transforms build from tokens,
actions from the values of a rule's children. Every such callback leaves an entry in a log, in the
order in which they run: children before their rule, left before right.
-/

namespace Descent

/-- A callback that has run. -/
inductive Call where
  | transform (token : Token)
  /-- The action of a rule, with the number of its children. -/
  | action (rule : RuleId) (children : Nat)
deriving Repr, DecidableEq

namespace MatchTree

variable {α : Type}

/-- The value of a rule's match without an action: that of its only step, or the list of all. -/
def bundle (body : Option CompiledBody) (values : List (Value α)) : Value α :=
  match body with
  | some (.sequence [_]) => values.getLast?.getD .absent
  | _ => .list values

mutual

/-- The value of a match, and the log with the callbacks that built it. -/
def resolve (g : Grammar α) (compiled : CompiledGrammar) (symbols : Array Symbol) :
    MatchTree → Array Call → Value α × Array Call
  | absent, log => (.absent, log)
  | symbol i, log =>
    match symbols[i]? with
    | none => (.absent, log)
    | some s =>
      match g.transform? s.terminal with
      | some build => (.node (build s.token), log.push (.transform s.token))
      | none => (.token s.token, log)
  | rule id children, log =>
    let (values, log) := resolveAll g compiled symbols children log
    match g.action? id with
    | some build => (.node (build values), log.push (.action id values.length))
    | none => (bundle ((compiled.rule? id).map (·.body)) values, log)

/-- The values of matches, left to right. -/
def resolveAll (g : Grammar α) (compiled : CompiledGrammar) (symbols : Array Symbol) :
    List MatchTree → Array Call → List (Value α) × Array Call
  | [], log => ([], log)
  | t :: ts, log =>
    let (value, log) := t.resolve g compiled symbols log
    let (values, log) := resolveAll g compiled symbols ts log
    (value :: values, log)

end

end MatchTree

end Descent
