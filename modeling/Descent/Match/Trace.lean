import Descent.Compiled.Basic
import Descent.Match.Tree
import Descent.Text.Quoted

/-! # Traces

A trace shows the events of an evaluation as lines, indented by the rules that are open. The level
of detail decides which events have a line.
-/

namespace Descent

inductive Verbosity where
  /-- Rules entered and left. -/
  | plain
  /-- Also symbols taken and reading given up. -/
  | verbose
  /-- Also symbols not accepted. -/
  | veryVerbose
deriving Repr, DecidableEq

/-- The level a count of requests for more detail asks for. -/
def Verbosity.ofCount : Nat → Verbosity
  | 0 => plain
  | 1 => verbose
  | _ => veryVerbose

namespace Event

/-- The line of an event, if the level of detail has one. -/
def line? (g : CompiledGrammar) (v : Verbosity) : Event → Option String
  | enter rule position => some s!"> {g.ruleLabel rule} @{position}"
  | exit rule true position => some s!"< {g.ruleLabel rule} @{position}"
  | exit rule false _ => some s!"x {g.ruleLabel rule}"
  | took terminal symbol =>
    if v = .plain then none
    else some s!"= {g.terminalName terminal} {Text.quoted symbol.text}"
  | missed terminal found =>
    let shown := match found with
      | some symbol => g.terminalName symbol.terminal
      | none => "end of input"
    if v = .veryVerbose then some s!"~ {g.terminalName terminal} (found {shown})" else none
  | refused rule position => some s!"! {g.ruleLabel rule} @{position} re-entered too often"
  | backtrack rule source target =>
    if v = .plain then none else some s!"<< {g.ruleLabel rule} {source} -> {target}"

/-- The number of open rules that an event's own line is indented by. -/
def depthAt (depth : Nat) : Event → Nat
  | exit .. => depth - 1
  | _ => depth

/-- The number of open rules after an event. -/
def depthAfter (depth : Nat) : Event → Nat
  | enter .. => depth + 1
  | exit .. => depth - 1
  | _ => depth

/-- The lines of a trace that begins with `depth` open rules. -/
def traceFrom (g : CompiledGrammar) (v : Verbosity) (depth : Nat) : List Event → List String
  | [] => []
  | e :: es =>
    let line := (e.line? g v).map fun l => "".pushn ' ' (2 * e.depthAt depth) ++ l
    line.toList ++ traceFrom g v (e.depthAfter depth) es

/-- The lines of a trace. -/
def trace (g : CompiledGrammar) (v : Verbosity) (events : List Event) : List String :=
  traceFrom g v 0 events

end Event

end Descent
