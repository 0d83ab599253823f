import Descent.Compiled.Basic

/-! # Listing a compiled grammar

A readable listing: the root, the terminals in the order they are tried, and each reachable rule
with its first set and the dispatch table of each of its steps.
-/

namespace Descent

namespace CompiledBody

/-- The kind of a rule as the listing shows it. -/
def label : CompiledBody → String
  | sequence _ => "sequence"
  | separated _ _ false => "separated(1+)"
  | separated _ _ true => "separated(0+)"
  | cyclic _ => "cyclic"

/-- The steps of a body with the labels the listing gives them. -/
def labelled : CompiledBody → List (String × CompiledStep)
  | sequence steps => steps.zipIdx.map fun s => (s!"step {s.2}", s.1)
  | separated item separator _ => [("item", item), ("separator", separator)]
  | cyclic step => [("alternatives", step)]

end CompiledBody

namespace CompiledGrammar

/-- Names in a row, or a dash for none. -/
def listNames (g : CompiledGrammar) (ids : List TerminalId) : String :=
  if ids.isEmpty then "-" else " ".intercalate (ids.map g.terminalName)

def leafLabel (g : CompiledGrammar) : Leaf → String
  | .terminal id => g.terminalName id
  | .rule id => g.ruleLabel id

def listNumbers (numbers : List UInt16) : String :=
  "[" ++ ", ".intercalate (numbers.map fun n => s!"{n.toNat}") ++ "]"

def listStep (g : CompiledGrammar) (label : String) (s : CompiledStep) : List String :=
  let mark := if s.optional then " ?" else ""
  let alternatives := " | ".intercalate (s.branches.toList.map g.leafLabel)
  let entries := s.dispatch.map fun e => s!"    {g.terminalName e.1} => {listNumbers e.2}"
  let rest := if s.fallback.isEmpty then [] else [s!"    else => {listNumbers s.fallback}"]
  s!"  {label}: {alternatives}{mark}" :: entries ++ rest

def listRule (g : CompiledGrammar) (r : CompiledRule) : List String :=
  let action := if r.hasAction then " with action" else ""
  let nullable := if r.nullable then "yes" else "no"
  ["",
    s!"rule {r.name} = {r.body.label}{action}",
    s!"  nullable: {nullable}",
    s!"  first: {g.listNames r.first}"]
    ++ r.body.labelled.flatMap fun s => g.listStep s.1 s.2

/-- The lines of the listing. -/
def listLines (g : CompiledGrammar) : List String :=
  [s!"root {g.ruleLabel g.root}",
    "",
    "terminals",
    s!"  ignored: {g.listNames g.terminals.ignored}",
    s!"  literal: {g.listNames g.terminals.literal}",
    s!"  functional: {g.listNames g.terminals.scanning}"]
    ++ (g.order.filterMap g.rule?).flatMap g.listRule

def listing (g : CompiledGrammar) : String :=
  String.join (g.listLines.map (· ++ "\n"))

end CompiledGrammar

end Descent
