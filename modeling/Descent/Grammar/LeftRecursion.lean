import Descent.Grammar.First

/-! # Left recursion

A rule has a left edge to each rule that it can enter before it has read anything. A cycle of left
edges would enter a rule again and again at one place, so a grammar that has one is refused, and the
cycle is named.
-/

namespace Descent

namespace LeftRecursion

/-- The part of a path from `target` on, closed by `target`. The path comes latest first. -/
def close (path : List RuleId) (target : RuleId) : List RuleId :=
  target :: (path.takeWhile (· ≠ target)).reverse ++ [target]

/-- Explores the graph from `current`, depth first. `path` leads to `current`, latest first; `done`
holds the rules entered so far. Fails with the first cycle met, or answers the rules entered. The
fuel bounds the length of the path. -/
def explore (edges : RuleId → List RuleId) :
    Nat → List RuleId → List RuleId → RuleId → Except (List RuleId) (List RuleId)
  | 0, _, done, _ => .ok done
  | fuel + 1, path, done, current =>
    if done.contains current then .ok done
    else
      let path := current :: path
      (edges current).foldlM
        (fun done target =>
          if path.contains target then .error (close path target)
          else explore edges fuel path done target)
        (current :: done)

/-- The first cycle among the nodes: a path that ends where it starts. -/
def cycle? (nodes : List RuleId) (edges : RuleId → List RuleId) : Option (List RuleId) :=
  match nodes.foldlM (fun done start => explore edges (nodes.length + 1) [] done start) [] with
  | .error cycle => some cycle
  | .ok _ => none

end LeftRecursion

namespace Grammar

variable {α : Type}

/-- The rules that a rule can enter before reading anything, in order of reference. -/
def leftEdges (g : Grammar α) (f : Facts) (id : RuleId) : List RuleId :=
  match g.rule? id with
  | none => []
  | some r => (f.leadingSteps r.body).flatMap (·.rules)

/-- The names along a cycle of left edges among the rules, if there is one. -/
def leftRecursion? (g : Grammar α) (order : List RuleId) (f : Facts) : Option (List String) :=
  (LeftRecursion.cycle? order (g.leftEdges f)).map fun cycle =>
    cycle.map fun id => (g.ruleName? id).getD "?"

end Grammar

end Descent
