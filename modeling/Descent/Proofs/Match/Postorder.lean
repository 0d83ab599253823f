import Descent.Match.Resolve

/-!
# The callbacks of a match

The callbacks that build a value from a match tree are those of its nodes, children before their
rule and left before right, and each node has at most one (`calls_resolve`). Neither they nor the
value depend on what ran before.
-/

namespace Descent

namespace MatchTree

variable {α : Type} (g : Grammar α) (c : CompiledGrammar) (symbols : Array Symbol)

mutual

/-- The nodes of a tree, children before their rule and left before right. -/
def postorder : MatchTree → List MatchTree
  | absent => [absent]
  | symbol i => [symbol i]
  | rule id children => postorderAll children ++ [rule id children]

def postorderAll : List MatchTree → List MatchTree
  | [] => []
  | t :: ts => t.postorder ++ postorderAll ts

end

/-- The callback of a node itself: the transform of a symbol's terminal, with the token of the
symbol, or the action of a rule. -/
def call? : MatchTree → Option Call
  | absent => none
  | symbol i => symbols[i]?.bind fun s => (g.transform? s.terminal).map fun _ => .transform s.token
  | rule id children => (g.action? id).map fun _ => .action id children.length

/-- The callbacks of a tree, in the order in which they run. -/
def calls (t : MatchTree) : List Call := t.postorder.filterMap (call? g symbols)

/-- The value of a match. -/
def value (t : MatchTree) : Value α := (t.resolve g c symbols #[]).1

theorem mem_postorderAll {t : MatchTree} {ts : List MatchTree} :
    t ∈ postorderAll ts ↔ ∃ u ∈ ts, t ∈ u.postorder := by
  induction ts with
  | nil => simp [postorderAll]
  | cons u ts ih => simp [postorderAll, ih]

/-! ## Resolving -/

variable {g c symbols}

theorem length_resolveAll (ts : List MatchTree) (log : Array Call) :
    (resolveAll g c symbols ts log).1.length = ts.length := by
  induction ts generalizing log with
  | nil => rfl
  | cons t ts ih =>
      rw [resolveAll]
      exact congrArg (· + 1) (ih _)

mutual

theorem resolve_fst : ∀ (t : MatchTree) (log log' : Array Call),
    (t.resolve g c symbols log).1 = (t.resolve g c symbols log').1
  | absent, _, _ => by
      rw [resolve, resolve]
  | symbol i, _, _ => by
      rw [resolve, resolve]
      cases symbols[i]? with
      | none => rfl
      | some s =>
          dsimp only
          cases g.transform? s.terminal <;> rfl
  | rule id children, log, log' => by
      have hvalues := resolveAll_fst children log log'
      rw [resolve, resolve]
      dsimp only
      rw [hvalues]
      cases g.action? id <;> rfl

theorem resolveAll_fst : ∀ (ts : List MatchTree) (log log' : Array Call),
    (resolveAll g c symbols ts log).1 = (resolveAll g c symbols ts log').1
  | [], _, _ => rfl
  | t :: ts, log, log' => by
      have hvalue := resolve_fst t log log'
      have hvalues := resolveAll_fst ts (t.resolve g c symbols log).2
        (t.resolve g c symbols log').2
      rw [resolveAll, resolveAll]
      dsimp only
      rw [hvalue, hvalues]

end

/-- The callbacks of a rule's tree are those of its children and then its own. -/
theorem calls_rule (id : RuleId) (children : List MatchTree) :
    (rule id children).calls g symbols =
      (postorderAll children).filterMap (call? g symbols) ++
        ((rule id children).call? g symbols).toList := by
  unfold calls
  rw [postorder, List.filterMap_append, List.filterMap_cons]
  cases (rule id children).call? g symbols <;> rfl

theorem calls_symbol (i : Nat) :
    (symbol i).calls g symbols = ((symbol i).call? g symbols).toList := by
  unfold calls
  rw [postorder, List.filterMap_cons]
  cases (symbol i).call? g symbols <;> rfl

mutual

theorem calls_resolve : ∀ (t : MatchTree) (log : Array Call),
    (t.resolve g c symbols log).2.toList = log.toList ++ t.calls g symbols
  | absent, log => by
      rw [resolve]
      exact (List.append_nil log.toList).symm
  | symbol i, log => by
      have hcall : (symbol i).call? g symbols = symbols[i]?.bind fun s =>
          (g.transform? s.terminal).map fun _ => .transform s.token := rfl
      rw [calls_symbol, hcall, resolve]
      cases symbols[i]? with
      | none => simp
      | some s =>
          dsimp only [Option.bind_some]
          cases g.transform? s.terminal <;> simp
  | rule id children, log => by
      have hbelow := callsAll_resolveAll children log
      have hcall : (rule id children).call? g symbols =
          (g.action? id).map fun _ => .action id children.length := rfl
      rw [calls_rule, hcall, resolve, ← List.append_assoc, ← hbelow]
      dsimp only
      cases g.action? id with
      | none => simp
      | some build => simp [length_resolveAll]

theorem callsAll_resolveAll : ∀ (ts : List MatchTree) (log : Array Call),
    (resolveAll g c symbols ts log).2.toList =
      log.toList ++ (postorderAll ts).filterMap (call? g symbols)
  | [], log => by
      rw [resolveAll, postorderAll]
      exact (List.append_nil log.toList).symm
  | t :: ts, log => by
      have hfirst := calls_resolve t log
      have hrest := callsAll_resolveAll ts (t.resolve g c symbols log).2
      rw [resolveAll, postorderAll, List.filterMap_append, ← List.append_assoc]
      rw [hfirst] at hrest
      exact hrest

end

/-- The value of a match does not depend on the callbacks that ran before. -/
theorem value_resolve (t : MatchTree) (log : Array Call) :
    (t.resolve g c symbols log).1 = t.value g c symbols :=
  resolve_fst t log #[]

/-- The values of several matches are those of each. -/
theorem resolveAll_eq_map (ts : List MatchTree) (log : Array Call) :
    (resolveAll g c symbols ts log).1 = ts.map (·.value g c symbols) := by
  induction ts generalizing log with
  | nil => rfl
  | cons t ts ih =>
      rw [resolveAll, List.map_cons]
      dsimp only
      rw [value_resolve, ih]

/-- The value of a rule's match, from those of its children. -/
theorem value_rule (id : RuleId) (children : List MatchTree) :
    (rule id children).value g c symbols =
      match g.action? id with
      | some build => .node (build (children.map (·.value g c symbols)))
      | none => bundle ((c.rule? id).map (·.body)) (children.map (·.value g c symbols)) := by
  unfold value
  rw [resolve]
  dsimp only
  rw [resolveAll_eq_map]
  cases g.action? id <;> rfl

theorem value_symbol {i : Nat} {s : Symbol} (hs : symbols[i]? = some s) :
    (symbol i).value g c symbols =
      match g.transform? s.terminal with
      | some build => .node (build s.token)
      | none => .token s.token := by
  unfold value
  rw [resolve, hs]
  dsimp only
  cases g.transform? s.terminal <;> rfl

end MatchTree

end Descent
