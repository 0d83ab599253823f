import Descent.Calc.Grammar
import Descent.Proofs.Compiled.Accepted

/-!
# The rules of the calculator

The clauses of each rule come to one body and one action (`rule?_grammar`), and every terminal
stands for itself (`accepted_sign`). The grammar compiles (`exists_compile`): all that a rule can
enter before it reads has a higher number than the rule, so none can enter itself.
-/

namespace Descent.Calc

open Relation Sign Phrase

/-! ## Rules -/

/-- A step that has to match. -/
def needed (s : Step) : Slot := ⟨s, false⟩

/-- The body that the clauses come to. -/
def Phrase.body : Phrase → Body
  | program => .cyclic [letStatement.step, printStatement.step]
  | letStatement =>
    .sequence [needed letWord.step, needed Sign.name.step, needed assign.step, needed expr.step,
      needed semicolon.step]
  | printStatement => .sequence [needed printWord.step, needed args.step, needed semicolon.step]
  | args => .separated expr.step comma.step false
  | expr => .sequence [needed term.step, needed sumTail.step]
  | sumTail => .cyclic [sumStep.step]
  | sumStep => .sequence [needed (.choice [plus.step, minus.step]), needed term.step]
  | term => .sequence [needed factor.step, needed productTail.step]
  | productTail => .cyclic [productStep.step]
  | productStep => .sequence [needed (.choice [star.step, slash.step]), needed factor.step]
  | factor =>
    .sequence [needed (.choice [Sign.number.step, Sign.name.step, negation.step, group.step])]
  | negation => .sequence [needed minus.step, needed factor.step]
  | group => .sequence [needed openParen.step, needed expr.step, needed closeParen.step]

/-- The action that the clauses come to. -/
def Phrase.build? : Phrase → Option (Children Node → Node)
  | program => some buildProgram
  | letStatement => some buildLet
  | printStatement => some buildPrint
  | args => some buildArgs
  | expr | term => some buildChain
  | sumTail | productTail => some buildTail
  | sumStep | productStep => some buildOperation
  | factor => none
  | negation => some buildNegation
  | group => some buildGroup

section

set_option maxRecDepth 20000

theorem rule?_grammar (p : Phrase) : grammar.rule? p.id = some ⟨p.name, p.body, p.build?⟩ := by
  cases p <;> rfl

theorem action?_grammar (p : Phrase) : grammar.action? p.id = p.build? := by
  unfold Grammar.action?
  rw [rule?_grammar]
  rfl

theorem accepted_sign (s : Sign) : grammar.terminals.accepted s.id = [s.id] := by
  cases s <;> rfl

/-- Numbers and names become expressions; other terminals have no transform. -/
theorem transform?_sign (s : Sign) : grammar.transform? s.id =
    match s with
    | .number => some fun t => .expr (.number t.text)
    | .name => some fun t => .expr (.variable t.text)
    | _ => none := by
  cases s <;> rfl

theorem get?_sign (s : Sign) : grammar.terminals.get? s.id = some s.terminal := by
  cases s <;> rfl

end

theorem Sign.id_injective {s s' : Sign} (h : s.id = s'.id) : s = s' := by
  cases s <;> cases s' <;> first | rfl | exact absurd (congrArg TerminalId.index h) (by decide)

/-! ## Compiling -/

theorem refers {p q : Phrase} (h : q.id ∈ p.body.rules) : grammar.Refers p.id q.id :=
  ⟨_, rule?_grammar p, h⟩

theorem reachable_factor : grammar.Reachable program.id factor.id := by
  have hlet : grammar.Refers program.id letStatement.id := refers (by decide)
  have hexpr : grammar.Refers letStatement.id expr.id := refers (by decide)
  have hterm : grammar.Refers expr.id term.id := refers (by decide)
  have hfactor : grammar.Refers term.id factor.id := refers (by decide)
  exact .tail (.tail (.tail (.single hlet) hexpr) hterm) hfactor

/-- A factor is a sequence of one step, so it has the value of what it consists of. -/
theorem body_factor {c : CompiledGrammar} (h : grammar.compile program.id = .ok c) :
    ∃ s, (c.rule? factor.id).map (·.body) = some (.sequence [s]) := by
  have hmem := ((Grammar.covers_of_compile h).mem_order factor.id).mpr reachable_factor
  obtain ⟨_, order, _, _, rfl⟩ := Grammar.compile_eq_ok_iff.mp h
  have hmem : factor.id ∈ order := hmem
  rw [Grammar.rule?_build, if_pos hmem, rule?_grammar]
  exact ⟨_, rfl⟩

end Descent.Calc
