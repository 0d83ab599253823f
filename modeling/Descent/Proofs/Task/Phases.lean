import Descent.Task.Basic

/-!
# The phases of a task

What a task finds out is what a call of its parser answers, in the phases that a call goes through.
`Task.Sound` is what holds of a task between two steps, `Task.ahead` are the phases that it has
before it, and `Task.Sound.step` is all that one step does: it runs the first of them, and either
hands the answer over or leaves the others.
-/

namespace Descent

namespace Parser

variable {α : Type} (p : Parser α)

/-- The parser as it was before anything was compiled. -/
def fresh : Parser α := { p with memo := none }

/-- What a call answers. -/
def answer (goal : Goal) (source : String) : TaskResult α :=
  match goal with
  | .parse => .parse (p.parse source).result
  | .symbols => .symbols (p.symbolize source)

/-- The callbacks that run in a call. -/
def callsOf (goal : Goal) (source : String) : List Call :=
  match goal with
  | .parse => (p.parse source).calls
  | .symbols => []

/-- The phases of a call: a grammar that does not compile leaves the first one. -/
def phases (goal : Goal) : List Phase :=
  match p.grammar.compile p.root, goal with
  | .error _, _ => [.compile]
  | .ok _, .parse => [.compile, .symbolize, .evaluate]
  | .ok _, .symbols => [.compile, .symbolize]

variable {p} {q : Parser α}

theorem fresh_force : p.force.fresh = p.fresh := by
  unfold force
  split <;> rfl

/-- Parsers that differ in what they keep only have the same grammar. -/
theorem compile_of_fresh (h : p.fresh = q.fresh) :
    p.grammar.compile p.root = q.grammar.compile q.root := by
  show p.fresh.grammar.compile p.fresh.root = q.fresh.grammar.compile q.fresh.root
  rw [h]

theorem symbolizeWith_of_fresh (h : p.fresh = q.fresh) : p.symbolizeWith = q.symbolizeWith := by
  show p.fresh.symbolizeWith = q.fresh.symbolizeWith
  rw [h]

theorem parseWith_of_fresh (h : p.fresh = q.fresh) : p.parseWith = q.parseWith := by
  show p.fresh.parseWith = q.fresh.parseWith
  rw [h]

end Parser

namespace Task

variable {α : Type}

/-- The phases that a task has before it. -/
def ahead (t : Task α) (p : Parser α) : List Phase :=
  match t.state, t.goal with
  | .compile, goal => p.phases goal
  | .symbolize _, .parse => [.symbolize, .evaluate]
  | .symbolize _, .symbols => [.symbolize]
  | .evaluate .., _ => [.evaluate]
  | .done _, _ => []

/-- The task is not done, and what it has found out so far is what a call on the parser would. -/
def Sound (t : Task α) (p : Parser α) : Prop :=
  match t.state with
  | .compile => True
  | .symbolize c => p.grammar.compile p.root = .ok c
  | .evaluate c stream =>
    t.goal = .parse ∧ p.grammar.compile p.root = .ok c ∧ stream = p.symbolizeWith c t.source
  | .done _ => False

/-- What a step makes of a task, where `p` is its parser before anything was compiled. It runs the
first of the phases ahead, and the answer is there after the last one. -/
inductive Advances (t : Task α) (p : Parser α) (r : TaskRun α) : Prop where
  | goesOn (fresh : r.parser.fresh = p.fresh) (ahead : t.ahead p = t.phase :: r.task.ahead p)
      (isDone : r.task.isDone = false) (goal : r.task.goal = t.goal)
      (source : r.task.source = t.source) (sound : r.task.Sound p) (calls : r.calls = [])
  | ends (fresh : r.parser.fresh = p.fresh) (ahead : t.ahead p = [t.phase])
      (isDone : r.task.isDone = true) (result : r.task.take.1 = some (p.answer t.goal t.source))
      (calls : r.calls = p.callsOf t.goal t.source)

section

variable {t : Task α} {p q : Parser α}

theorem ahead_of_fresh (h : q.fresh = p.fresh) : t.ahead q = t.ahead p := by
  have hphases : q.phases = p.phases := by
    show q.fresh.phases = p.fresh.phases
    rw [h]
  unfold ahead
  rw [hphases]

theorem length_ahead_le (t : Task α) (p : Parser α) : (t.ahead p).length ≤ t.remaining := by
  obtain ⟨goal, source, state⟩ := t
  cases state <;> cases goal <;> simp only [ahead, remaining, Parser.phases] <;>
    cases p.grammar.compile p.root <;> simp

theorem advances_compile {goal : Goal} {source : String} (hq : q.fresh = p.fresh) :
    Advances ⟨goal, source, .compile⟩ p (step ⟨goal, source, .compile⟩ q) := by
  have hfresh : q.force.fresh = p.fresh := Parser.fresh_force.trans hq
  have hforce : q.force.compiled = p.grammar.compile p.root := by
    rw [Parser.compiled_eq, Parser.compile_of_fresh hfresh]
  cases hc : p.grammar.compile p.root with
  | error e =>
      rw [hc] at hforce
      have hstep : step ⟨goal, source, .compile⟩ q =
          { task := ⟨goal, source, .done (some (goal.failed e))⟩, parser := q.force } := by
        simp only [step, hforce]
      rw [hstep]
      refine .ends hfresh ?_ rfl ?_ ?_
      · simp only [ahead, Parser.phases, hc, phase]
      · cases goal <;>
          simp only [take, Parser.answer, Parser.parse, Parser.symbolize, Parser.compiled_eq,
            Goal.failed, hc]
      · cases goal <;> simp only [Parser.callsOf, Parser.parse, Parser.compiled_eq, hc]
  | ok c =>
      rw [hc] at hforce
      have hstep : step ⟨goal, source, .compile⟩ q =
          { task := ⟨goal, source, .symbolize c⟩, parser := q.force } := by
        simp only [step, hforce]
      rw [hstep]
      refine .goesOn hfresh ?_ rfl rfl rfl hc rfl
      cases goal <;> simp only [ahead, Parser.phases, hc, phase]

theorem advances_symbolize {goal : Goal} {source : String} {c : CompiledGrammar}
    (hc : p.grammar.compile p.root = .ok c) (hq : q.fresh = p.fresh) :
    Advances ⟨goal, source, .symbolize c⟩ p (step ⟨goal, source, .symbolize c⟩ q) := by
  have hstream : q.symbolizeWith c source = p.symbolizeWith c source := by
    rw [Parser.symbolizeWith_of_fresh hq]
  cases goal with
  | parse => exact .goesOn hq rfl rfl rfl rfl ⟨rfl, hc, hstream⟩ rfl
  | symbols =>
      refine .ends hq rfl rfl ?_ rfl
      simp only [step, take, Parser.answer, Parser.symbolize, Parser.compiled_eq, hc, hstream]

theorem advances_evaluate {source : String} {c : CompiledGrammar}
    (hc : p.grammar.compile p.root = .ok c) (hq : q.fresh = p.fresh) :
    Advances ⟨.parse, source, .evaluate c (p.symbolizeWith c source)⟩ p
      (step ⟨.parse, source, .evaluate c (p.symbolizeWith c source)⟩ q) := by
  have hparse : q.parseWith c source (p.symbolizeWith c source) = p.parse source := by
    rw [Parser.parseWith_of_fresh hq]
    simp only [Parser.parse, Parser.compiled_eq, hc]
  refine .ends hq rfl rfl ?_ ?_
  · simp only [step, take, hparse, Parser.answer]
  · simp only [step, hparse, Parser.callsOf]

theorem Sound.step (h : t.Sound p) (hq : q.fresh = p.fresh) : t.Advances p (t.step q) := by
  obtain ⟨goal, source, state⟩ := t
  cases state with
  | compile => exact advances_compile hq
  | symbolize c => exact advances_symbolize h hq
  | evaluate c stream =>
      obtain ⟨hgoal, hc, hstream⟩ := h
      dsimp only at hgoal hstream
      subst hgoal hstream
      exact advances_evaluate hc hq
  | done result => exact h.elim

end

end Task

end Descent
