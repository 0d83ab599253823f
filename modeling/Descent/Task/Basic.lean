import Descent.Parser

/-! # Tasks

A task is a parse, or just the cutting into symbols, that is carried out one phase at a time. Each
step runs the phase at hand to its end. The result is there once the task is done and can be taken
once.
-/

namespace Descent

/-- The phase a task will run next. -/
inductive Phase where
  | compile
  | symbolize
  | evaluate
  | done
deriving Repr, DecidableEq

/-- What a task is to find out. -/
inductive Goal where
  | parse
  | symbols
deriving Repr, DecidableEq

inductive TaskResult (α : Type) where
  | parse (r : Except ParseError (Parse α))
  | symbols (r : Except ParseError SymbolStream)

/-- The result of a task whose grammar does not compile. -/
def Goal.failed {α : Type} (goal : Goal) (e : GrammarError) : TaskResult α :=
  match goal with
  | parse => .parse (.error (.grammar e))
  | symbols => .symbols (.error (.grammar e))

inductive TaskState (α : Type) where
  | compile
  | symbolize (compiled : CompiledGrammar)
  | evaluate (compiled : CompiledGrammar) (stream : SymbolStream)
  /-- All phases have run; the result is gone once it has been taken. -/
  | done (result : Option (TaskResult α))

structure Task (α : Type) where
  goal : Goal
  source : String
  state : TaskState α := .compile

/-- A task after some steps, the parser it runs on, and the callbacks that ran. -/
structure TaskRun (α : Type) where
  task : Task α
  parser : Parser α
  calls : List Call := []

namespace Task

variable {α : Type}

def phase (t : Task α) : Phase :=
  match t.state with
  | .compile => .compile
  | .symbolize _ => .symbolize
  | .evaluate .. => .evaluate
  | .done _ => .done

def isDone (t : Task α) : Bool := t.phase = .done

/-- The phases still to run at most. -/
def remaining (t : Task α) : Nat :=
  match t.state, t.goal with
  | .compile, .parse => 3
  | .compile, .symbols => 2
  | .symbolize _, .parse => 2
  | .symbolize _, .symbols => 1
  | .evaluate .., _ => 1
  | .done _, _ => 0

/-- Runs the phase at hand. A grammar that does not compile ends the task. -/
def step (t : Task α) (p : Parser α) : TaskRun α :=
  match t.state with
  | .compile =>
    match p.force.compiled with
    | .error e => { task := { t with state := .done (some (t.goal.failed e)) }, parser := p.force }
    | .ok compiled => { task := { t with state := .symbolize compiled }, parser := p.force }
  | .symbolize compiled =>
    let stream := p.symbolizeWith compiled t.source
    match t.goal with
    | .parse => { task := { t with state := .evaluate compiled stream }, parser := p }
    | .symbols => { task := { t with state := .done (some (.symbols (.ok stream))) }, parser := p }
  | .evaluate compiled stream =>
    let outcome := p.parseWith compiled t.source stream
    { task := { t with state := .done (some (.parse outcome.result)) }
      parser := p
      calls := outcome.calls }
  | .done _ => { task := t, parser := p }

/-- Takes the result out of a task that is done. -/
def take (t : Task α) : Option (TaskResult α) × Task α :=
  match t.state with
  | .done result => (result, { t with state := .done none })
  | _ => (none, t)

/-- Runs a number of phases. -/
def steps (t : Task α) (p : Parser α) : Nat → TaskRun α
  | 0 => { task := t, parser := p }
  | n + 1 =>
    let r := t.step p
    let rest := r.task.steps r.parser n
    { rest with calls := r.calls ++ rest.calls }

/-- Runs all phases that remain. -/
def finish (t : Task α) (p : Parser α) : TaskRun α := t.steps p t.remaining

end Task

end Descent
