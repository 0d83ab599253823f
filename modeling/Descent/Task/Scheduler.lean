import Descent.Task.Basic

/-! # Scheduling tasks

A scheduler takes turns among its tasks: each turn runs one phase of the task in front and puts it
back at the end, unless that was its last phase. Tasks run on a fixed collection of parsers, which
they may share and whose nodes may be of different types.
-/

namespace Descent

/-- A submitted task and the parser it runs on. -/
structure Job {n : Nat} (α : Fin n → Type) where
  id : Nat
  parser : Fin n
  task : Task (α parser)

structure Scheduler {n : Nat} (α : Fin n → Type) where
  parsers : (i : Fin n) → Parser (α i)
  /-- The tasks that are not done, the next one first. -/
  queue : List (Job α) := []
  nextId : Nat := 0

/-- What one turn did. -/
structure Turn {n : Nat} (α : Fin n → Type) where
  task : Nat
  /-- The parser the task runs on. -/
  parser : Fin n
  phase : Phase
  /-- The result of the task, if this was its last phase. -/
  result : Option (TaskResult (α parser))
  calls : List Call

namespace Scheduler

variable {n : Nat} {α : Fin n → Type}

def pending (s : Scheduler α) : Nat := s.queue.length

def isIdle (s : Scheduler α) : Bool := s.queue.isEmpty

/-- The parsers with one of them exchanged. -/
def exchange (s : Scheduler α) (i : Fin n) (p : Parser (α i)) (j : Fin n) : Parser (α j) :=
  if h : i = j then h ▸ p else s.parsers j

/-- Queues a task and answers its number. -/
def submit (s : Scheduler α) (parser : Fin n) (goal : Goal) (source : String) :
    Nat × Scheduler α :=
  (s.nextId,
    { s with
      queue := s.queue ++ [⟨s.nextId, parser, { goal, source }⟩]
      nextId := s.nextId + 1 })

/-- Runs one phase of the task in front; `none` if there is no task. -/
def turn (s : Scheduler α) : Option (Turn α × Scheduler α) :=
  match s.queue with
  | [] => none
  | job :: queue =>
    let r := job.task.step (s.parsers job.parser)
    let s := { s with parsers := s.exchange job.parser r.parser, queue }
    if r.task.isDone then
      some (⟨job.id, job.parser, job.task.phase, r.task.take.1, r.calls⟩, s)
    else
      some (⟨job.id, job.parser, job.task.phase, none, r.calls⟩,
        { s with queue := queue ++ [{ job with task := r.task }] })

/-- The phases that the queued tasks still have to run at most. -/
def remaining (s : Scheduler α) : Nat := s.queue.foldr (fun job n => job.task.remaining + n) 0

/-- Takes up to a number of turns. -/
def turns (s : Scheduler α) : Nat → List (Turn α) × Scheduler α
  | 0 => ([], s)
  | k + 1 =>
    match s.turn with
    | none => ([], s)
    | some (turn, s) =>
      let (rest, s) := s.turns k
      (turn :: rest, s)

/-- Runs every queued task to its end. -/
def run (s : Scheduler α) : List (Turn α) × Scheduler α := s.turns s.remaining

end Scheduler

end Descent
