import Mathlib
import Descent.Task.Scheduler
import Descent.Proofs.Task.Phases

/-!
# Rounds of a scheduler

A log records what a scheduler did: the submissions and the turns. What became of a task shows in
its turns: it is begun (`Submission.Begun`) or done (`Submission.Done`). `Round` is all that one
turn can do with the task in front. Each turn runs one of the phases owed (`Round.owed`), so a
scheduler that runs stops once that many turns are taken (`Ready.turns`).
-/

namespace Descent

variable {n : Nat} {α : Fin n → Type}

/-! ## Logs -/

/-- A task as it was submitted. -/
structure Submission (n : Nat) where
  id : Nat
  parser : Fin n
  goal : Goal
  source : String

def Job.submission (job : Job α) : Submission n :=
  ⟨job.id, job.parser, job.task.goal, job.task.source⟩

/-- What a scheduler did last. -/
inductive Deed {n : Nat} (α : Fin n → Type) where
  | submitted (x : Submission n)
  | took (t : Turn α)

namespace Deed

def submission? : Deed α → Option (Submission n)
  | submitted x => some x
  | took _ => none

def turn? : Deed α → Option (Turn α)
  | submitted _ => none
  | took t => some t

end Deed

def submissions (log : List (Deed α)) : List (Submission n) := log.filterMap Deed.submission?

/-- The turns that were taken. -/
def taken (log : List (Deed α)) : List (Turn α) := log.filterMap Deed.turn?

/-- The turns of one task. -/
def turnsOf (log : List (Deed α)) (id : Nat) : List (Turn α) :=
  (taken log).filter (·.task = id)

/-- What callbacks were called with in some turns. -/
def handed (ts : List (Turn α)) : List ((i : Fin n) × TaskResult (α i)) :=
  ts.filterMap fun t => t.result.map fun r => ⟨t.parser, r⟩

section

variable {log : List (Deed α)} {x : Submission n} {t : Turn α}

@[simp] theorem submissions_snoc_submitted :
    submissions (log ++ [.submitted x]) = submissions log ++ [x] := by
  simp [submissions, Deed.submission?]

@[simp] theorem submissions_snoc_took : submissions (log ++ [.took t]) = submissions log := by
  simp [submissions, Deed.submission?]

@[simp] theorem taken_snoc_submitted : taken (log ++ [.submitted x]) = taken log := by
  simp [taken, Deed.turn?]

@[simp] theorem taken_snoc_took : taken (log ++ [.took t]) = taken log ++ [t] := by
  simp [taken, Deed.turn?]

@[simp] theorem turnsOf_snoc_submitted {id : Nat} :
    turnsOf (log ++ [.submitted x]) id = turnsOf log id := by
  simp [turnsOf]

theorem turnsOf_snoc_took_self : turnsOf (log ++ [.took t]) t.task = turnsOf log t.task ++ [t] := by
  simp [turnsOf]

theorem turnsOf_snoc_took_of_ne {id : Nat} (h : t.task ≠ id) :
    turnsOf (log ++ [.took t]) id = turnsOf log id := by
  simp [turnsOf, h]

end

/-! ## What became of a task -/

/-- The turns of a task that is not done: they ran the first phases of a call, and its callback has
not been called. -/
structure Submission.Begun (x : Submission n) (parsers : (i : Fin n) → Parser (α i))
    (ahead : List Phase) (ts : List (Turn α)) : Prop where
  phases : ts.map (·.phase) ++ ahead = (parsers x.parser).phases x.goal
  handed : handed ts = []
  calls : ts.flatMap (·.calls) = []

/-- The turns of a task that is done: they ran the phases of a call, and its callback was called
once, with what the call answers. -/
structure Submission.Done (x : Submission n) (parsers : (i : Fin n) → Parser (α i))
    (ts : List (Turn α)) : Prop where
  phases : ts.map (·.phase) = (parsers x.parser).phases x.goal
  handed : handed ts = [⟨x.parser, (parsers x.parser).answer x.goal x.source⟩]
  calls : ts.flatMap (·.calls) = (parsers x.parser).callsOf x.goal x.source

namespace Submission

variable {x : Submission n} {parsers : (i : Fin n) → Parser (α i)} {ts : List (Turn α)}
  {phase : Phase} {ahead : List Phase}

theorem begun_nil : x.Begun parsers ((parsers x.parser).phases x.goal) [] := ⟨rfl, rfl, rfl⟩

theorem Begun.goesOn (h : x.Begun parsers (phase :: ahead) ts) :
    x.Begun parsers ahead (ts ++ [⟨x.id, x.parser, phase, none, []⟩]) where
  phases := by simpa using h.phases
  handed := by simpa [Descent.handed] using h.handed
  calls := by simpa using h.calls

theorem Begun.ends (h : x.Begun parsers [phase] ts) :
    x.Done parsers (ts ++ [⟨x.id, x.parser, phase, some ((parsers x.parser).answer x.goal x.source),
      (parsers x.parser).callsOf x.goal x.source⟩]) where
  phases := by simpa using h.phases
  handed := by
    have hnone : Descent.handed ts = [] := h.handed
    unfold Descent.handed at hnone ⊢
    rw [List.filterMap_append, hnone]
    rfl
  calls := by
    have hnone : ts.flatMap (·.calls) = [] := h.calls
    rw [List.flatMap_append, hnone]
    simp

end Submission

namespace Scheduler

/-! ## Turns -/

theorem exchange_fresh {s : Scheduler α} {base : (i : Fin n) → Parser (α i)} {i : Fin n}
    {p : Parser (α i)} (hs : ∀ j, (s.parsers j).fresh = (base j).fresh)
    (hp : p.fresh = (base i).fresh) (j : Fin n) : (s.exchange i p j).fresh = (base j).fresh := by
  unfold exchange
  split
  · next h =>
      subst h
      exact hp
  · exact hs j

/-- The parsers are those of `base`, whatever they keep by now, and every queued task is sound. -/
structure Ready (base : (i : Fin n) → Parser (α i)) (s : Scheduler α) : Prop where
  fresh : ∀ i, (s.parsers i).fresh = (base i).fresh
  sound : ∀ job ∈ s.queue, job.task.Sound (base job.parser)

/-- All that a turn can do with the task in front. -/
inductive Round (base : (i : Fin n) → Parser (α i)) (s : Scheduler α) :
    Turn α → Scheduler α → Prop where
  | goesOn {job : Job α} {queue : List (Job α)} {task : Task (α job.parser)}
      {parsers : (i : Fin n) → Parser (α i)} (queued : s.queue = job :: queue)
      (fresh : ∀ i, (parsers i).fresh = (base i).fresh)
      (ahead : job.task.ahead (base job.parser) = job.task.phase :: task.ahead (base job.parser))
      (submission : Job.submission ⟨job.id, job.parser, task⟩ = job.submission)
      (sound : task.Sound (base job.parser)) :
      Round base s ⟨job.id, job.parser, job.task.phase, none, []⟩
        ⟨parsers, queue ++ [⟨job.id, job.parser, task⟩], s.nextId⟩
  | ends {job : Job α} {queue : List (Job α)} {parsers : (i : Fin n) → Parser (α i)}
      (queued : s.queue = job :: queue) (fresh : ∀ i, (parsers i).fresh = (base i).fresh)
      (ahead : job.task.ahead (base job.parser) = [job.task.phase]) :
      Round base s ⟨job.id, job.parser, job.task.phase,
          some ((base job.parser).answer job.task.goal job.task.source),
          (base job.parser).callsOf job.task.goal job.task.source⟩
        ⟨parsers, queue, s.nextId⟩

section

variable {base : (i : Fin n) → Parser (α i)} {s s' : Scheduler α} {t : Turn α}

theorem submit_queue (parser : Fin n) (goal : Goal) (source : String) :
    (s.submit parser goal source).2.queue = s.queue ++ [⟨s.nextId, parser, { goal, source }⟩] :=
  rfl

theorem turn_eq_none_iff : s.turn = none ↔ s.queue = [] := by
  unfold turn
  split
  · next h => simp [h]
  · next job queue h =>
      dsimp only
      split <;> simp [h]

/-- A turn is about the task in front, and it may put nothing but this task back. -/
theorem turn_front (h : s.turn = some (t, s')) : ∃ job queue back, s.queue = job :: queue ∧
    t.task = job.id ∧ s'.queue = queue ++ back ∧ (∀ other ∈ back, other.id = job.id) ∧
    s'.nextId = s.nextId := by
  unfold turn at h
  split at h
  · cases h
  · next job queue hqueue =>
      dsimp only at h
      split at h
      · cases h
        refine ⟨job, queue, [], hqueue, rfl, (List.append_nil _).symm, ?_, rfl⟩
        exact fun _ hother => absurd hother List.not_mem_nil
      · cases h
        refine ⟨job, queue, _, hqueue, rfl, rfl, ?_, rfl⟩
        intro other hother
        rw [List.mem_singleton.mp hother]

theorem Ready.round (h : Ready base s) (hturn : s.turn = some (t, s')) : Round base s t s' := by
  unfold turn at hturn
  split at hturn
  · cases hturn
  · next job queue hqueue =>
      have hsound := h.sound job (hqueue ▸ List.mem_cons_self)
      cases hsound.step (h.fresh job.parser) with
      | goesOn fresh ahead isDone goal source sound calls =>
          simp only [isDone, calls] at hturn
          cases hturn
          refine .goesOn hqueue (exchange_fresh h.fresh fresh) ahead ?_ sound
          unfold Job.submission
          rw [goal, source]
      | ends fresh ahead isDone result calls =>
          simp only [isDone, if_true, calls, result] at hturn
          cases hturn
          exact .ends hqueue (exchange_fresh h.fresh fresh) ahead

theorem Round.ready (h : Ready base s) (hround : Round base s t s') : Ready base s' := by
  cases hround with
  | goesOn queued fresh ahead submission sound =>
      refine ⟨fresh, ?_⟩
      intro job hjob
      rcases List.mem_append.mp hjob with hjob | hjob
      · exact h.sound job (queued ▸ List.mem_cons_of_mem _ hjob)
      · rw [List.mem_singleton.mp hjob]
        exact sound
  | ends queued fresh ahead =>
      exact ⟨fresh, fun job hjob => h.sound job (queued ▸ List.mem_cons_of_mem _ hjob)⟩

end

/-! ## Running -/

/-- The phases that the queued tasks have before them, all together. -/
def owed (s : Scheduler α) : Nat :=
  (s.queue.map fun job => (job.task.ahead (s.parsers job.parser)).length).sum

section

variable {base : (i : Fin n) → Parser (α i)} {s s' : Scheduler α} {t : Turn α}

theorem Ready.owed_eq (h : Ready base s) :
    s.owed = (s.queue.map fun job => (job.task.ahead (base job.parser)).length).sum := by
  unfold owed
  congr 1
  refine List.map_congr_left ?_
  intro job _
  rw [Task.ahead_of_fresh (h.fresh job.parser)]

/-- Each turn runs one of the phases owed. -/
theorem Round.owed (h : Ready base s) (hround : Round base s t s') : s.owed = s'.owed + 1 := by
  rw [h.owed_eq, (hround.ready h).owed_eq]
  cases hround with
  | goesOn queued fresh ahead submission sound =>
      rw [queued]
      simp only [List.map_cons, List.sum_cons, List.map_append, List.sum_append, List.map_nil,
        List.sum_nil, ahead, List.length_cons]
      omega
  | ends queued fresh ahead =>
      rw [queued]
      simp only [List.map_cons, List.sum_cons, ahead, List.length_cons, List.length_nil]
      omega

theorem owed_le_remaining : s.owed ≤ s.remaining := by
  unfold owed remaining
  induction s.queue with
  | nil => exact Nat.le_refl _
  | cons job queue ih =>
      have hjob := job.task.length_ahead_le (s.parsers job.parser)
      simp only [List.map_cons, List.sum_cons, List.foldr_cons]
      omega

/-- As many turns as phases are owed use the queue up, and no more can be taken. -/
theorem Ready.turns (h : Ready base s) {k : Nat} (hk : s.owed ≤ k) :
    (s.turns k).1.length = s.owed ∧ (s.turns k).2.queue = [] ∧ s.turns k = s.turns s.owed := by
  induction k generalizing s with
  | zero =>
      have howed : s.owed = 0 := Nat.le_zero.mp hk
      cases hturn : s.turn with
      | none => exact ⟨howed.symm, turn_eq_none_iff.mp hturn, by rw [howed]⟩
      | some r =>
          obtain ⟨t, next⟩ := r
          have hless := (h.round hturn).owed h
          omega
  | succ k ih =>
      cases hturn : s.turn with
      | none =>
          have hqueue := turn_eq_none_iff.mp hturn
          have howed : s.owed = 0 := by
            unfold Scheduler.owed
            rw [hqueue]
            rfl
          simp [Scheduler.turns, hturn, howed, hqueue]
      | some r =>
          obtain ⟨t, next⟩ := r
          have hround := h.round hturn
          have howed := hround.owed h
          obtain ⟨hlength, hqueue, heq⟩ := ih (hround.ready h) (by omega)
          rw [howed]
          simp only [Scheduler.turns, hturn, heq, List.length_cons]
          rw [heq] at hlength hqueue
          exact ⟨by rw [hlength], hqueue, trivial⟩

end

end Scheduler

end Descent
