import Descent.Proofs.Task.Rounds

/-!
# Schedulers are orderly

Whatever is asked of a scheduler and in whatever order, no task is lost, carried out twice or
disturbed by others: it waits in the queue until its phases have run, and its callback is called
once, with what a call of a fresh parser answers (`Scheduler.serve_orderly`).

`Keeps` is the invariant that ties the log to the queue. It speaks of the waiting and of the
finished tasks together, since a turn may move a task from the ones to the others. Turns are shared
out evenly because between two turns of a task the queue in front of it is used up from its head
(`Runs.before`).
-/

namespace Descent

variable {n : Nat} {α : Fin n → Type}

/-! ## Requests -/

/-- What is asked of a scheduler. -/
inductive Request (n : Nat) where
  | submit (parser : Fin n) (goal : Goal) (source : String)
  | turn
  | run

namespace Scheduler

/-- Does what is asked and records what was done. -/
def handle (s : Scheduler α) : Request n → List (Deed α) × Scheduler α
  | .submit parser goal source =>
    let (id, s) := s.submit parser goal source
    ([.submitted ⟨id, parser, goal, source⟩], s)
  | .turn =>
    match s.turn with
    | none => ([], s)
    | some (t, s) => ([.took t], s)
  | .run =>
    let (ts, s) := s.run
    (ts.map .took, s)

/-- Does everything that is asked, one after the other. -/
def serve (s : Scheduler α) : List (Request n) → List (Deed α) × Scheduler α
  | [] => ([], s)
  | request :: requests =>
    let (log, s) := s.handle request
    let (rest, s) := s.serve requests
    (log ++ rest, s)

/-- A scheduler goes from one state to another and leaves a log. -/
inductive Runs : Scheduler α → List (Deed α) → Scheduler α → Prop where
  | refl (s) : Runs s [] s
  | submit {s log s'} (parser : Fin n) (goal : Goal) (source : String)
      (rest : Runs (s.submit parser goal source).2 log s') :
      Runs s (.submitted ⟨s.nextId, parser, goal, source⟩ :: log) s'
  | turn {s t next log s'} (turn : s.turn = some (t, next)) (rest : Runs next log s') :
      Runs s (.took t :: log) s'

namespace Runs

variable {s s' : Scheduler α} {log log' : List (Deed α)}

theorem append {m : Scheduler α} (h : Runs s log m) (h' : Runs m log' s') :
    Runs s (log ++ log') s' := by
  induction h with
  | refl => exact h'
  | submit parser goal source _ ih => exact .submit parser goal source (ih h')
  | turn hturn _ ih => exact .turn hturn (ih h')

theorem split (h : Runs s (log ++ log') s') : ∃ m, Runs s log m ∧ Runs m log' s' := by
  induction log generalizing s with
  | nil => exact ⟨s, .refl s, h⟩
  | cons deed log ih =>
      cases h with
      | submit parser goal source rest =>
          obtain ⟨m, hm, hrest⟩ := ih rest
          exact ⟨m, .submit parser goal source hm, hrest⟩
      | turn hturn rest =>
          obtain ⟨m, hm, hrest⟩ := ih rest
          exact ⟨m, .turn hturn hm, hrest⟩

/-- Where a log has a turn, the scheduler took it. -/
theorem took {t : Turn α} (h : Runs s (log ++ .took t :: log') s') :
    ∃ m next, Runs s log m ∧ m.turn = some (t, next) ∧ Runs next log' s' := by
  obtain ⟨m, hm, hrest⟩ := h.split
  cases hrest with
  | turn hturn rest => exact ⟨m, _, hm, hturn, rest⟩

end Runs

theorem runs_turns (s : Scheduler α) (k : Nat) :
    Runs s ((s.turns k).1.map .took) (s.turns k).2 := by
  induction k generalizing s with
  | zero => exact .refl s
  | succ k ih =>
      cases hturn : s.turn with
      | none =>
          simp only [turns, hturn, List.map_nil]
          exact .refl s
      | some r =>
          simp only [turns, hturn, List.map_cons]
          exact .turn hturn (ih r.2)

theorem runs_handle (s : Scheduler α) (request : Request n) :
    Runs s (s.handle request).1 (s.handle request).2 := by
  cases request with
  | submit parser goal source => exact .submit parser goal source (.refl _)
  | turn =>
      cases hturn : s.turn with
      | none =>
          simp only [handle, hturn]
          exact .refl s
      | some r =>
          simp only [handle, hturn]
          exact .turn hturn (.refl _)
  | run => exact runs_turns s s.remaining

theorem runs_serve (s : Scheduler α) (requests : List (Request n)) :
    Runs s (s.serve requests).1 (s.serve requests).2 := by
  induction requests generalizing s with
  | nil => exact .refl s
  | cons request requests ih => exact (runs_handle s request).append (ih _)

/-! ## What a scheduler keeps -/

/-- Where every submitted task has got to. -/
structure Keeps (base : (i : Fin n) → Parser (α i)) (log : List (Deed α)) (s : Scheduler α) :
    Prop where
  ready : s.Ready base
  ids : (submissions log).map (·.id) = List.range s.nextId
  nodup : (s.queue.map (·.id)).Nodup
  known : ∀ t ∈ taken log, ∃ x ∈ submissions log, x.id = t.task
  waiting : ∀ job ∈ s.queue, job.submission ∈ submissions log ∧
    job.submission.Begun base (job.task.ahead (base job.parser)) (turnsOf log job.id)
  done : ∀ x ∈ submissions log, x.id ∉ s.queue.map (·.id) → x.Done base (turnsOf log x.id)

namespace Keeps

variable {base : (i : Fin n) → Parser (α i)} {log : List (Deed α)} {s s' : Scheduler α}

theorem start (parsers : (i : Fin n) → Parser (α i)) (h : ∀ i, (parsers i).fresh = (base i).fresh) :
    Keeps base [] { parsers } where
  ready := ⟨h, fun _ hjob => absurd hjob List.not_mem_nil⟩
  ids := rfl
  nodup := .nil
  known _ ht := absurd ht List.not_mem_nil
  waiting _ hjob := absurd hjob List.not_mem_nil
  done _ hx := absurd hx List.not_mem_nil

theorem id_lt (h : Keeps base log s) {x : Submission n} (hx : x ∈ submissions log) :
    x.id < s.nextId := by
  have hmem := List.mem_map_of_mem (f := Submission.id) hx
  rw [h.ids] at hmem
  exact List.mem_range.mp hmem

theorem job_id_lt (h : Keeps base log s) {job : Job α} (hjob : job ∈ s.queue) :
    job.id < s.nextId :=
  h.id_lt (h.waiting job hjob).1

/-- Tasks have different numbers. -/
theorem eq_of_id (h : Keeps base log s) {x y : Submission n} (hx : x ∈ submissions log)
    (hy : y ∈ submissions log) (hid : x.id = y.id) : x = y := by
  have hnodup : ((submissions log).map (·.id)).Nodup := by
    rw [h.ids]
    exact List.nodup_range
  exact List.inj_on_of_nodup_map hnodup hx hy hid

theorem turnsOf_nextId (h : Keeps base log s) : turnsOf log s.nextId = [] := by
  refine List.filter_eq_nil_iff.mpr ?_
  intro t ht hid
  obtain ⟨x, hx, hxid⟩ := h.known t ht
  have hlt := h.id_lt hx
  have hid : t.task = s.nextId := of_decide_eq_true hid
  omega

theorem submit (h : Keeps base log s) (parser : Fin n) (goal : Goal) (source : String) :
    Keeps base (log ++ [.submitted ⟨s.nextId, parser, goal, source⟩])
      (s.submit parser goal source).2 where
  ready := by
    refine ⟨h.ready.fresh, ?_⟩
    intro job hjob
    rcases List.mem_append.mp hjob with hjob | hjob
    · exact h.ready.sound job hjob
    · rw [List.mem_singleton.mp hjob]
      exact trivial
  ids := by
    show _ = List.range (s.nextId + 1)
    rw [submissions_snoc_submitted, List.map_append, h.ids, List.range_succ]
    rfl
  nodup := by
    rw [submit_queue, List.map_append, List.nodup_append]
    refine ⟨h.nodup, List.nodup_singleton _, ?_⟩
    intro id hid id' hid'
    obtain ⟨job, hjob, rfl⟩ := List.mem_map.mp hid
    rw [List.mem_singleton.mp hid']
    exact Nat.ne_of_lt (h.job_id_lt hjob)
  known t ht := by
    rw [taken_snoc_submitted] at ht
    obtain ⟨x, hx, hid⟩ := h.known t ht
    exact ⟨x, by simp [hx], hid⟩
  waiting job hjob := by
    rw [turnsOf_snoc_submitted, submissions_snoc_submitted]
    rcases List.mem_append.mp hjob with hjob | hjob
    · exact ⟨List.mem_append_left _ (h.waiting job hjob).1, (h.waiting job hjob).2⟩
    · rw [List.mem_singleton.mp hjob]
      refine ⟨List.mem_append_right _ (List.mem_singleton_self _), ?_⟩
      show Submission.Begun _ base _ (turnsOf log s.nextId)
      rw [h.turnsOf_nextId]
      exact Submission.begun_nil
  done x hx hid := by
    rw [turnsOf_snoc_submitted]
    rw [submissions_snoc_submitted] at hx
    rw [submit_queue, List.map_append] at hid
    rcases List.mem_append.mp hx with hx | hx
    · exact h.done x hx fun hmem => hid (List.mem_append_left _ hmem)
    · rw [List.mem_singleton.mp hx] at hid
      exact absurd (List.mem_append_right _ (List.mem_singleton_self _)) hid

section

variable {t : Turn α} {job : Job α}

theorem known_took (h : Keeps base log s) (hjob : job ∈ s.queue) (ht : t.task = job.id) :
    ∀ u ∈ taken (log ++ [.took t]), ∃ x ∈ submissions (log ++ [.took t]), x.id = u.task := by
  intro u hu
  rw [submissions_snoc_took]
  rw [taken_snoc_took] at hu
  rcases List.mem_append.mp hu with hu | hu
  · exact h.known u hu
  · rw [List.mem_singleton.mp hu, ht]
    exact ⟨job.submission, (h.waiting job hjob).1, rfl⟩

/-- A task that waits behind the one in front goes on waiting. -/
theorem waiting_took (h : Keeps base log s) {queue : List (Job α)} (hqueue : s.queue = job :: queue)
    (ht : t.task = job.id) : ∀ other ∈ queue, other.submission ∈ submissions (log ++ [.took t]) ∧
      other.submission.Begun base (other.task.ahead (base other.parser))
        (turnsOf (log ++ [.took t]) other.id) := by
  intro other hother
  have hnodup := h.nodup
  rw [hqueue, List.map_cons, List.nodup_cons] at hnodup
  have hne : t.task ≠ other.id := by
    rw [ht]
    exact fun heq => hnodup.1 (heq ▸ List.mem_map_of_mem hother)
  rw [submissions_snoc_took, turnsOf_snoc_took_of_ne hne]
  exact h.waiting other (hqueue ▸ List.mem_cons_of_mem _ hother)

/-- A task that is done is not in the queue, so a turn is not its own. -/
theorem done_took (h : Keeps base log s) (hjob : job ∈ s.queue) (ht : t.task = job.id)
    {x : Submission n} (hx : x ∈ submissions log) (hid : x.id ∉ s.queue.map (·.id)) :
    x.Done base (turnsOf (log ++ [.took t]) x.id) := by
  have hne : t.task ≠ x.id := by
    rw [ht]
    exact fun heq => hid (heq ▸ List.mem_map_of_mem hjob)
  rw [turnsOf_snoc_took_of_ne hne]
  exact h.done x hx hid

/-- The task in front goes on or is done with the turn; the others are left alone. -/
theorem round (h : Keeps base log s) (hround : Round base s t s') :
    Keeps base (log ++ [.took t]) s' := by
  have hready := hround.ready h.ready
  have hnodup := h.nodup
  cases hround with
  | @goesOn job queue task parsers queued fresh ahead submission sound =>
      have hjob : job ∈ s.queue := queued ▸ List.mem_cons_self
      obtain ⟨hmem, hbegun⟩ := h.waiting job hjob
      rw [queued, List.map_cons] at hnodup
      refine ⟨hready, ?_, ?_, h.known_took hjob rfl, ?_, ?_⟩
      · rw [submissions_snoc_took]
        exact h.ids
      · show ((queue ++ [(⟨job.id, job.parser, task⟩ : Job α)]).map (·.id)).Nodup
        rw [List.map_append]
        exact List.nodup_append_comm.mp hnodup
      · intro other hother
        rcases List.mem_append.mp hother with hother | hother
        · exact h.waiting_took queued rfl other hother
        · rw [List.mem_singleton.mp hother, submission, submissions_snoc_took]
          refine ⟨hmem, ?_⟩
          rw [ahead] at hbegun
          show Submission.Begun _ base _ (turnsOf (log ++ [.took ⟨job.id, _, _, _, _⟩]) job.id)
          rw [turnsOf_snoc_took_self]
          exact hbegun.goesOn
      · intro x hx hid
        rw [submissions_snoc_took] at hx
        refine h.done_took hjob rfl hx ?_
        rw [queued]
        simpa [and_comm, not_or] using hid
  | @ends job queue parsers queued fresh ahead =>
      have hjob : job ∈ s.queue := queued ▸ List.mem_cons_self
      obtain ⟨hmem, hbegun⟩ := h.waiting job hjob
      rw [queued, List.map_cons, List.nodup_cons] at hnodup
      refine ⟨hready, ?_, hnodup.2, h.known_took hjob rfl, h.waiting_took queued rfl, ?_⟩
      · rw [submissions_snoc_took]
        exact h.ids
      · intro x hx hid
        rw [submissions_snoc_took] at hx
        by_cases hjobid : job.id = x.id
        · have hx : x = job.submission := h.eq_of_id hx hmem hjobid.symm
          subst hx
          rw [ahead] at hbegun
          show Submission.Done _ base (turnsOf (log ++ [.took ⟨job.id, _, _, _, _⟩]) job.id)
          rw [turnsOf_snoc_took_self]
          exact hbegun.ends
        · refine h.done_took hjob rfl hx ?_
          rw [queued]
          simpa [Ne.symm hjobid] using hid

end

/-- An invariant of the step is one of the run. -/
theorem runs (h : Keeps base log s) {more : List (Deed α)} (hruns : Runs s more s') :
    Keeps base (log ++ more) s' := by
  induction hruns generalizing log with
  | refl =>
      rw [List.append_nil]
      exact h
  | submit parser goal source _ ih =>
      have hrest := ih (h.submit parser goal source)
      rwa [List.append_assoc] at hrest
  | turn hturn _ ih =>
      have hrest := ih (h.round (h.ready.round hturn))
      rwa [List.append_assoc] at hrest

end Keeps

/-! ## Who has a turn -/

namespace Runs

variable {s s' : Scheduler α} {log : List (Deed α)}

/-- As long as a task has no turn, turns go to those in front of it, from the head of the queue. -/
theorem before (h : Runs s log s') {front behind : List (Job α)} {job : Job α}
    (hqueue : s.queue = front ++ job :: behind) (hnone : ∀ t ∈ taken log, t.task ≠ job.id) :
    ∃ served left behind', front = served ++ left ∧
      (taken log).map (·.task) = served.map (·.id) ∧ s'.queue = left ++ job :: behind' := by
  induction h generalizing front behind with
  | refl => exact ⟨[], front, behind, rfl, rfl, hqueue⟩
  | @submit s log s' parser goal source _ ih =>
      have hlonger : (s.submit parser goal source).2.queue =
          front ++ job :: (behind ++ [⟨s.nextId, parser, { goal, source }⟩]) := by
        rw [submit_queue, hqueue, List.append_assoc]
        rfl
      exact ih hlonger hnone
  | @turn s t next log s' hturn _ ih =>
      obtain ⟨first, queue, back, hfirst, htask, hback, _⟩ := turn_front hturn
      rw [hqueue] at hfirst
      cases front with
      | nil =>
          cases hfirst
          exact absurd htask (hnone t List.mem_cons_self)
      | cons _ front =>
          cases hfirst
          have hnext : next.queue = front ++ job :: (behind ++ back) := by
            rw [hback, ← List.cons_append, ← List.append_assoc]
            rfl
          have hlater : ∀ u ∈ taken log, u.task ≠ job.id := fun u hu =>
            hnone u (List.mem_cons_of_mem t hu)
          obtain ⟨served, left, behind', hfront, htasks, hleft⟩ := ih hnext hlater
          refine ⟨first :: served, left, behind', by rw [hfront]; rfl, ?_, hleft⟩
          show t.task :: (taken log).map (·.task) = _
          rw [htasks, htask]
          rfl

/-- A task that has left the queue does not come back. -/
theorem gone (h : Runs s log s') {id : Nat} (hid : id ∉ s.queue.map (·.id)) (hlt : id < s.nextId) :
    id ∉ s'.queue.map (·.id) := by
  induction h with
  | refl => exact hid
  | @submit s log s' parser goal source _ ih =>
      refine ih ?_ (Nat.lt_succ_of_lt hlt)
      rw [submit_queue, List.map_append]
      intro hmem
      rcases List.mem_append.mp hmem with hmem | hmem
      · exact hid hmem
      · exact absurd (List.mem_singleton.mp hmem) (Nat.ne_of_lt hlt)
  | turn hturn _ ih =>
      obtain ⟨first, queue, back, hfirst, _, hback, hsame, hnext⟩ := turn_front hturn
      refine ih ?_ (hnext ▸ hlt)
      rw [hfirst, List.map_cons] at hid
      rw [hback, List.map_append]
      intro hmem
      rcases List.mem_append.mp hmem with hmem | hmem
      · exact hid (List.mem_cons_of_mem _ hmem)
      · obtain ⟨other, hother, rfl⟩ := List.mem_map.mp hmem
        exact hid (hsame other hother ▸ List.mem_cons_self)

end Runs

/-- Between two turns of a task, every other task that was not done has one. -/
theorem Keeps.length_turnsOf {base : (i : Fin n) → Parser (α i)} {before mid : List (Deed α)}
    {s next later last : Scheduler α} {t t' : Turn α} (h : Keeps base before s)
    (hturn : s.turn = some (t, next)) (hruns : Runs next mid later)
    (hturn' : later.turn = some (t', last)) (hsame : t'.task = t.task)
    (hnone : ∀ u ∈ taken mid, u.task ≠ t.task) {x : Submission n} (hx : x ∈ submissions before)
    (hother : x.id ≠ t.task) (hopen : handed (turnsOf before x.id) = []) :
    (turnsOf mid x.id).length = 1 := by
  have hnodup := h.nodup
  -- the task that is not done stands in the queue
  have hqueued : x.id ∈ s.queue.map (·.id) := by
    by_contra hid
    have hdone := (h.done x hx hid).handed
    rw [hopen] at hdone
    cases hdone
  obtain ⟨first, queue', _, hfirst, htask', _⟩ := turn_front hturn'
  cases h.ready.round hturn with
  | @goesOn job queue task parsers queued fresh ahead submission sound =>
      obtain ⟨served, left, behind, hsplit, htasks, hlater⟩ := hruns.before rfl hnone
      rw [queued, List.map_cons, List.nodup_cons] at hnodup
      -- the task has its second turn, so nothing is left in front of it
      have hleft : left = [] := by
        cases left with
        | nil => rfl
        | cons j left =>
            rw [hfirst] at hlater
            cases hlater
            have hmem : first.id ∈ queue.map (·.id) :=
              List.mem_map_of_mem (hsplit ▸ List.mem_append_right _ List.mem_cons_self)
            rw [← htask', hsame] at hmem
            exact absurd hmem hnodup.1
      rw [hleft, List.append_nil] at hsplit
      rw [queued, List.map_cons] at hqueued
      have hmem : x.id ∈ (taken mid).map (·.task) := by
        rw [htasks, ← hsplit]
        exact (List.mem_cons.mp hqueued).resolve_left hother
      have hcount := List.count_eq_one_of_mem (htasks ▸ hsplit ▸ hnodup.2) hmem
      rw [List.count_eq_countP, List.countP_map, List.countP_eq_length_filter] at hcount
      exact hcount
  | @ends job queue parsers queued fresh ahead =>
      -- the task is done after its first turn
      rw [queued, List.map_cons, List.nodup_cons] at hnodup
      have hlt : job.id < s.nextId := h.job_id_lt (queued ▸ List.mem_cons_self)
      have hgone : job.id ∉ later.queue.map (·.id) := hruns.gone hnodup.1 hlt
      have hmem : t'.task ∈ later.queue.map (·.id) := by
        rw [hfirst, htask']
        exact List.mem_cons_self
      rw [hsame] at hmem
      exact absurd hmem hgone

/-! ## Order -/

/-- The task stands in the queue, once, with the rest of its phases before it. -/
structure Waits (base : (i : Fin n) → Parser (α i)) (log : List (Deed α)) (s : Scheduler α)
    (x : Submission n) : Prop where
  once : (s.queue.map (·.id)).count x.id = 1
  begun : ∃ job ∈ s.queue, job.submission = x ∧
    x.Begun base (job.task.ahead (s.parsers job.parser)) (turnsOf log x.id)

/-- The task has left the queue, and its callback has been called with the result. -/
structure Finished (base : (i : Fin n) → Parser (α i)) (log : List (Deed α)) (s : Scheduler α)
    (x : Submission n) : Prop where
  gone : x.id ∉ s.queue.map (·.id)
  done : x.Done base (turnsOf log x.id)

/-- No task is lost, carried out twice or preferred, and the scheduler can be run to its end. -/
structure Orderly (base : (i : Fin n) → Parser (α i)) (log : List (Deed α)) (s : Scheduler α) :
    Prop where
  distinct : ((submissions log).map (·.id)).Nodup
  tasks : ∀ x ∈ submissions log, Waits base log s x ∨ Finished base log s x
  queued : ∀ job ∈ s.queue, job.submission ∈ submissions log
  known : ∀ t ∈ taken log, ∃ x ∈ submissions log, x.id = t.task
  fair : ∀ before t mid t' after, log = before ++ .took t :: (mid ++ .took t' :: after) →
    t'.task = t.task → (∀ u ∈ taken mid, u.task ≠ t.task) →
    ∀ x ∈ submissions before, x.id ≠ t.task → handed (turnsOf before x.id) = [] →
    (turnsOf mid x.id).length = 1
  run_eq : s.handle .run = s.serve (List.replicate s.owed .turn)
  run_length : s.run.1.length = s.owed
  run_queue : s.run.2.queue = []

theorem turns_of_turn_eq_none {s : Scheduler α} (h : s.turn = none) (k : Nat) :
    s.turns k = ([], s) := by
  cases k with
  | zero => rfl
  | succ k => simp only [turns, h]

theorem serve_replicate_turn (s : Scheduler α) (k : Nat) :
    s.serve (List.replicate k .turn) = ((s.turns k).1.map .took, (s.turns k).2) := by
  induction k generalizing s with
  | zero => rfl
  | succ k ih =>
      cases hturn : s.turn with
      | none =>
          simp only [List.replicate_succ, serve, handle, hturn, ih, turns_of_turn_eq_none hturn,
            List.map_nil, List.append_nil]
      | some r => simp [List.replicate_succ, serve, handle, hturn, ih, turns]

theorem Keeps.orderly {parsers : (i : Fin n) → Parser (α i)} {log : List (Deed α)}
    {s : Scheduler α} (h : Keeps (fun i => (parsers i).fresh) log s)
    (hruns : Runs { parsers } log s) : Orderly (fun i => (parsers i).fresh) log s where
  distinct := by
    rw [h.ids]
    exact List.nodup_range
  tasks x hx := by
    by_cases hid : x.id ∈ s.queue.map (·.id)
    · obtain ⟨job, hjob, hjobid⟩ := List.mem_map.mp hid
      obtain ⟨hmem, hbegun⟩ := h.waiting job hjob
      have hsubmission : job.submission = x := h.eq_of_id hmem hx hjobid
      refine .inl ⟨List.count_eq_one_of_mem h.nodup hid, job, hjob, hsubmission, ?_⟩
      rw [Task.ahead_of_fresh (h.ready.fresh job.parser), ← hsubmission]
      exact hbegun
    · exact .inr ⟨hid, h.done x hx hid⟩
  queued job hjob := (h.waiting job hjob).1
  known := h.known
  fair before t mid t' after hlog hsame hnone x hx hother hopen := by
    rw [hlog] at hruns
    obtain ⟨m, next, hbefore, hturn, hrest⟩ := hruns.took
    obtain ⟨later, last, hmid, hturn', _⟩ := hrest.took
    have hkeeps := (Keeps.start parsers fun _ => rfl).runs hbefore
    exact hkeeps.length_turnsOf hturn hmid hturn' hsame hnone hx hother hopen
  run_eq := by
    rw [serve_replicate_turn, ← (h.ready.turns owed_le_remaining).2.2]
    rfl
  run_length := (h.ready.turns owed_le_remaining).1
  run_queue := (h.ready.turns owed_le_remaining).2.1

/-! ## Everything that is asked -/

/-- What a request submits. -/
def asked? : Request n → Option (Fin n × Goal × String)
  | .submit parser goal source => some (parser, goal, source)
  | .turn => none
  | .run => none

theorem submissions_handle (s : Scheduler α) (request : Request n) :
    (submissions (s.handle request).1).map (fun x => (x.parser, x.goal, x.source)) =
      (asked? request).toList := by
  have htook : ∀ ts : List (Turn α), submissions (ts.map .took) = [] := fun ts => by
    induction ts with
    | nil => rfl
    | cons t ts ih => exact ih
  cases request with
  | submit parser goal source => rfl
  | turn =>
      cases hturn : s.turn with
      | none =>
          simp only [handle, hturn]
          rfl
      | some r =>
          simp only [handle, hturn]
          rfl
  | run => simp only [handle, htook, List.map_nil, asked?, Option.toList_none]

/-- What was submitted is what was asked for, in the same order. -/
theorem submissions_serve (s : Scheduler α) (requests : List (Request n)) :
    (submissions (s.serve requests).1).map (fun x => (x.parser, x.goal, x.source)) =
      requests.filterMap asked? := by
  induction requests generalizing s with
  | nil => rfl
  | cons request requests ih =>
      have hhandle := submissions_handle s request
      have hrest := ih (s.handle request).2
      simp only [submissions] at hhandle hrest
      simp only [serve, submissions, List.filterMap_append, List.map_append, hhandle, hrest]
      cases hasked : asked? request <;> simp [hasked]

/-- Whatever is asked of a scheduler, everything submitted is recorded, and at every moment the
scheduler is orderly, with results that are those of fresh parsers. -/
theorem serve_orderly (parsers : (i : Fin n) → Parser (α i)) (requests : List (Request n)) :
    let (log, s) := ({ parsers } : Scheduler α).serve requests
    (submissions log).map (fun x => (x.parser, x.goal, x.source)) = requests.filterMap asked? ∧
      Orderly (fun i => (parsers i).fresh) log s ∧
      ∀ before after, log = before ++ after → ∃ moment, Runs { parsers } before moment ∧
        Runs moment after s ∧ Orderly (fun i => (parsers i).fresh) before moment := by
  have hruns := runs_serve { parsers } requests
  have hstart : Keeps (fun i => (parsers i).fresh) [] { parsers } := .start parsers fun _ => rfl
  refine ⟨submissions_serve _ requests, (hstart.runs hruns).orderly hruns, ?_⟩
  intro before after hlog
  rw [hlog] at hruns
  obtain ⟨moment, hbefore, hafter⟩ := hruns.split
  exact ⟨moment, hbefore, hafter, (hstart.runs hbefore).orderly hbefore⟩

end Scheduler

end Descent
