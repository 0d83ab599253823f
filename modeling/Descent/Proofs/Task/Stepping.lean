import Descent.Proofs.Task.Phases

/-!
# Stepping a task comes to what the call comes to

A session is a task with the parser it runs on. Whatever is asked of it, and in whatever order, its
phases run one after the other and only when it is stepped, each of them once, and the result is
handed out at most once and is what a call of the parser answers. Running the task to its end at any
moment hands it out if it is still there (`Session.serve_refines`).

`Keeps` is the invariant that ties what was handed out to what the task still holds: between two
requests a task goes on, holds its result, or has given it away.
-/

namespace Descent

namespace Task

variable {α : Type}

/-! ## Requests -/

/-- What is asked of a task. -/
inductive Request where
  | phase
  | isDone
  | step
  | take
deriving Repr, DecidableEq

inductive Reply (α : Type) where
  | phase (p : Phase)
  | isDone (b : Bool)
  | result (r : Option (TaskResult α))

/-- A task and the parser it runs on. -/
structure Session (α : Type) where
  task : Task α
  parser : Parser α

/-- What came of a request: the reply, the callbacks that ran, and the session before and after. -/
structure Service (α : Type) where
  request : Request
  before : Session α
  reply : Reply α
  after : Session α
  calls : List Call := []

namespace Session

def handle (s : Session α) : Request → Service α
  | .phase => ⟨.phase, s, .phase s.task.phase, s, []⟩
  | .isDone => ⟨.isDone, s, .isDone s.task.isDone, s, []⟩
  | .step =>
    let r := s.task.step s.parser
    ⟨.step, s, .phase r.task.phase, ⟨r.task, r.parser⟩, r.calls⟩
  | .take => ⟨.take, s, .result s.task.take.1, { s with task := s.task.take.2 }, []⟩

/-- Does what is asked, one after the other. -/
def serve (s : Session α) : List Request → List (Service α) × Session α
  | [] => ([], s)
  | request :: requests =>
    let x := s.handle request
    let (log, s) := x.after.serve requests
    (x :: log, s)

end Session

namespace Service

/-- The phase that ran, if one did. -/
def ran? (x : Service α) : Option Phase :=
  if x.request = .step ∧ x.before.task.isDone = false then some x.before.task.phase else none

/-- The result that was handed out, if one was. -/
def handed? (x : Service α) : Option (TaskResult α) :=
  match x.reply with
  | .result r => r
  | _ => none

end Service

def ran (log : List (Service α)) : List Phase := log.filterMap Service.ran?

def handed (log : List (Service α)) : List (TaskResult α) := log.filterMap Service.handed?

def callsIn (log : List (Service α)) : List Call := log.flatMap (·.calls)

section

variable {log : List (Service α)} {x : Service α}

@[simp] theorem ran_snoc : ran (log ++ [x]) = ran log ++ x.ran?.toList := by
  unfold ran
  rw [List.filterMap_append]
  cases h : x.ran? <;> simp [h]

@[simp] theorem handed_snoc : handed (log ++ [x]) = handed log ++ x.handed?.toList := by
  unfold handed
  rw [List.filterMap_append]
  cases h : x.handed? <;> simp [h]

@[simp] theorem callsIn_snoc : callsIn (log ++ [x]) = callsIn log ++ x.calls := by
  simp [callsIn]

theorem ran_append {log' : List (Service α)} : ran (log ++ log') = ran log ++ ran log' :=
  List.filterMap_append

theorem callsIn_append {log' : List (Service α)} :
    callsIn (log ++ log') = callsIn log ++ callsIn log' :=
  List.flatMap_append

end

end Task

/-- How far a task in the phase has got. -/
def Phase.rank : Phase → Nat
  | compile => 0
  | symbolize => 1
  | evaluate => 2
  | done => 3

namespace Task

variable {α : Type}

/-- The request did what it is there for. Only stepping moves the phase, and it moves it forward
unless the task is done; a result can be taken from a task that is done and not before. -/
structure Service.Orderly (x : Service α) : Prop where
  reply_phase : x.request = .phase → x.reply = .phase x.before.task.phase ∧ x.after = x.before
  reply_isDone : x.request = .isDone →
    x.reply = .isDone (decide (x.before.task.phase = .done)) ∧ x.after = x.before
  reply_step : x.request = .step → x.reply = .phase x.after.task.phase
  forward : x.request = .step → x.before.task.phase ≠ .done →
    x.before.task.phase.rank < x.after.task.phase.rank
  step_done : x.request = .step → x.before.task.phase = .done → x.after = x.before ∧ x.calls = []
  still : x.request ≠ .step →
    x.after.task.phase = x.before.task.phase ∧ x.after.parser = x.before.parser ∧ x.calls = []
  take_early : x.request = .take → x.before.task.phase ≠ .done →
    x.reply = .result none ∧ x.after = x.before

/-- The phase never moves back. -/
theorem Service.Orderly.rank_le {x : Service α} (h : x.Orderly) :
    x.before.task.phase.rank ≤ x.after.task.phase.rank := by
  by_cases hstep : x.request = .step
  · by_cases hdone : x.before.task.phase = .done
    · have hsame : x.after = x.before := (h.step_done hstep hdone).1
      exact Nat.le_of_eq (by rw [hsame])
    · exact Nat.le_of_lt (h.forward hstep hdone)
  · have hsame : x.after.task.phase = x.before.task.phase := (h.still hstep).1
    exact Nat.le_of_eq (by rw [hsame])

/-- Each request is served where the one before it has left the session. -/
def Session.Chain : Session α → List (Service α) → Session α → Prop
  | s, [], t => s = t
  | s, x :: log, t => x.before = s ∧ Chain x.after log t

/-! ## What a session keeps -/

/-- Where a task has got to between two requests, given what it has handed out and the callbacks
that have run, if `p` is its parser. -/
inductive Stands (p : Parser α) (t : Task α) : List (TaskResult α) → List Call → Prop where
  | goesOn (sound : t.Sound p) : Stands p t [] []
  | holds (state : t.state = .done (some (p.answer t.goal t.source))) :
      Stands p t [] (p.callsOf t.goal t.source)
  | spent (state : t.state = .done none) :
      Stands p t [p.answer t.goal t.source] (p.callsOf t.goal t.source)

/-- What holds of a session for the goal on the source after the requests in the log. -/
structure Session.Keeps (p : Parser α) (g : Goal) (source : String) (log : List (Service α))
    (s : Session α) : Prop where
  fresh : s.parser.fresh = p.fresh
  goal : s.task.goal = g
  source : s.task.source = source
  stands : s.task.Stands p (handed log) (callsIn log)
  phases : ran log ++ s.task.ahead p = p.phases g

section

variable {p q : Parser α} {t : Task α} {s : Session α} {g : Goal} {source : String}
  {log : List (Service α)} {result : Option (TaskResult α)}

/-! ## One step -/

theorem isDone_iff : t.isDone = true ↔ t.phase = .done := decide_eq_true_iff

theorem phase_of_done (h : t.state = .done result) : t.phase = .done := by
  unfold phase
  rw [h]

theorem exists_done_of_phase (h : t.phase = .done) : ∃ result, t.state = .done result := by
  unfold phase at h
  split at h
  · cases h
  · cases h
  · cases h
  · next result hstate => exact ⟨result, hstate⟩

theorem ahead_of_done (h : t.state = .done result) : t.ahead p = [] := by
  unfold ahead
  rw [h]

theorem Sound.phase_ne_done (h : t.Sound p) : t.phase ≠ .done := by
  intro hdone
  obtain ⟨result, hstate⟩ := exists_done_of_phase hdone
  unfold Sound at h
  rw [hstate] at h
  exact h

/-- A step leaves alone what the task is to find out. -/
theorem step_goal_source (t : Task α) (q : Parser α) :
    (t.step q).task.goal = t.goal ∧ (t.step q).task.source = t.source := by
  unfold step
  split
  · split <;> exact ⟨rfl, rfl⟩
  · split <;> exact ⟨rfl, rfl⟩
  · exact ⟨rfl, rfl⟩
  · exact ⟨rfl, rfl⟩

theorem step_of_done (h : t.phase = .done) : t.step q = { task := t, parser := q } := by
  obtain ⟨result, hstate⟩ := exists_done_of_phase h
  unfold step
  rw [hstate]

theorem rank_lt_step (h : t.phase ≠ .done) : t.phase.rank < (t.step q).task.phase.rank := by
  obtain ⟨goal, source, state⟩ := t
  cases state with
  | compile =>
      simp only [step]
      split <;> exact Nat.zero_lt_succ _
  | symbolize c => cases goal <;> simp [step, phase, Phase.rank]
  | evaluate c stream => simp [step, phase, Phase.rank]
  | done result => exact absurd rfl h

/-- A result can be taken from a task that is done, and then it is gone. -/
theorem take_of_done (h : t.state = .done result) :
    t.take = (result, { t with state := .done none }) := by
  unfold take
  rw [h]

theorem take_of_phase_ne_done (h : t.phase ≠ .done) : t.take = (none, t) := by
  unfold take
  split
  · next result hstate => exact absurd (phase_of_done hstate) h
  · rfl

/-- A task that is asked for its result when it is done is the same but for the result. -/
theorem state_of_take (hdone : t.phase = .done) (h : t.take.1 = result) :
    t.state = .done result := by
  obtain ⟨held, hstate⟩ := exists_done_of_phase hdone
  rw [take_of_done hstate] at h
  rw [hstate, ← h]

/-! ## One request -/

theorem Session.orderly_handle (s : Session α) (request : Request) :
    (s.handle request).Orderly := by
  cases request with
  | phase => constructor <;> simp [Session.handle]
  | isDone =>
      constructor
      · simp [Session.handle]
      · intro _
        exact ⟨rfl, rfl⟩
      all_goals simp [Session.handle]
  | step =>
      constructor
      · simp [Session.handle]
      · simp [Session.handle]
      · intro _
        rfl
      · intro _ hphase
        exact rank_lt_step hphase
      · intro _ hphase
        have hstep : s.task.step s.parser = { task := s.task, parser := s.parser } :=
          step_of_done hphase
        simp [Session.handle, hstep]
      · simp [Session.handle]
      · simp [Session.handle]
  | take =>
      have hphase : s.task.take.2.phase = s.task.phase := by
        by_cases hdone : s.task.phase = .done
        · obtain ⟨result, hstate⟩ := exists_done_of_phase hdone
          rw [take_of_done hstate, hdone]
          rfl
        · rw [take_of_phase_ne_done hdone]
      constructor
      · simp [Session.handle]
      · simp [Session.handle]
      · simp [Session.handle]
      · simp [Session.handle]
      · simp [Session.handle]
      · intro _
        exact ⟨hphase, rfl, rfl⟩
      · intro _ hearly
        have htake : s.task.take = (none, s.task) := take_of_phase_ne_done hearly
        simp [Session.handle, htake]

/-- A step runs the first of the phases ahead, and nothing once the task is done. -/
theorem Stands.step {results : List (TaskResult α)} {calls : List Call}
    (h : t.Stands p results calls) (hq : q.fresh = p.fresh) :
    (t.step q).task.Stands p results (calls ++ (t.step q).calls) ∧
      (t.step q).parser.fresh = p.fresh ∧
      t.ahead p = (if t.isDone then [] else [t.phase]) ++ (t.step q).task.ahead p := by
  have hdone : ∀ {result}, t.state = .done result →
      t.step q = { task := t, parser := q } ∧ t.ahead p = (if t.isDone then [] else [t.phase]) := by
    intro result hstate
    have hphase : t.phase = .done := phase_of_done hstate
    refine ⟨step_of_done hphase, ?_⟩
    rw [if_pos (isDone_iff.mpr hphase), ahead_of_done hstate]
  cases h with
  | goesOn sound =>
      have hnot : ¬ t.isDone = true := fun h => sound.phase_ne_done (isDone_iff.mp h)
      rw [if_neg hnot]
      cases sound.step hq with
      | goesOn fresh ahead isDone goal source sound calls =>
          rw [calls]
          exact ⟨.goesOn sound, fresh, ahead⟩
      | ends fresh ahead isDone result calls =>
          obtain ⟨hgoal, hsource⟩ := step_goal_source t q
          have hstate := state_of_take (isDone_iff.mp isDone) result
          rw [← hgoal, ← hsource] at hstate calls
          rw [calls]
          refine ⟨.holds hstate, fresh, ?_⟩
          rw [ahead_of_done hstate, ahead]
          rfl
  | holds state =>
      obtain ⟨hstep, hahead⟩ := hdone state
      rw [hstep, List.append_nil]
      refine ⟨.holds state, hq, ?_⟩
      rw [← hahead, ahead_of_done state]
      rfl
  | spent state =>
      obtain ⟨hstep, hahead⟩ := hdone state
      rw [hstep, List.append_nil]
      refine ⟨.spent state, hq, ?_⟩
      rw [← hahead, ahead_of_done state]
      rfl

/-- What is taken is the answer, and it is not there twice. -/
theorem Stands.take {results : List (TaskResult α)} {calls : List Call}
    (h : t.Stands p results calls) :
    t.take.2.Stands p (results ++ t.take.1.toList) calls ∧ t.take.2.ahead p = t.ahead p ∧
      t.take.2.goal = t.goal ∧ t.take.2.source = t.source := by
  cases h with
  | goesOn sound =>
      rw [take_of_phase_ne_done sound.phase_ne_done]
      exact ⟨.goesOn sound, rfl, rfl, rfl⟩
  | holds state =>
      rw [take_of_done state]
      refine ⟨.spent rfl, ?_, rfl, rfl⟩
      rw [ahead_of_done state]
      rfl
  | spent state =>
      rw [take_of_done state]
      refine ⟨.spent rfl, ?_, rfl, rfl⟩
      rw [ahead_of_done state]
      rfl

namespace Session

theorem Keeps.start : Keeps p g source [] ⟨{ goal := g, source }, p⟩ :=
  ⟨rfl, rfl, rfl, .goesOn trivial, rfl⟩

/-- A request that does nothing but reply. -/
theorem Keeps.ask (h : Keeps p g source log s) {x : Service α} (hran : x.ran? = none)
    (hhanded : x.handed? = none) (hcalls : x.calls = []) : Keeps p g source (log ++ [x]) s := by
  refine ⟨h.fresh, h.goal, h.source, ?_, ?_⟩
  · rw [handed_snoc, callsIn_snoc, hhanded, hcalls, Option.toList_none, List.append_nil,
      List.append_nil]
    exact h.stands
  · rw [ran_snoc, hran, Option.toList_none, List.append_nil]
    exact h.phases

theorem Keeps.step (h : Keeps p g source log s) :
    Keeps p g source (log ++ [s.handle .step]) (s.handle .step).after := by
  obtain ⟨hgoal, hsource⟩ := step_goal_source s.task s.parser
  obtain ⟨hstands, hfresh, hahead⟩ := h.stands.step h.fresh
  refine ⟨hfresh, hgoal.trans h.goal, hsource.trans h.source, ?_, ?_⟩
  · rw [handed_snoc, callsIn_snoc]
    show (s.task.step s.parser).task.Stands p (handed log ++ []) _
    rw [List.append_nil]
    exact hstands
  · rw [ran_snoc, ← h.phases, hahead, List.append_assoc]
    cases hdone : s.task.isDone <;> simp [handle, Service.ran?, hdone]

theorem Keeps.take (h : Keeps p g source log s) :
    Keeps p g source (log ++ [s.handle .take]) (s.handle .take).after := by
  obtain ⟨hstands, hahead, hgoal, hsource⟩ := h.stands.take
  refine ⟨h.fresh, hgoal.trans h.goal, hsource.trans h.source, ?_, ?_⟩
  · rw [handed_snoc, callsIn_snoc]
    show s.task.take.2.Stands p (handed log ++ s.task.take.1.toList) (callsIn log ++ [])
    rw [List.append_nil]
    exact hstands
  · rw [ran_snoc]
    show ran log ++ [] ++ s.task.take.2.ahead p = _
    rw [List.append_nil, hahead]
    exact h.phases

theorem Keeps.handle (h : Keeps p g source log s) (request : Request) :
    Keeps p g source (log ++ [s.handle request]) (s.handle request).after := by
  cases request with
  | phase => exact h.ask rfl rfl rfl
  | isDone => exact h.ask rfl rfl rfl
  | step => exact h.step
  | take => exact h.take

/-! ## All requests -/

/-- What each request keeps all of them keep. -/
theorem Keeps.serve (h : Keeps p g source log s) (requests : List Request) :
    Keeps p g source (log ++ (s.serve requests).1) (s.serve requests).2 := by
  induction requests generalizing s log with
  | nil =>
      rw [Session.serve, List.append_nil]
      exact h
  | cons request requests ih =>
      have hrest := ih (h.handle request)
      rwa [List.append_assoc] at hrest

theorem requests_serve (s : Session α) (requests : List Request) :
    (s.serve requests).1.map (·.request) = requests := by
  induction requests generalizing s with
  | nil => rfl
  | cons request requests ih =>
      have hrequest : (s.handle request).request = request := by cases request <;> rfl
      simp only [serve, List.map_cons, hrequest, ih]

theorem chain_serve (s : Session α) (requests : List Request) :
    s.Chain (s.serve requests).1 (s.serve requests).2 := by
  induction requests generalizing s with
  | nil => rfl
  | cons request requests ih =>
      have hbefore : (s.handle request).before = s := by cases request <;> rfl
      exact ⟨hbefore, ih _⟩

theorem orderly_serve (s : Session α) (requests : List Request) :
    ∀ x ∈ (s.serve requests).1, x.Orderly := by
  induction requests generalizing s with
  | nil => simp [serve]
  | cons request requests ih =>
      intro x hx
      rcases List.mem_cons.mp hx with rfl | hx
      · exact orderly_handle s request
      · exact ih _ x hx

/-- The phase never moves back. -/
theorem rank_le_serve (s : Session α) (requests : List Request) :
    ∀ x ∈ (s.serve requests).1, s.task.phase.rank ≤ x.before.task.phase.rank := by
  induction requests generalizing s with
  | nil => simp [serve]
  | cons request requests ih =>
      have hbefore : (s.handle request).before = s := by cases request <;> rfl
      intro x hx
      rcases List.mem_cons.mp hx with rfl | hx
      · exact Nat.le_of_eq (by rw [hbefore])
      · have hstep := (orderly_handle s request).rank_le
        rw [hbefore] at hstep
        exact Nat.le_trans hstep (ih _ x hx)

theorem forward_serve (s : Session α) (requests : List Request) :
    (s.serve requests).1.Pairwise fun x y =>
      x.after.task.phase.rank ≤ y.before.task.phase.rank := by
  induction requests generalizing s with
  | nil => exact .nil
  | cons request requests ih => exact .cons (rank_le_serve _ requests) (ih _)

/-! ## Running to the end -/

/-- Running some phases is stepping as often. -/
theorem steps_eq_serve (s : Session α) (n : Nat) :
    s.task.steps s.parser n =
      ⟨(s.serve (List.replicate n .step)).2.task, (s.serve (List.replicate n .step)).2.parser,
        callsIn (s.serve (List.replicate n .step)).1⟩ := by
  induction n generalizing s with
  | zero => rfl
  | succ n ih =>
      have hrest := ih (s.handle .step).after
      have htask : (s.handle .step).after.task = (s.task.step s.parser).task := rfl
      have hparser : (s.handle .step).after.parser = (s.task.step s.parser).parser := rfl
      rw [htask, hparser] at hrest
      rw [steps, hrest]
      rfl

/-- Stepping as often as phases are ahead leaves none. -/
theorem Keeps.ahead_serve (h : Keeps p g source log s) {n : Nat}
    (hn : (s.task.ahead p).length ≤ n) :
    (s.serve (List.replicate n .step)).2.task.ahead p = [] := by
  induction n generalizing s log with
  | zero => exact List.eq_nil_of_length_eq_zero (Nat.le_zero.mp hn)
  | succ n ih =>
      refine ih h.step ?_
      obtain ⟨_, _, hahead⟩ := h.stands.step h.fresh
      show ((s.task.step s.parser).task.ahead p).length ≤ n
      cases hdone : s.task.isDone with
      | true =>
          obtain ⟨result, hstate⟩ := exists_done_of_phase (isDone_iff.mp hdone)
          rw [step_of_done (isDone_iff.mp hdone), ahead_of_done hstate]
          exact Nat.zero_le n
      | false =>
          rw [hahead, hdone] at hn
          exact Nat.le_of_succ_le_succ hn

end Session

/-! ## What a session comes to -/

theorem Sound.ahead_ne_nil (h : t.Sound p) : t.ahead p ≠ [] := by
  obtain ⟨goal, source, state⟩ := t
  cases state with
  | compile =>
      unfold ahead Parser.phases
      cases p.grammar.compile p.root <;> cases goal <;> simp
  | symbolize c => cases goal <;> simp [ahead]
  | evaluate c stream => simp [ahead]
  | done result => exact h.elim

end

theorem nodup_phases {p : Parser α} {goal : Goal} : (p.phases goal).Nodup := by
  unfold Parser.phases
  cases p.grammar.compile p.root <;> cases goal <;> simp

/-- What the requests in the log have come to, if `p` is the parser and the task is to find out the
goal on the source. -/
structure Session.Refines (p : Parser α) (goal : Goal) (source : String) (log : List (Service α))
    (s : Session α) : Prop where
  orderly : ∀ x ∈ log, x.Orderly
  forward : log.Pairwise fun x y => x.after.task.phase.rank ≤ y.before.task.phase.rank
  ran_prefix : ran log <+: p.phases goal
  ran_once : (ran log).Nodup
  goesOn : s.task.isDone = false → handed log = [] ∧ callsIn log = []
  done : s.task.isDone = true → callsIn log = p.callsOf goal source ∧
    ((handed log = [] ∧ s.task.state = .done (some (p.answer goal source))) ∨
      (handed log = [p.answer goal source] ∧ s.task.state = .done none))

/-- What comes of running the task to its end after the requests in the log. -/
structure Session.Concludes (p : Parser α) (goal : Goal) (source : String)
    (log : List (Service α)) (s : Session α) : Prop where
  isDone : (s.task.finish s.parser).task.isDone = true
  calls : callsIn log ++ (s.task.finish s.parser).calls = p.callsOf goal source
  result : (handed log = [] ∧
      (s.task.finish s.parser).task.take.1 = some (p.answer goal source)) ∨
    (handed log = [p.answer goal source] ∧ (s.task.finish s.parser).task.take.1 = none)
  /-- Running is stepping through the phases that are left. -/
  steps : ∃ more last, s.serve (List.replicate s.task.remaining .step) = (more, last) ∧
    s.task.finish s.parser = ⟨last.task, last.parser, callsIn more⟩ ∧
    ran log ++ ran more = p.phases goal

namespace Session

variable {p : Parser α} {s : Session α} {goal : Goal} {source : String} {log : List (Service α)}

theorem Keeps.ran_prefix (h : Keeps p goal source log s) : ran log <+: p.phases goal :=
  ⟨_, h.phases⟩

theorem Keeps.goesOn (h : Keeps p goal source log s) (hdone : s.task.isDone = false) :
    handed log = [] ∧ callsIn log = [] := by
  have hnot : ∀ {result}, s.task.state ≠ .done result := by
    intro result hstate
    rw [isDone_iff.mpr (phase_of_done hstate)] at hdone
    cases hdone
  have hstands := h.stands
  generalize handed log = results at hstands ⊢
  generalize callsIn log = calls at hstands ⊢
  cases hstands with
  | goesOn => exact ⟨rfl, rfl⟩
  | holds state => exact absurd state hnot
  | spent state => exact absurd state hnot

theorem Keeps.done (h : Keeps p goal source log s) (hdone : s.task.isDone = true) :
    callsIn log = p.callsOf goal source ∧
    ((handed log = [] ∧ s.task.state = .done (some (p.answer goal source))) ∨
      (handed log = [p.answer goal source] ∧ s.task.state = .done none)) := by
  have hstands := h.stands
  rw [← h.goal, ← h.source]
  generalize handed log = results at hstands ⊢
  generalize callsIn log = calls at hstands ⊢
  cases hstands with
  | goesOn sound => exact absurd (isDone_iff.mp hdone) sound.phase_ne_done
  | holds state => exact ⟨rfl, Or.inl ⟨rfl, state⟩⟩
  | spent state => exact ⟨rfl, Or.inr ⟨rfl, state⟩⟩

theorem Keeps.isDone_of_ahead (h : Keeps p goal source log s) (hahead : s.task.ahead p = []) :
    s.task.isDone = true := by
  have hstands := h.stands
  generalize handed log = results at hstands
  generalize callsIn log = calls at hstands
  rcases hstands with sound | state | state
  · exact absurd hahead sound.ahead_ne_nil
  · exact isDone_iff.mpr (phase_of_done state)
  · exact isDone_iff.mpr (phase_of_done state)

/-- Steps hand nothing out. -/
theorem handed_serve_steps (s : Session α) (n : Nat) :
    handed (s.serve (List.replicate n .step)).1 = [] := by
  induction n generalizing s with
  | zero => rfl
  | succ n ih => exact ih _

theorem Keeps.concludes (h : Keeps p goal source log s) : Concludes p goal source log s := by
  let more := (s.serve (List.replicate s.task.remaining .step)).1
  let last := (s.serve (List.replicate s.task.remaining .step)).2
  have hfinish : s.task.finish s.parser = ⟨last.task, last.parser, callsIn more⟩ :=
    steps_eq_serve s s.task.remaining
  have hlast : Keeps p goal source (log ++ more) last := h.serve _
  have hahead : last.task.ahead p = [] := h.ahead_serve (length_ahead_le s.task p)
  have hhanded : handed (log ++ more) = handed log := by
    unfold handed
    rw [List.filterMap_append]
    show handed log ++ handed more = handed log
    rw [handed_serve_steps, List.append_nil]
  have hdone : last.task.isDone = true := hlast.isDone_of_ahead hahead
  obtain ⟨hcalls, hresult⟩ := hlast.done hdone
  rw [hhanded] at hresult
  rw [callsIn_append] at hcalls
  have hphases := hlast.phases
  rw [hahead, List.append_nil, ran_append] at hphases
  refine ⟨?_, ?_, ?_, more, last, rfl, hfinish, hphases⟩
  · rw [hfinish]
    exact hdone
  · rw [hfinish]
    exact hcalls
  · rw [hfinish]
    rcases hresult with ⟨hnone, hstate⟩ | ⟨hsome, hstate⟩
    · exact Or.inl ⟨hnone, by rw [take_of_done hstate]⟩
    · exact Or.inr ⟨hsome, by rw [take_of_done hstate]⟩

/-- Whatever is asked of a task, in whatever order, it hands out at most once what a call of its
parser answers, its phases run one after the other and each at most once, and running it to its end
hands the answer out unless it is gone. -/
theorem serve_refines (p : Parser α) (goal : Goal) (source : String) (requests : List Request) :
    let start : Session α := ⟨{ goal, source }, p⟩
    let (log, s) := start.serve requests
    log.map (·.request) = requests ∧ start.Chain log s ∧ Refines p goal source log s ∧
      Concludes p goal source log s := by
  intro start
  have hstart : Keeps p goal source [] start := Keeps.start
  have hkeeps := hstart.serve requests
  rw [List.nil_append] at hkeeps
  refine ⟨requests_serve start requests, chain_serve start requests, ?_, hkeeps.concludes⟩
  exact
    { orderly := orderly_serve start requests
      forward := forward_serve start requests
      ran_prefix := hkeeps.ran_prefix
      ran_once := hkeeps.ran_prefix.sublist.nodup nodup_phases
      goesOn := hkeeps.goesOn
      done := hkeeps.done }

end Session

end Task

end Descent
