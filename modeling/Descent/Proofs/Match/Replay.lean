import Descent.Proofs.Match.Run

/-!
# Replaying a record

The caps count attempts and open rules, both of which the record of an evaluation tells. So what an
evaluation does under caps is settled by its record alone: `Follows` says that it comes to its
outcome if the record can be replayed on the ledger of attempts left, and stops with the same fault
where it cannot. Either way guard and depth are what they were.
-/

namespace Descent

/-- What evaluation keeps account of besides the cursor and the guard. -/
structure Ledger where
  depth : Nat
  fuel : Option Nat
  furthest : Option Furthest
  events : List Event

namespace Ledger

/-- Pays for one attempt. -/
def pay (l : Ledger) : Except (Fault × Ledger) Ledger :=
  match l.fuel with
  | none => .ok l
  | some 0 => .error (.fuelExhausted, l)
  | some (n + 1) => .ok { l with fuel := some n }

def enter (limits : Limits) (l : Ledger) : Except (Fault × Ledger) Ledger :=
  if limits.depth.any (· ≤ l.depth) then .error (.recursionLimitExceeded, l)
  else .ok { l with depth := l.depth + 1 }

/-- The ledger right after a rule was entered with `depth` rules open. -/
def entered (l : Ledger) (depth : Nat) (id : RuleId) (p : Nat) : Ledger :=
  { l with depth := depth + 1, events := .enter id p :: l.events }

def leave (l : Ledger) : Ledger := { l with depth := l.depth - 1 }

def write (e : Event) (l : Ledger) : Ledger := { l with events := e :: l.events }

/-- Takes down one note, if the caps allow it. -/
def take (limits : Limits) (l : Ledger) : Note → Except (Fault × Ledger) Ledger
  | .event (.enter rule p) => do return (← (← l.pay).enter limits).write (.enter rule p)
  | .event (.exit rule matched p) => .ok (l.leave.write (.exit rule matched p))
  | .event (.took t x) => do return (← l.pay).write (.took t x)
  | .event (.missed t x) => do return (← l.pay).write (.missed t x)
  | .event e => .ok (l.write e)
  | .failed p first => .ok { l with furthest := Furthest.update l.furthest p first }

/-- Takes down a record, up to the first note that the caps forbid. -/
def replay (limits : Limits) (l : Ledger) (log : List Note) : Except (Fault × Ledger) Ledger :=
  log.foldlM (take limits) l

variable {limits : Limits}

theorem depth_pay {l l' : Ledger} (h : l.pay = .ok l') : l'.depth = l.depth := by
  unfold pay at h
  split at h <;> cases h <;> rfl

theorem events_pay {l l' : Ledger} (h : l.pay = .ok l') : l'.events = l.events := by
  unfold pay at h
  split at h <;> cases h <;> rfl

theorem furthest_pay {l l' : Ledger} (h : l.pay = .ok l') : l'.furthest = l.furthest := by
  unfold pay at h
  split at h <;> cases h <;> rfl

@[simp] theorem replay_nil (l : Ledger) : l.replay limits [] = .ok l := rfl

theorem replay_cons (l : Ledger) (n : Note) (log : List Note) :
    l.replay limits (n :: log) = (l.take limits n).bind fun l => l.replay limits log :=
  rfl

theorem replay_enter (l : Ledger) (id : RuleId) (p : Nat) (log : List Note) :
    l.replay limits (.event (.enter id p) :: log) =
      l.pay.bind fun l => (l.enter limits).bind fun l =>
        (l.write (.enter id p)).replay limits log := by
  rw [replay_cons]
  show (l.pay.bind fun l => (l.enter limits).bind fun l => .ok (l.write (.enter id p))).bind
    (fun l => l.replay limits log) = _
  cases l.pay with
  | error e => rfl
  | ok l =>
      show ((l.enter limits).bind fun l => .ok (l.write (.enter id p))).bind
        (fun l => l.replay limits log) = (l.enter limits).bind _
      cases l.enter limits with
      | error e => rfl
      | ok l => rfl

theorem replay_append (l : Ledger) (log log' : List Note) :
    l.replay limits (log ++ log') = (l.replay limits log).bind fun l => l.replay limits log' := by
  unfold replay
  rw [List.foldlM_append]
  rfl

end Ledger

namespace Eval

variable {β γ : Type} {s t : EvalState} {x : Eval β} {f : β → Eval γ}

theorem bind_ok {b : β} (h : x s = .ok b t) : (x >>= f) s = f b t := by
  show EStateM.bind x f s = f b t
  unfold EStateM.bind
  rw [h]

theorem bind_error {e : Fault} (h : x s = .error e t) : (x >>= f) s = .error e t := by
  show EStateM.bind x f s = .error e t
  unfold EStateM.bind
  rw [h]

theorem get_bind {k : EvalState → Eval β} : (get >>= k) s = k s s :=
  rfl

end Eval

/-- The state with another position, and with another ledger but for its depth. -/
def EvalState.resume (s : EvalState) (l : Ledger) (p : Nat) : EvalState :=
  { s with
    cursor := { s.cursor with position := p }
    fuel := l.fuel
    furthest := l.furthest
    events := l.events }

/-- In the state, but at `p`, the evaluation comes to the outcome and stops at `q`, as far as the
record can be replayed; else it stops with the fault that the replay stops with. -/
def Follows {β : Type} (limits : Limits) (s : EvalState) (p : Nat) (x : Eval β) (b : β) (q : Nat)
    (log : List Note) : Prop :=
  ∀ l : Ledger, l.depth = s.depth →
    match l.replay limits log with
    | .ok l' => l'.depth = s.depth ∧ x (s.resume l p) = .ok b (s.resume l' q)
    | .error (e, l') => ∃ q', x (s.resume l p) = .error e (s.resume l' q')

namespace Follows

variable {β γ : Type} {limits : Limits} {s : EvalState} {p q r : Nat} {x : Eval β}
  {f : β → Eval γ} {b : β} {b' : γ} {log log' : List Note}

protected theorem pure : Follows limits s p (pure b) b p [] :=
  fun _ hl => ⟨hl, rfl⟩

protected theorem bind (hx : Follows limits s p x b q log)
    (hf : Follows limits s q (f b) b' r log') :
    Follows limits s p (x >>= f) b' r (log ++ log') := by
  intro l hl
  have hfirst := hx l hl
  rw [Ledger.replay_append]
  cases hreplay : l.replay limits log with
  | error e =>
      rw [hreplay] at hfirst
      obtain ⟨q', hfirst⟩ := hfirst
      exact ⟨q', Eval.bind_error hfirst⟩
  | ok l' =>
      rw [hreplay] at hfirst
      obtain ⟨hdepth, hfirst⟩ := hfirst
      have hsecond := hf l' hdepth
      show match l'.replay limits log' with
        | .ok l'' => l''.depth = s.depth ∧ (x >>= f) (s.resume l p) = .ok b' (s.resume l'' r)
        | .error (e, l'') => ∃ q', (x >>= f) (s.resume l p) = .error e (s.resume l'' q')
      rw [Eval.bind_ok hfirst]
      exact hsecond

protected theorem map (h : β → γ) (hx : Follows limits s p x b q log) :
    Follows limits s p (do return h (← x)) (h b) q log := by
  have hbind := hx.bind (f := fun b => pure (h b)) Follows.pure
  rwa [List.append_nil] at hbind

/-- An evaluation that only looks before it goes on. -/
protected theorem get {k : EvalState → Eval β} {y : Eval β} (hk : ∀ l, k (s.resume l p) = y)
    (hy : Follows limits s p y b q log) : Follows limits s p (get >>= k) b q log := by
  intro l hl
  rw [Eval.get_bind, hk]
  exact hy l hl

theorem position : Follows limits s p Eval.position p p [] :=
  fun _ hl => ⟨hl, rfl⟩

theorem moveBack {move : Cursor → Except CursorError Cursor}
    (h : move { s.cursor with position := p } = .ok { s.cursor with position := q }) :
    Follows limits s p (Eval.moveBack move) () q [] := by
  intro l hl
  refine ⟨hl, ?_⟩
  unfold Eval.moveBack
  rw [Eval.get_bind]
  have hmove : move (s.resume l p).cursor = .ok { s.cursor with position := q } := h
  rw [hmove]
  rfl

theorem expect (step : CompiledStep) (failed : Nat) :
    Follows limits s p (Eval.expect step failed) () p [.failed failed step.first] :=
  fun _ hl => ⟨hl, rfl⟩

/-- What a rule has read is given back, and a note is left if it is anything. -/
theorem backtrack {rule : RuleId} {source target : Nat}
    {move : Cursor → Except CursorError Cursor}
    (h : move { s.cursor with position := p } = .ok { s.cursor with position := q }) :
    Follows limits s p
      (do
        if source > target then Eval.emit (.backtrack rule source target)
        Eval.moveBack move
        return b) b q (Note.backtrack rule source target) := by
  unfold Note.backtrack
  split
  · next hlt =>
      have hemit : Follows limits s p (Eval.emit (.backtrack rule source target)) () p
          [.event (.backtrack rule source target)] :=
        fun _ hl => ⟨hl, rfl⟩
      exact hemit.bind ((moveBack h).bind Follows.pure)
  · exact (moveBack h).bind Follows.pure

theorem burn_resume (l : Ledger) : Eval.burn (s.resume l p) =
    match l.pay with
    | .ok l' => .ok () (s.resume l' p)
    | .error (e, l') => .error e (s.resume l' p) := by
  obtain ⟨depth, fuel, furthest, events⟩ := l
  cases fuel with
  | none => rfl
  | some n => cases n <;> rfl

/-- An attempt that is paid for and then leaves one note. -/
theorem paid {y : Eval β} {e : Event}
    (htake : ∀ l : Ledger, l.take limits (.event e) = l.pay.map (Ledger.write e))
    (hy : ∀ l, y (s.resume l p) = .ok b (s.resume (l.write e) q)) :
    Follows limits s p (do Eval.burn; y) b q [.event e] := by
  intro l hl
  have hburn := burn_resume (s := s) (p := p) l
  rw [Ledger.replay_cons, htake]
  cases hpay : l.pay with
  | error e =>
      rw [hpay] at hburn
      exact ⟨p, Eval.bind_error hburn⟩
  | ok l' =>
      rw [hpay] at hburn
      refine ⟨(Ledger.depth_pay hpay).trans hl, ?_⟩
      rw [Eval.bind_ok hburn]
      exact hy l'

section Terminal

variable {c : CompiledGrammar} {id : TerminalId}

theorem took {y : Symbol} (hy : s.cursor.symbols[p]? = some y)
    (haccepts : c.accepts id y.terminal = true) :
    Follows limits s p (Eval.terminal c id) (some (.symbol p)) (p + 1) [.event (.took id y)] := by
  refine paid (fun l => rfl) fun l => ?_
  have hpeek : (s.resume l p).cursor.peek? = some y := hy
  rw [Eval.get_bind, hpeek]
  show (if c.accepts id y.terminal then _ else _ : Eval (Option MatchTree)) (s.resume l p) = _
  rw [if_pos haccepts]
  unfold Cursor.advance
  rw [hpeek]
  rfl

theorem missed (h : ∀ y, s.cursor.symbols[p]? = some y → c.accepts id y.terminal = false) :
    Follows limits s p (Eval.terminal c id) none p
      [.event (.missed id s.cursor.symbols[p]?)] := by
  refine paid (fun l => rfl) fun l => ?_
  have hpeek : (s.resume l p).cursor.peek? = s.cursor.symbols[p]? := rfl
  rw [Eval.get_bind, hpeek]
  cases hy : s.cursor.symbols[p]? with
  | none => rfl
  | some y =>
      show (if c.accepts id y.terminal then _ else _ : Eval (Option MatchTree)) (s.resume l p) = _
      rw [if_neg (Bool.eq_false_iff.mp (h y hy))]
      rfl

end Terminal

end Follows

/-! ## Entering a rule -/

/-- The state inside a rule that is entered at `p`. -/
def EvalState.within (s : EvalState) (id : RuleId) (p : Nat) : EvalState :=
  { s with guard := s.guard.setIfInBounds id.index ⟨some p, 0⟩, depth := s.depth + 1 }

theorem setIfInBounds_saved {guard : Array GuardEntry} {i : Nat} {entry : GuardEntry} :
    (guard.setIfInBounds i entry).setIfInBounds i (guard[i]?.getD {}) = guard := by
  rw [Array.setIfInBounds_setIfInBounds]
  by_cases h : i < guard.size <;> simp [Array.setIfInBounds, h]

namespace Eval

variable {β : Type} {s : EvalState} {id : RuleId} {p q : Nat} {l l' : Ledger} {run : Eval β}

/-- Leaving a rule, guard and depth are what they were outside. -/
theorem close_within :
    { (s.within id p).resume l q with
      guard := (s.within id p).guard.setIfInBounds id.index (s.guard[id.index]?.getD {})
      depth := (s.within id p).depth - 1 } = s.resume l q := by
  simp only [EvalState.resume, EvalState.within, setIfInBounds_saved, Nat.add_sub_cancel]

theorem opened_ok {b : β}
    (h : run ((s.within id p).resume l p) = .ok b ((s.within id p).resume l' q)) :
    opened id ⟨some p, 0⟩ run (s.resume l p) = .ok b (s.resume l' q) := by
  have hrun : run { s.resume l p with
      guard := (s.resume l p).guard.setIfInBounds id.index ⟨some p, 0⟩
      depth := (s.resume l p).depth + 1 } = _ := h
  unfold opened
  dsimp only
  rw [hrun]
  exact congrArg (EStateM.Result.ok b) close_within

theorem opened_error {e : Fault}
    (h : run ((s.within id p).resume l p) = .error e ((s.within id p).resume l' q)) :
    opened id ⟨some p, 0⟩ run (s.resume l p) = .error e (s.resume l' q) := by
  have hrun : run { s.resume l p with
      guard := (s.resume l p).guard.setIfInBounds id.index ⟨some p, 0⟩
      depth := (s.resume l p).depth + 1 } = _ := h
  unfold opened
  dsimp only
  rw [hrun]
  exact congrArg (EStateM.Result.error e) close_within

variable {c : CompiledGrammar} {limits : Limits} {k : Nat} {r : CompiledRule}

/-- What is left to do for a rule that may be entered. -/
def inside (c : CompiledGrammar) (limits : Limits) (k : Nat) (id : RuleId) (r : CompiledRule)
    (p : Nat) : Eval (Option MatchTree) := do
  let children ← opened id ⟨some p, 0⟩ do
    emit (.enter id p)
    body c (Eval.rule c limits k) id r.body
  emit (.exit id children.isSome (← position))
  return children.map (.rule id)

theorem rule_unpaid {e : Fault} (hpay : l.pay = .error (e, l')) :
    Eval.rule c limits (k + 1) id (s.resume l p) = .error e (s.resume l' p) := by
  have hburn := Follows.burn_resume (s := s) (p := p) l
  rw [hpay] at hburn
  unfold Eval.rule
  exact bind_error hburn

theorem rule_paid (hr : c.rule? id = some r)
    (hguard : (s.guard[id.index]?.getD {}).position ≠ some p) (hpay : l.pay = .ok l') :
    Eval.rule c limits (k + 1) id (s.resume l p) =
      if limits.depth.any (· ≤ s.depth) then .error .recursionLimitExceeded (s.resume l' p)
      else inside c limits k id r p (s.resume l' p) := by
  have hburn := Follows.burn_resume (s := s) (p := p) l
  rw [hpay] at hburn
  unfold Eval.rule
  have hentry : ((s.resume l' p).guard[id.index]?.getD {}).position ≠
      some (s.resume l' p).cursor.position := hguard
  rw [bind_ok hburn, hr]
  show (get >>= _ : Eval (Option MatchTree)) (s.resume l' p) = _
  rw [get_bind, if_neg hentry, if_neg (by decide)]
  by_cases hcap : limits.depth.any (· ≤ (s.resume l' p).depth) = true
  · rw [if_pos hcap]
    exact (if_pos hcap).symm
  · rw [if_neg hcap]
    exact (if_neg hcap).symm

end Eval

section

variable {limits : Limits} {c : CompiledGrammar} {s : EvalState} {k p q : Nat} {id : RuleId}
  {r : CompiledRule} {o : Option (List MatchTree)} {log : List Note}

/-- A rule that may be entered follows the record of its body between two more notes. -/
theorem Follows.inside
    (hbody : Follows limits (s.within id p) p (Eval.body c (Eval.rule c limits k) id r.body) o q
      log) (l : Ledger) :
    match (l.entered s.depth id p).replay limits (log ++ [.event (.exit id o.isSome q)]) with
    | .ok l' => l'.depth = s.depth ∧
        Eval.inside c limits k id r p (s.resume l p) = .ok (o.map (.rule id)) (s.resume l' q)
    | .error (e, l') => ∃ q', Eval.inside c limits k id r p (s.resume l p) =
        .error e (s.resume l' q') := by
  let run : Eval (Option (List MatchTree)) := Eval.body c (Eval.rule c limits k) id r.body
  have hemit : (Eval.emit (.enter id p) >>= fun _ => run) ((s.within id p).resume l p) =
      run ((s.within id p).resume (l.entered s.depth id p) p) := rfl
  have hfollows := hbody (l.entered s.depth id p) rfl
  rw [Ledger.replay_append]
  unfold Eval.inside
  cases hreplay : (l.entered s.depth id p).replay limits log with
  | error e =>
      rw [hreplay] at hfollows
      obtain ⟨q', hfollows⟩ := hfollows
      exact ⟨q', Eval.bind_error (Eval.opened_error (hemit.trans hfollows))⟩
  | ok l' =>
      rw [hreplay] at hfollows
      obtain ⟨hdepth, hfollows⟩ := hfollows
      refine ⟨?_, ?_⟩
      · show l'.depth - 1 = s.depth
        rw [hdepth]
        exact Nat.add_sub_cancel s.depth 1
      · rw [Eval.bind_ok (Eval.opened_ok (hemit.trans hfollows))]
        rfl

theorem Follows.rule (hr : c.rule? id = some r)
    (hguard : (s.guard[id.index]?.getD {}).position ≠ some p)
    (hbody : Follows limits (s.within id p) p (Eval.body c (Eval.rule c limits k) id r.body) o q
      log) :
    Follows limits s p (Eval.rule c limits (k + 1) id) (o.map (.rule id)) q
      (.event (.enter id p) :: log ++ [.event (.exit id o.isSome q)]) := by
  intro l hl
  rw [List.cons_append, Ledger.replay_enter]
  cases hpay : l.pay with
  | error e => exact ⟨p, Eval.rule_unpaid hpay⟩
  | ok l' =>
      have hdepth : l'.depth = s.depth := (Ledger.depth_pay hpay).trans hl
      rw [Eval.rule_paid hr hguard hpay]
      unfold Ledger.enter
      simp only [Except.bind, hdepth]
      by_cases hcap : limits.depth.any (· ≤ s.depth) = true
      · rw [if_pos hcap, if_pos hcap]
        exact ⟨p, rfl⟩
      · rw [if_neg hcap, if_neg hcap]
        exact Follows.inside hbody l'

end

end Descent
