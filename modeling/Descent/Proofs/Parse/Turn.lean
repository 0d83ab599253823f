import Descent.Parser
import Descent.Proofs.Match.Cost
import Descent.Proofs.Match.Outcome

/-!
# One turn of a parse

A turn tries the root and then settles what came of it: it keeps the match or drops it, and moves
past a symbol unless the symbols are used up. Only the trial looks at the caps. `Tried` says what
comes of it, without caps and with them, and `Progress.settle` is the rest of the turn, for which
neither the attempts left nor the guard matter (`Progress.settle_change`). `Ends` is the loop with
no bound on its turns.
-/

namespace Descent

/-- The state with another number of attempts left. -/
def EvalState.withFuel (s : EvalState) (fuel : Option Nat) : EvalState := { s with fuel }

theorem EvalState.Ready.withFuel {c : CompiledGrammar} {s : EvalState} (h : s.Ready c)
    (fuel : Option Nat) : (s.withFuel fuel).Ready c :=
  ⟨h.guard, h.depth, h.committed⟩

/-- A change of states that leaves the cursor and what is held for furthest alone, and may be made
before or after these change. -/
structure EvalState.Apart (f : EvalState → EvalState) : Prop where
  cursor (s : EvalState) : (f s).cursor = s.cursor
  furthest (s : EvalState) : (f s).furthest = s.furthest
  moved (s : EvalState) (cursor : Cursor) : f { s with cursor } = { f s with cursor }
  forgot (s : EvalState) : f { s with furthest := none } = { f s with furthest := none }

theorem EvalState.apart_withFuel (fuel : Option Nat) : Apart (·.withFuel fuel) :=
  ⟨fun _ => rfl, fun _ => rfl, fun _ _ => rfl, fun _ => rfl⟩

/-! ## Trying the root -/

/-- In the first state the root has been tried without caps: it came to the outcome and left the
second state and these events behind. Caps that the events stay within change nothing but the
attempts left, and others stop the trial. -/
structure Tried (c : CompiledGrammar) (s : EvalState) (o : Option MatchTree) (t : EvalState)
    (es : List Event) : Prop where
  matched : c.matched? s.cursor.symbols c.root s.cursor.position =
    o.map fun tree => (tree, t.cursor.position)
  symbols : t.cursor.symbols = s.cursor.symbols
  le : s.cursor.position ≤ t.cursor.position
  le_size : s.cursor.position ≤ s.cursor.symbols.size → t.cursor.position ≤ s.cursor.symbols.size
  eq_of_none : o = none → t.cursor.position = s.cursor.position
  ready : t.Ready c
  fuel : t.fuel = none
  events : t.events = es.reverse ++ s.events
  balanced : Event.openRules [] es = []
  free : c.evaluate {} c.root s = .ok o t
  allowed : ∀ limits fuel, Event.Within limits fuel [] es →
    c.evaluate limits c.root (s.withFuel fuel) =
      .ok o (t.withFuel (fuel.map (· - Event.attempts es)))
  stopped : ∀ limits fuel, ¬ Event.Within limits fuel [] es → ∃ e u,
    c.evaluate limits c.root (s.withFuel fuel) = .error e u ∧
      Event.StopsShort es s.events e u.events

/-- A run is replayed under caps just as far as its events stay within them. -/
theorem Run.follows_charged {c : CompiledGrammar} {s : EvalState} {id : RuleId} {m q : Nat}
    {o : Option MatchTree} {log : List Note} {l : Ledger} (hc : c.Consistent) (hid : id ∈ c.order)
    (hs : s.Ready c) (hfuel : s.fuel = none)
    (h : Run c s.cursor.symbols m (.leaf (.rule id)) s.cursor.position
      (o.map fun tree => [tree]) q log)
    (hreplay : s.ledger.replay {} log = .ok l) (limits : Limits) (fuel : Option Nat) :
    (Event.Within limits fuel [] (Note.events log) → c.evaluate limits id (s.withFuel fuel) =
      .ok o ((s.resume l q).withFuel (fuel.map (· - Event.attempts (Note.events log))))) ∧
    (¬ Event.Within limits fuel [] (Note.events log) → ∃ e u,
      c.evaluate limits id (s.withFuel fuel) = .error e u ∧
        Event.StopsShort (Note.events log) s.events e u.events) := by
  -- the record is replayed from the same ledger twice, with the attempts left and without a cap
  let l₀ : Ledger := (s.withFuel fuel).ledger
  have hl₀ : l₀.withFuel none = s.ledger := by
    unfold EvalState.ledger
    rw [hfuel]
    rfl
  have hfollows := h.follows (s := s.withFuel fuel) hc hid (hs.withFuel fuel) limits
  have hcharged : Ledger.Charged limits l₀ [] (Note.events log) ((l₀.withFuel none).replay {} log)
      (l₀.replay limits log) := Ledger.charged_replay log hs.depth fun _ _ => Nat.zero_le _
  rw [hl₀, hreplay] at hcharged
  cases hlog : l₀.replay limits log with
  | error e =>
      rw [hlog] at hcharged
      obtain ⟨hnot, hshort⟩ := hcharged
      obtain ⟨q', heval⟩ := hfollows.of_replay_error hlog
      exact ⟨fun hwithin => absurd hwithin hnot, fun _ => ⟨e.1, _, heval, hshort⟩⟩
  | ok l' =>
      rw [hlog] at hcharged
      obtain ⟨hwithin, _, hleft, hfree⟩ := hcharged
      have hleft : l'.fuel = fuel.map (· - Event.attempts (Note.events log)) := hleft
      refine ⟨fun _ => ?_, fun hnot => absurd hwithin hnot⟩
      rw [hfollows.of_replay_ok hlog, Except.ok.inj hfree, ← hleft]
      rfl

/-- Without caps the root can be tried, whatever has happened before. -/
theorem exists_tried {c : CompiledGrammar} {s : EvalState} (hc : c.Consistent)
    (hroot : c.root ∈ c.order) (hs : s.Ready c) (hfuel : s.fuel = none) :
    ∃ o t es, Tried c s o t es := by
  obtain ⟨o, q, log, l, hrun, hreplay, hleft, heval⟩ := evaluate_free hc hroot hs hfuel
  have hcharged := hrun.follows_charged hc hroot hs hfuel hreplay
  obtain ⟨hle, hsize⟩ := hrun.position_le hc
  refine ⟨o, s.resume l q, Note.events log, ?_⟩
  exact
    { matched := CompiledGrammar.matched?_of_run hc hroot hrun
      symbols := rfl
      le := hle
      le_size := hsize
      eq_of_none := fun hnone => hrun.eq_back (by rw [hnone]; rfl)
      ready := hs.resume hle l
      fuel := hleft
      events := Ledger.events_replay hreplay
      balanced := hrun.nested.openRules_eq
      free := heval
      allowed := fun limits fuel => (hcharged limits fuel).1
      stopped := fun limits fuel => (hcharged limits fuel).2 }

/-! ## Settling what came of it -/

namespace Progress

variable {α : Type}

def withFuel (p : Progress α) (fuel : Option Nat) : Progress α :=
  { p with eval := p.eval.withFuel fuel }

/-- The parse with its state changed. -/
def change (f : EvalState → EvalState) (p : Progress α) : Progress α :=
  { p with eval := f p.eval }

section

variable (g : Grammar α) (c : CompiledGrammar) (n : Nat)

/-- The parse with a match of the root taken over. -/
def keep (p : Progress α) (eval : EvalState) (tree : MatchTree) : Progress α :=
  { ({ p with eval := { eval with furthest := none } } : Progress α).accept g c tree with
    first := false }

/-- The parse with nothing taken over. -/
def drop (p : Progress α) (eval : EvalState) : Progress α :=
  { p with eval := { eval with furthest := none }, first := false }

/-- What a turn does once the root has been tried. A match that reads nothing is taken over only at
the first symbol. -/
def settle (p : Progress α) (tree : Option MatchTree) (eval : EvalState) :
    Except Fault Bool × Progress α :=
  match tree.filter fun _ => p.first || eval.cursor.position > p.eval.cursor.position with
  | some t =>
    if eval.cursor.isAtEnd then (.ok false, p.keep g c eval t)
    else (.ok true, ((p.keep g c eval t).reportOnce c n eval.furthest).skip)
  | none => (.ok (!eval.cursor.isAtEnd), ((p.drop eval).reportOnce c n eval.furthest).skip)

/-- The loop ends so after a number of turns. -/
inductive Ends (limits : Limits) : Nat → Progress α → Except Fault Unit → Progress α → Prop where
  | stops {p q} (h : p.attempt g c limits n = (.ok false, q)) : Ends limits 1 p (.ok ()) q
  | fails {p q e} (h : p.attempt g c limits n = (.error e, q)) : Ends limits 1 p (.error e) q
  | goesOn {k p q r o} (h : p.attempt g c limits n = (.ok true, q)) (rest : Ends limits k q o r) :
      Ends limits (k + 1) p o r

end

variable {g : Grammar α} {c : CompiledGrammar} {n : Nat} {p q : Progress α} {limits : Limits}
  {tree : Option MatchTree} {eval : EvalState} {fuel fuel' : Option Nat}

/-- More turns than the loop takes change nothing. -/
theorem Ends.run_eq {k turns : Nat} {o : Except Fault Unit} (h : Ends g c n limits k p o q)
    (hk : k ≤ turns) : p.run g c limits n turns = (o, q) := by
  induction h generalizing turns with
  | stops h | fails h =>
      obtain ⟨turns, rfl⟩ : ∃ i, turns = i + 1 := ⟨turns - 1, by omega⟩
      unfold run
      rw [h]
  | goesOn h _ ih =>
      obtain ⟨turns, rfl⟩ : ∃ i, turns = i + 1 := ⟨turns - 1, by omega⟩
      unfold run
      rw [h]
      exact ih (Nat.le_of_succ_le_succ hk)

/-! ## The parts of a turn -/

theorem accept_eq (t : MatchTree) : p.accept g c t =
    let r := t.resolve g c p.eval.cursor.symbols p.calls
    { p with
      eval := { p.eval with cursor := p.eval.cursor.commit }
      parse := if p.first then { p.parse with value := some r.1 }
        else { p.parse with recovered := p.parse.recovered ++ [r.1] }
      calls := r.2
      reporting := true } :=
  rfl

theorem attempt_of_ok (h : c.evaluate limits c.root p.eval = .ok tree eval) :
    p.attempt g c limits n = p.settle g c n tree eval := by
  unfold attempt settle
  rw [h]
  dsimp only
  cases tree.filter fun _ => p.first || decide (eval.cursor.position > p.eval.cursor.position) with
  | none => rfl
  | some t =>
      show (if (eval.cursor.isAtEnd = true) then _ else _) = _
      by_cases hend : eval.cursor.isAtEnd = true
      · rw [if_pos hend]
        exact (if_pos hend).symm
      · rw [if_neg hend]
        refine Eq.trans ?_ (if_neg hend).symm
        rw [Bool.not_eq_true] at hend
        exact congrArg (fun b => (Except.ok (!b), _)) hend

theorem attempt_of_error {e : Fault} (h : c.evaluate limits c.root p.eval = .error e eval) :
    p.attempt g c limits n = (.error e, { p with eval }) := by
  unfold attempt
  rw [h]

theorem exists_settle_fst : ∃ b, (p.settle g c n tree eval).1 = .ok b := by
  unfold settle
  split
  · split
    · exact ⟨_, rfl⟩
    · exact ⟨_, rfl⟩
  · exact ⟨_, rfl⟩

section

variable {g' : Grammar α} {c' : CompiledGrammar} {f f₀ : EvalState → EvalState}

theorem accept_change (hf : EvalState.Apart f) {t : MatchTree}
    (hresolve : ∀ log, t.resolve g' c' p.eval.cursor.symbols log =
      t.resolve g c p.eval.cursor.symbols log) :
    (p.change f).accept g' c' t = (p.accept g c t).change f := by
  obtain ⟨s, parse, calls, first, reporting⟩ := p
  have hmoved := hf.moved s s.cursor.commit
  rw [accept_eq, accept_eq]
  unfold change
  dsimp only at hresolve ⊢
  rw [hf.cursor, hresolve, hmoved]

theorem keep_change (hf : EvalState.Apart f) {t : MatchTree}
    (hresolve : ∀ log,
      t.resolve g' c' eval.cursor.symbols log = t.resolve g c eval.cursor.symbols log) :
    (p.change f₀).keep g' c' (f eval) t = (p.keep g c eval t).change f := by
  let tried : Progress α := { p with eval := { eval with furthest := none } }
  have htried : { p.change f₀ with eval := { f eval with furthest := none } } = tried.change f :=
    congrArg (fun s => { p with eval := s }) (hf.forgot eval).symm
  unfold keep
  rw [htried, accept_change (p := tried) hf hresolve]
  rfl

theorem reportOnce_change (hf : EvalState.Apart f)
    (hreport : ∀ symbols k furthest, c'.report symbols n k furthest = c.report symbols n k furthest)
    (furthest : Option Furthest) :
    (p.change f).reportOnce c' n furthest = (p.reportOnce c n furthest).change f := by
  obtain ⟨s, parse, calls, first, _ | _⟩ := p
  · rfl
  · have hd := hreport s.cursor.symbols s.cursor.position furthest
    rw [← hf.cursor] at hd
    unfold reportOnce change
    dsimp only
    rw [if_pos rfl, if_pos rfl, hd, hf.cursor]

theorem skip_change (hf : EvalState.Apart f) : (p.change f).skip = p.skip.change f := by
  have hmoved := hf.moved p.eval p.eval.cursor.advance.2.commit
  unfold skip change
  dsimp only
  rw [hf.cursor, hmoved]

theorem drop_change (hf : EvalState.Apart f) :
    (p.change f₀).drop (f eval) = (p.drop eval).change f := by
  have hforgot := hf.forgot eval
  unfold drop change
  dsimp only
  rw [hforgot]

/-- Once the root has been tried, the rest of a turn comes to the same with such a change made
before, and with a grammar that reports and resolves the same. -/
theorem settle_change (hf₀ : EvalState.Apart f₀) (hf : EvalState.Apart f)
    (hreport : ∀ symbols k furthest, c'.report symbols n k furthest = c.report symbols n k furthest)
    (hresolve : ∀ t, tree = some t → ∀ log,
      t.resolve g' c' eval.cursor.symbols log = t.resolve g c eval.cursor.symbols log) :
    (p.change f₀).settle g' c' n tree (f eval) =
      ((p.settle g c n tree eval).1, (p.settle g c n tree eval).2.change f) := by
  have hstart : (p.change f₀).eval.cursor = p.eval.cursor := hf₀.cursor p.eval
  have hfirst : (p.change f₀).first = p.first := rfl
  unfold settle
  rw [hstart, hfirst, hf.cursor, hf.furthest, drop_change hf]
  cases hkept : tree.filter fun _ =>
      p.first || decide (eval.cursor.position > p.eval.cursor.position) with
  | none => rw [reportOnce_change hf hreport, skip_change hf]
  | some t =>
      dsimp only
      rw [keep_change hf (hresolve t (Option.filter_eq_some_iff.mp hkept).1),
        reportOnce_change hf hreport, skip_change hf]
      split <;> rfl

end

/-- The attempts left do not matter once the root has been tried. -/
theorem settle_withFuel : (p.withFuel fuel).settle g c n tree (eval.withFuel fuel') =
    ((p.settle g c n tree eval).1, (p.settle g c n tree eval).2.withFuel fuel') :=
  settle_change (EvalState.apart_withFuel fuel) (EvalState.apart_withFuel fuel')
    (fun _ _ _ => rfl) fun _ _ _ => rfl

theorem eval_reportOnce (f : Option Furthest) : (p.reportOnce c n f).eval = p.eval := by
  unfold reportOnce
  split <;> rfl

theorem eval_skip (f : Option Furthest) : (p.reportOnce c n f).skip.eval =
    { p.eval with cursor := p.eval.cursor.advance.2.commit } := by
  unfold skip
  rw [eval_reportOnce]

theorem symbols_advance (cursor : Cursor) : cursor.advance.2.symbols = cursor.symbols := by
  unfold Cursor.advance
  split <;> rfl

/-- Nothing but the cursor of the state changes once the root has been tried, and what lies before
the cursor is settled. -/
theorem exists_eval_settle (g : Grammar α) (c : CompiledGrammar) (n : Nat) (p : Progress α)
    (tree : Option MatchTree) (eval : EvalState) :
    ∃ cursor, (p.settle g c n tree eval).2.eval =
        { eval with cursor := cursor, furthest := none } ∧
      cursor.symbols = eval.cursor.symbols ∧ cursor.committed = cursor.position := by
  unfold settle
  split
  · next t _ =>
      split
      · exact ⟨eval.cursor.commit, rfl, rfl, rfl⟩
      · exact ⟨eval.cursor.commit.advance.2.commit, eval_skip _, symbols_advance _, rfl⟩
  · exact ⟨eval.cursor.advance.2.commit, eval_skip _, symbols_advance _, rfl⟩

theorem ready_settle (h : eval.Ready c) : (p.settle g c n tree eval).2.eval.Ready c := by
  obtain ⟨cursor, heval, _, hcommitted⟩ := exists_eval_settle g c n p tree eval
  rw [heval]
  exact ⟨h.guard, h.depth, hcommitted.le⟩

theorem events_settle : (p.settle g c n tree eval).2.eval.events = eval.events := by
  obtain ⟨cursor, heval, _⟩ := exists_eval_settle g c n p tree eval
  rw [heval]

theorem symbols_settle :
    (p.settle g c n tree eval).2.eval.cursor.symbols = eval.cursor.symbols := by
  obtain ⟨cursor, heval, hsymbols, _⟩ := exists_eval_settle g c n p tree eval
  rw [heval]
  exact hsymbols

theorem fuel_settle : (p.settle g c n tree eval).2.eval.fuel = eval.fuel := by
  obtain ⟨cursor, heval, _⟩ := exists_eval_settle g c n p tree eval
  rw [heval]

end Progress

end Descent
