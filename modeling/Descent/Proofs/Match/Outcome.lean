import Descent.Proofs.Match.Nesting

/-!
# What comes of a rule

A run is settled by where it begins (`Run.functional`), so a rule has one outcome at a position,
whatever the caps are and whatever has been tried before: caps can only stop its evaluation
(`Run.follows`). `CompiledGrammar.matched?` is that outcome.
-/

namespace Descent

namespace Run

variable {c : CompiledGrammar} {symbols : Array Symbol} {m m' p q q' : Nat} {x : Fragment}
  {o o' : Option (List MatchTree)} {log log' : List Note}

/-- A run has one outcome, whatever bounds the rules it may enter. -/
theorem functional (h : Run c symbols m x p o q log) (h' : Run c symbols m' x p o' q' log') :
    o = o' ∧ q = q' ∧ log = log' := by
  -- where two constructors of a fragment differ, a part that both have comes out differently
  induction h generalizing m' o' q' log' with
  | took hx haccepts =>
      cases h' with
      | took hx' _ =>
          cases hx.symm.trans hx'
          exact ⟨rfl, rfl, rfl⟩
      | missed h =>
          rw [h _ hx] at haccepts
          cases haccepts
  | missed h =>
      cases h' with
      | took hx haccepts =>
          rw [h _ hx] at haccepts
          cases haccepts
      | missed => exact ⟨rfl, rfl, rfl⟩
  | rule hr _ _ ih =>
      cases h' with
      | rule hr' _ h' =>
          cases hr.symm.trans hr'
          obtain ⟨rfl, rfl, rfl⟩ := ih h'
          exact ⟨rfl, rfl, rfl⟩
  | exhausted =>
      cases h' with
      | exhausted => exact ⟨rfl, rfl, rfl⟩
  | first _ ih =>
      cases h' with
      | first h' => exact ih h'
      | next h' _ => cases (ih h').1
  | next _ _ ih ihrest =>
      cases h' with
      | first h' => cases (ih h').1
      | next h' hrest =>
          obtain ⟨_, _, rfl⟩ := ih h'
          obtain ⟨rfl, rfl, rfl⟩ := ihrest hrest
          exact ⟨rfl, rfl, rfl⟩
  | step _ _ ih =>
      cases h' with
      | step _ h' => exact ih h'
  | done =>
      cases h' with
      | done => exact ⟨rfl, rfl, rfl⟩
  | matched _ _ ih ihrest =>
      cases h' with
      | matched h' hrest =>
          obtain ⟨⟨⟩, rfl, rfl⟩ := ih h'
          obtain ⟨rfl, rfl, rfl⟩ := ihrest hrest
          exact ⟨rfl, rfl, rfl⟩
      | absent h' => cases (ih h').1
      | failed h' => cases (ih h').1
  | absent _ hoptional _ ih ihrest =>
      cases h' with
      | matched h' => cases (ih h').1
      | absent h' _ hrest =>
          obtain ⟨_, _, rfl⟩ := ih h'
          obtain ⟨rfl, rfl, rfl⟩ := ihrest hrest
          exact ⟨rfl, rfl, rfl⟩
      | failed _ hoptional' =>
          rw [hoptional] at hoptional'
          cases hoptional'
  | failed _ hoptional ih =>
      cases h' with
      | matched h' => cases (ih h').1
      | absent _ hoptional' =>
          rw [hoptional] at hoptional'
          cases hoptional'
      | failed h' =>
          obtain ⟨_, _, rfl⟩ := ih h'
          exact ⟨rfl, rfl, rfl⟩
  | unseparated _ ih =>
      cases h' with
      | unseparated h' =>
          obtain ⟨_, _, rfl⟩ := ih h'
          exact ⟨rfl, rfl, rfl⟩
      | givenBack h' => cases (ih h').1
      | stalled h' => cases (ih h').1
      | item h' => cases (ih h').1
  | givenBack _ _ ih ihstep =>
      cases h' with
      | unseparated h' => cases (ih h').1
      | givenBack h' hstep =>
          obtain ⟨_, rfl, rfl⟩ := ih h'
          obtain ⟨_, _, rfl⟩ := ihstep hstep
          exact ⟨rfl, rfl, rfl⟩
      | stalled h' hstep =>
          obtain ⟨_, rfl, rfl⟩ := ih h'
          cases (ihstep hstep).1
      | item h' hstep =>
          obtain ⟨_, rfl, rfl⟩ := ih h'
          cases (ihstep hstep).1
  | stalled _ _ ih ihstep =>
      cases h' with
      | unseparated h' => cases (ih h').1
      | givenBack h' hstep =>
          obtain ⟨_, rfl, rfl⟩ := ih h'
          cases (ihstep hstep).1
      | stalled h' hstep =>
          obtain ⟨_, rfl, rfl⟩ := ih h'
          obtain ⟨_, _, rfl⟩ := ihstep hstep
          exact ⟨rfl, rfl, rfl⟩
      | item h' hstep hread =>
          obtain ⟨_, rfl, rfl⟩ := ih h'
          obtain ⟨_, rfl, _⟩ := ihstep hstep
          exact absurd hread (Nat.lt_irrefl _)
  | item _ _ hread _ ih ihstep ihmore =>
      cases h' with
      | unseparated h' => cases (ih h').1
      | givenBack h' hstep =>
          obtain ⟨_, rfl, rfl⟩ := ih h'
          cases (ihstep hstep).1
      | stalled h' hstep =>
          obtain ⟨_, rfl, rfl⟩ := ih h'
          obtain ⟨_, rfl, _⟩ := ihstep hstep
          exact absurd hread (Nat.lt_irrefl _)
      | item h' hstep _ hmore =>
          obtain ⟨_, rfl, rfl⟩ := ih h'
          obtain ⟨⟨⟩, rfl, rfl⟩ := ihstep hstep
          obtain ⟨⟨⟩, rfl, rfl⟩ := ihmore hmore
          exact ⟨rfl, rfl, rfl⟩
  | ended _ ih =>
      cases h' with
      | ended h' =>
          obtain ⟨_, _, rfl⟩ := ih h'
          exact ⟨rfl, rfl, rfl⟩
      | idle h' => cases (ih h').1
      | again h' => cases (ih h').1
  | idle _ ih =>
      cases h' with
      | ended h' => cases (ih h').1
      | idle h' =>
          obtain ⟨_, _, rfl⟩ := ih h'
          exact ⟨rfl, rfl, rfl⟩
      | again h' hread =>
          obtain ⟨_, rfl, _⟩ := ih h'
          exact absurd hread (Nat.lt_irrefl _)
  | again _ hread _ ih ihmore =>
      cases h' with
      | ended h' => cases (ih h').1
      | idle h' =>
          obtain ⟨_, rfl, _⟩ := ih h'
          exact absurd hread (Nat.lt_irrefl _)
      | again h' _ hmore =>
          obtain ⟨⟨⟩, rfl, rfl⟩ := ih h'
          obtain ⟨⟨⟩, rfl, rfl⟩ := ihmore hmore
          exact ⟨rfl, rfl, rfl⟩
  | sequence _ ih =>
      cases h' with
      | sequence h' => exact ih h'
  | empty _ ih =>
      cases h' with
      | empty h' =>
          obtain ⟨_, _, rfl⟩ := ih h'
          exact ⟨rfl, rfl, rfl⟩
      | separated h' => cases (ih h').1
  | unmatched _ ih =>
      cases h' with
      | unmatched h' =>
          obtain ⟨_, _, rfl⟩ := ih h'
          exact ⟨rfl, rfl, rfl⟩
      | separated h' => cases (ih h').1
  | separated _ _ ih ihmore =>
      cases h' with
      | empty h' => cases (ih h').1
      | unmatched h' => cases (ih h').1
      | separated h' hmore =>
          obtain ⟨⟨⟩, rfl, rfl⟩ := ih h'
          obtain ⟨⟨⟩, rfl, rfl⟩ := ihmore hmore
          exact ⟨rfl, rfl, rfl⟩
  | cyclic _ ih =>
      cases h' with
      | cyclic h' => exact ih h'

/-- A rule has one outcome at a position. -/
theorem functional_rule {id : RuleId} {o o' : Option MatchTree}
    (h : Run c symbols m (.leaf (.rule id)) p (o.map fun tree => [tree]) q log)
    (h' : Run c symbols m' (.leaf (.rule id)) p (o'.map fun tree => [tree]) q' log') :
    o = o' ∧ q = q' ∧ log = log' := by
  have hinjective : Function.Injective fun tree : MatchTree => [tree] := fun _ _ heq =>
    List.singleton_inj.mp heq
  obtain ⟨ho, hrest⟩ := h.functional h'
  exact ⟨Option.map_injective hinjective ho, hrest⟩

end Run

section

variable {c : CompiledGrammar} {s : EvalState} {id : RuleId} {m p q : Nat}
  {symbols : Array Symbol} {o : Option MatchTree} {log : List Note}

/-- The evaluation of a rule follows every run that the rule has where the cursor stands. -/
theorem Run.follows (hc : c.Consistent) (hid : id ∈ c.order) (hs : s.Ready c)
    (h : Run c s.cursor.symbols m (.leaf (.rule id)) s.cursor.position
      (o.map fun tree => [tree]) q log) (limits : Limits) :
    Follows limits s s.cursor.position (c.evaluate limits id) o q log := by
  obtain ⟨o', q', log', hrun, hfollows⟩ := evaluate_follows limits hc hid hs
  obtain ⟨rfl, rfl, rfl⟩ := h.functional_rule hrun
  exact hfollows

/-- Without caps an evaluation follows its run to the end. -/
theorem evaluate_free (hc : c.Consistent) (hid : id ∈ c.order) (hs : s.Ready c)
    (hfuel : s.fuel = none) :
    ∃ o q log l,
      Run c s.cursor.symbols (c.order.length * (s.cursor.symbols.size + 1)) (.leaf (.rule id))
        s.cursor.position (o.map fun tree => [tree]) q log ∧
      s.ledger.replay {} log = .ok l ∧ l.fuel = none ∧
      c.evaluate {} id s = .ok o (s.resume l q) := by
  obtain ⟨o, q, log, hrun, hfollows⟩ := evaluate_follows {} hc hid hs
  have hafford := hrun.affordable {} s.ledger (by simp)
  cases hreplay : s.ledger.replay {} log with
  | error e =>
      rw [hreplay] at hafford
      exact absurd hfuel hafford.2
  | ok l =>
      rw [hreplay] at hafford
      exact ⟨o, q, log, l, hrun, hreplay, hafford.2 hfuel, hfollows.of_replay_ok hreplay⟩

/-- An evaluation that ends with an answer has followed its run to the end, whatever the caps
are. -/
theorem exists_run_of_evaluate {limits : Limits} {t : EvalState} (hc : c.Consistent)
    (hid : id ∈ c.order) (hs : s.Ready c) (heval : c.evaluate limits id s = .ok o t) :
    ∃ m log, Run c s.cursor.symbols m (.leaf (.rule id)) s.cursor.position
        (o.map fun tree => [tree]) t.cursor.position log ∧
      t.Ready c ∧ t.cursor.symbols = s.cursor.symbols ∧
      t.events = (Note.events log).reverse ++ s.events := by
  obtain ⟨o', q, log, hrun, hfollows⟩ := evaluate_follows limits hc hid hs
  cases hreplay : s.ledger.replay limits log with
  | error e =>
      obtain ⟨q', hfault⟩ := hfollows.of_replay_error hreplay
      rw [heval] at hfault
      cases hfault
  | ok l =>
      obtain ⟨rfl, rfl⟩ := EStateM.Result.ok.inj
        (heval.symm.trans (hfollows.of_replay_ok hreplay))
      have hle : s.cursor.position ≤ q := by
        cases o with
        | none => exact (hrun.eq_back rfl).ge
        | some tree => exact (hrun.progress hc rfl).le
      exact ⟨_, log, hrun, hs.resume hle l, rfl, Ledger.events_replay hreplay⟩

/-- A rule stops at the position it is tried at or behind it, and not behind the symbols. -/
theorem Run.position_le (hc : c.Consistent)
    (h : Run c symbols m (.leaf (.rule id)) p (o.map fun tree => [tree]) q log) :
    p ≤ q ∧ (p ≤ symbols.size → q ≤ symbols.size) := by
  cases o with
  | none =>
      obtain rfl : q = p := h.eq_back rfl
      exact ⟨Nat.le_refl q, fun hle => hle⟩
  | some tree =>
      have hprogress := h.progress hc rfl
      exact ⟨hprogress.le, hprogress.within⟩

/-- Nothing has been tried yet, and the cursor stands at `p`. -/
def EvalState.startAt (c : CompiledGrammar) (symbols : Array Symbol) (p : Nat) : EvalState :=
  { EvalState.initial c {} symbols with cursor := { symbols, position := p } }

namespace CompiledGrammar

/-- What a rule matches when it is tried at `p` by itself and without caps: the tree, and the
position behind it. -/
def matched? (c : CompiledGrammar) (symbols : Array Symbol) (id : RuleId) (p : Nat) :
    Option (MatchTree × Nat) :=
  match c.evaluate {} id (.startAt c symbols p) with
  | .ok (some tree) s => some (tree, s.cursor.position)
  | _ => none

theorem exists_run_matched? (hc : c.Consistent) (hid : id ∈ c.order) (symbols : Array Symbol)
    (p : Nat) : ∃ (m : Nat) (o : Option MatchTree) (q : Nat) (log : List Note),
      Run c symbols m (.leaf (.rule id)) p (o.map fun tree => [tree]) q log ∧
      c.matched? symbols id p = o.map fun tree => (tree, q) := by
  have hs : (EvalState.startAt c symbols p).Ready c := ⟨rfl, rfl, Nat.zero_le p⟩
  obtain ⟨o, q, log, l, hrun, _, _, heval⟩ := evaluate_free hc hid hs rfl
  refine ⟨_, o, q, log, hrun, ?_⟩
  unfold matched?
  rw [heval]
  cases o <;> rfl

theorem run_of_matched? (hc : c.Consistent) (hid : id ∈ c.order) {tree : MatchTree}
    (h : c.matched? symbols id p = some (tree, q)) :
    ∃ m log, Run c symbols m (.leaf (.rule id)) p (some [tree]) q log := by
  obtain ⟨m, o, q', log, hrun, hmatched⟩ := exists_run_matched? hc hid symbols p
  rw [h] at hmatched
  obtain ⟨_, rfl, heq⟩ := Option.map_eq_some_iff.mp hmatched.symm
  cases heq
  exact ⟨m, log, hrun⟩

theorem matched?_of_run (hc : c.Consistent) (hid : id ∈ c.order)
    (h : Run c symbols m (.leaf (.rule id)) p (o.map fun tree => [tree]) q log) :
    c.matched? symbols id p = o.map fun tree => (tree, q) := by
  obtain ⟨m', o', q', log', hrun, hmatched⟩ := exists_run_matched? hc hid symbols p
  obtain ⟨rfl, rfl, _⟩ := h.functional_rule hrun
  exact hmatched

/-- Under any caps an evaluation that ends with an answer ends with the outcome of the rule. -/
theorem matched?_of_evaluate {limits : Limits} {s t : EvalState} {o : Option MatchTree}
    (hc : c.Consistent) (hid : id ∈ c.order) (hs : s.Ready c)
    (heval : c.evaluate limits id s = .ok o t) :
    c.matched? s.cursor.symbols id s.cursor.position =
      o.map fun tree => (tree, t.cursor.position) := by
  obtain ⟨_, _, hrun, _⟩ := exists_run_of_evaluate hc hid hs heval
  exact matched?_of_run hc hid hrun

end CompiledGrammar

end

end Descent
