import Descent.Proofs.Match.Outcome

/-!
# Evaluating further on

Nothing in a run looks at a position but to compare it with another or to read the symbol there. So
a run over the symbols from `k` on is a run over all of them, with every position further on by `k`
(`Run.shift`). The furthest failure is read off the record (`Ledger.replay_cases`), and with it the
outcome of an evaluation at `k` is that of an evaluation of the rest of the symbols by themselves,
moved (`exists_shiftsBy`).
-/

namespace Descent

/-! ## Positions further on -/

mutual

/-- The tree with its symbols further on by `k`. -/
def MatchTree.shift (k : Nat) : MatchTree → MatchTree
  | absent => absent
  | symbol p => symbol (p + k)
  | rule id children => rule id (shiftAll k children)

def MatchTree.shiftAll (k : Nat) : List MatchTree → List MatchTree
  | [] => []
  | t :: ts => t.shift k :: shiftAll k ts

end

def Event.shift (k : Nat) : Event → Event
  | enter id p => enter id (p + k)
  | exit id matched p => exit id matched (p + k)
  | took t x => took t x
  | missed t x => missed t x
  | refused id p => refused id (p + k)
  | backtrack id source target => backtrack id (source + k) (target + k)

def Furthest.shift (k : Nat) (f : Furthest) : Furthest := { f with position := f.position + k }

def Note.shift (k : Nat) : Note → Note
  | event e => event (e.shift k)
  | failed p first => failed (p + k) first

/-- Of the fragments only what remains of a sequence knows a position. -/
def Fragment.shift (k : Nat) : Fragment → Fragment
  | steps rule start ss => steps rule (start + k) ss
  | x => x

variable {k : Nat}

theorem MatchTree.shiftAll_append (ts us : List MatchTree) :
    shiftAll k (ts ++ us) = shiftAll k ts ++ shiftAll k us := by
  induction ts with
  | nil => rfl
  | cons t ts ih => simp [shiftAll, ih]

theorem Note.events_shift (log : List Note) :
    events (log.map (shift k)) = (events log).map (Event.shift k) := by
  induction log with
  | nil => rfl
  | cons n log ih => cases n <;> simp [shift, ih]

theorem Note.map_shift_backtrack (rule : RuleId) (source target : Nat) :
    (backtrack rule source target).map (shift k) =
      backtrack rule (source + k) (target + k) := by
  unfold backtrack
  by_cases h : target < source
  · simp [h, shift, Event.shift]
  · simp [h]

/-! ## The furthest failure of a record -/

theorem Furthest.update_shift (f : Option Furthest) (p : Nat) (first : List TerminalId) :
    update (f.map (shift k)) (p + k) first = (update f p first).map (shift k) := by
  cases f with
  | none => rfl
  | some f =>
      simp only [update, shift, Option.map_some]
      by_cases hgt : f.position > p
      · simp [hgt, shift]
      · by_cases heq : f.position = p
        · simp [heq, shift]
        · simp [hgt, heq, shift]

theorem Note.foldl_mark_shift (log : List Note) (f : Option Furthest) :
    (log.map (shift k)).foldl mark (f.map (Furthest.shift k)) =
      (log.foldl mark f).map (Furthest.shift k) := by
  induction log generalizing f with
  | nil => rfl
  | cons n log ih =>
      cases n with
      | event e => exact ih f
      | failed p first =>
          rw [List.map_cons, List.foldl_cons, List.foldl_cons, ← ih]
          exact congrArg (fun f => List.foldl mark f (log.map (shift k)))
            (Furthest.update_shift f p first)

/-! ## Runs -/

variable {c : CompiledGrammar} {symbols symbols' : Array Symbol} {m p q : Nat} {x : Fragment}
  {o : Option (List MatchTree)} {log : List Note}

theorem CompiledGrammar.height_shift (c : CompiledGrammar) (n : Nat) (id : RuleId) (p : Nat) :
    c.height (n + k) id (p + k) = c.height n id p := by
  unfold height
  rw [Nat.add_sub_add_right]

/-- A run over some symbols is one over symbols of which these are the last, further on by the
number of those before. -/
theorem Run.shift (hget : ∀ i, symbols[i + k]? = symbols'[i]?)
    (hsize : symbols.size = symbols'.size + k) (h : Run c symbols' m x p o q log) :
    Run c symbols m (x.shift k) (p + k) (o.map (MatchTree.shiftAll k)) (q + k)
      (log.map (Note.shift k)) := by
  have hheight : ∀ id p, c.height symbols.size id (p + k) = c.height symbols'.size id p := by
    intro id p
    rw [hsize, c.height_shift]
  induction h with
  | took hx haccepts =>
      rw [Nat.add_right_comm]
      exact .took ((hget _).trans hx) haccepts
  | @missed m p id h =>
      have hnote : symbols'[p]? = symbols[p + k]? := (hget p).symm
      simp only [List.map_cons, List.map_nil, Note.shift, Event.shift, hnote]
      exact .missed fun x hx => h x (hnote.trans hx)
  | @rule m p id r o q log hr hlow _ ih =>
      rw [← hheight] at hlow ih
      have hrun := Run.rule hr hlow ih
      simpa [Option.map_map, Function.comp_def, MatchTree.shiftAll, MatchTree.shift, Note.shift,
        Event.shift, Fragment.shift] using hrun
  | exhausted => exact .exhausted
  | first _ ih => exact .first ih
  | next _ _ ih ihrest =>
      rw [List.map_append]
      exact .next ih ihrest
  | @step m p s o q log hlow _ ih =>
      rw [← hget] at ih
      exact .step (fun id hid => (hheight id p).symm ▸ hlow id hid) ih
  | done => exact .done
  | @matched m p rule start s ss ts q o q' log log' _ _ ih ihrest =>
      have hrun := Run.matched ih ihrest
      simpa [Option.map_map, Function.comp_def, MatchTree.shiftAll_append,
        Fragment.shift] using hrun
  | @absent m p rule start s ss o q log log' _ hoptional _ ih ihrest =>
      have hrun := Run.absent ih hoptional ihrest
      simpa [Option.map_map, Function.comp_def, MatchTree.shiftAll, MatchTree.shift,
        Fragment.shift] using hrun
  | failed _ hoptional ih =>
      rw [List.map_append, List.map_cons, Note.map_shift_backtrack]
      exact .failed ih hoptional
  | unseparated _ ih => exact .unseparated ih
  | givenBack _ _ ih ihstep =>
      rw [List.map_append, List.map_append, List.map_cons, Note.map_shift_backtrack]
      exact .givenBack ih ihstep
  | stalled _ _ ih ihstep =>
      rw [List.map_append]
      exact .stalled ih ihstep
  | item _ _ hread _ ih ihstep ihmore =>
      rw [List.map_append, List.map_append, Option.map_some, MatchTree.shiftAll_append]
      exact .item ih ihstep (Nat.add_lt_add_right hread k) ihmore
  | ended _ ih => exact .ended ih
  | idle _ ih => exact .idle ih
  | again _ hread _ ih ihmore =>
      rw [List.map_append, Option.map_some, MatchTree.shiftAll_append]
      exact .again ih (Nat.add_lt_add_right hread k) ihmore
  | sequence _ ih => exact .sequence ih
  | empty _ ih => exact .empty ih
  | unmatched _ ih =>
      rw [List.map_append]
      exact .unmatched ih
  | separated _ _ ih ihmore =>
      rw [List.map_append, Option.map_some, MatchTree.shiftAll_append]
      exact .separated ih ihmore
  | cyclic _ ih => exact .cyclic ih

/-- A run of a rule over the symbols from `k` on is one over all of them. -/
theorem Run.shift_rule {id : RuleId} {o : Option MatchTree} (hk : k ≤ symbols.size)
    (h : Run c (symbols.extract k) m (.leaf (.rule id)) p (o.map fun tree => [tree]) q log) :
    Run c symbols m (.leaf (.rule id)) (p + k)
      ((o.map (MatchTree.shift k)).map fun tree => [tree]) (q + k) (log.map (Note.shift k)) := by
  have hget : ∀ i, symbols[i + k]? = (symbols.extract k)[i]? := by
    intro i
    rw [Array.getElem?_extract, Nat.add_comm k i, Nat.min_self]
    split
    · rfl
    · exact Array.getElem?_eq_none (by omega)
  have hsize : symbols.size = (symbols.extract k).size + k := by
    rw [Array.size_extract, Nat.min_self]
    omega
  have hrun := h.shift hget hsize
  rw [Option.map_map] at hrun ⊢
  exact hrun

/-! ## Evaluations -/

/-- In the second state the rule comes to what it comes to in the first, with every position
further on by `k`, and the events go after those there were. -/
structure CompiledGrammar.ShiftsBy (c : CompiledGrammar) (id : RuleId) (k : Nat)
    (s' s : EvalState) (o : Option MatchTree) (t' t : EvalState) : Prop where
  alone : c.evaluate {} id s' = .ok o t'
  shifted : c.evaluate {} id s = .ok (o.map (MatchTree.shift k)) t
  position : t.cursor.position = t'.cursor.position + k
  furthest : t.furthest = t'.furthest.map (Furthest.shift k)
  events : t.events = t'.events.map (Event.shift k) ++ s.events

/-- Without caps and with nothing held for furthest, a rule comes to the same as if the symbols
before the cursor were not there and nothing had been tried before. -/
theorem exists_shiftsBy {id : RuleId} {s : EvalState} (hc : c.Consistent) (hid : id ∈ c.order)
    (hs : s.Ready c) (hfuel : s.fuel = none) (hfurthest : s.furthest = none)
    (hsize : s.cursor.position ≤ s.cursor.symbols.size) :
    ∃ o t' t, c.ShiftsBy id s.cursor.position
      (.initial c {} (s.cursor.symbols.extract s.cursor.position)) s o t' t := by
  let s' := EvalState.initial c {} (s.cursor.symbols.extract s.cursor.position)
  have hs' : s'.Ready c := EvalState.ready_initial c {} _
  -- the two evaluations follow their runs, and the run of the first moves to where the other is
  obtain ⟨o', q', log', l', hrun', hreplay', _, heval'⟩ := evaluate_free hc hid hs' rfl
  obtain ⟨o, q, log, l, hrun, hreplay, _, heval⟩ := evaluate_free hc hid hs hfuel
  have hmoved := Run.shift_rule hsize hrun'
  rw [show s'.cursor.position = 0 from rfl, Nat.zero_add] at hmoved
  obtain ⟨rfl, rfl, rfl⟩ := hmoved.functional_rule hrun
  refine ⟨o', _, _, heval', heval, rfl, ?_, ?_⟩
  · show l.furthest = l'.furthest.map _
    have hfirst : s.ledger.furthest = s'.ledger.furthest.map (Furthest.shift s.cursor.position) :=
      hfurthest
    rw [(Ledger.replay_cases hreplay).1, (Ledger.replay_cases hreplay').1, hfirst,
      Note.foldl_mark_shift]
  · show l.events = l'.events.map _ ++ s.events
    have hnone : s'.ledger.events = [] := rfl
    rw [Ledger.events_replay hreplay, Ledger.events_replay hreplay', Note.events_shift, hnone,
      List.append_nil, List.map_reverse]
    rfl

end Descent
