import Descent.Match.Evaluate
import Descent.Proofs.Compiled.Consistent

/-!
# Runs

A run is evaluation as a derivation: which part of a rule is tried at which symbol, what comes of
it, where it leaves the cursor and what it leaves behind in the record. It knows nothing of the
guard and of the caps. What it does know is a bound on the height of the rules it may enter, and a
rule is entered only below the bound; so a run cannot enter a rule that is open at the same
position.

Whatever a run matches accounts for the symbols: it passes without reading only what the compiled
grammar says may be passed, and what it reads begins as the grammar says (`Run.progress`).
-/

namespace Descent

/-- An entry of the record that evaluation leaves behind. -/
inductive Note where
  | event (e : Event)
  /-- A step failed that had to match. -/
  | failed (position : Nat) (first : List TerminalId)
deriving Repr, DecidableEq

/-- The note that a rule gives up what it has read, if it has read anything. -/
def Note.backtrack (rule : RuleId) (source target : Nat) : List Note :=
  if target < source then [.event (.backtrack rule source target)] else []

/-- The alternatives tried when the terminal is ahead. -/
def CompiledStep.tries (s : CompiledStep) (ahead : Option TerminalId) : List Leaf :=
  (s.candidates ahead).filterMap fun n => s.branches[n.toNat]?

theorem CompiledStep.mem_branches_of_mem_tries {s : CompiledStep} {ahead : Option TerminalId}
    {l : Leaf} (h : l ∈ s.tries ahead) : l ∈ s.branches := by
  obtain ⟨n, _, hn⟩ := List.mem_filterMap.mp h
  exact Array.mem_of_getElem? hn

/-- A part of a rule that evaluation works on. -/
inductive Fragment where
  | leaf (l : Leaf)
  /-- The first of the alternatives that matches. -/
  | leaves (ls : List Leaf)
  | step (s : CompiledStep)
  /-- What remains of a sequence that began at `start`. -/
  | steps (rule : RuleId) (start : Nat) (ss : List CompiledStep)
  /-- A separator and an item, over and over. -/
  | more (rule : RuleId) (item separator : CompiledStep)
  /-- A step, over and over. -/
  | again (s : CompiledStep)
  | body (rule : RuleId) (b : CompiledBody)

/-- With rules entered below the bound `m` only, evaluation of the fragment at `p` has the outcome,
stops at `q` and leaves the record behind. -/
inductive Run (c : CompiledGrammar) (symbols : Array Symbol) :
    Nat → Fragment → Nat → Option (List MatchTree) → Nat → List Note → Prop where
  | took {m p id x} (hx : symbols[p]? = some x) (haccepts : c.accepts id x.terminal = true) :
      Run c symbols m (.leaf (.terminal id)) p (some [.symbol p]) (p + 1) [.event (.took id x)]
  | missed {m p id} (h : ∀ x, symbols[p]? = some x → c.accepts id x.terminal = false) :
      Run c symbols m (.leaf (.terminal id)) p none p [.event (.missed id symbols[p]?)]
  | rule {m p id r o q log} (hr : c.rule? id = some r) (hlow : c.height symbols.size id p < m)
      (body : Run c symbols (c.height symbols.size id p) (.body id r.body) p o q log) :
      Run c symbols m (.leaf (.rule id)) p (o.map fun ts => [.rule id ts]) q
        (.event (.enter id p) :: log ++ [.event (.exit id o.isSome q)])
  | exhausted {m p} : Run c symbols m (.leaves []) p none p []
  | first {m p l ls ts q log} (leaf : Run c symbols m (.leaf l) p (some ts) q log) :
      Run c symbols m (.leaves (l :: ls)) p (some ts) q log
  | next {m p l ls o q log log'} (leaf : Run c symbols m (.leaf l) p none p log)
      (rest : Run c symbols m (.leaves ls) p o q log') :
      Run c symbols m (.leaves (l :: ls)) p o q (log ++ log')
  | step {m p s o q log}
      (hlow : ∀ id, .rule id ∈ s.branches → c.height symbols.size id p < m)
      (leaves : Run c symbols m (.leaves (s.tries (symbols[p]?.map (·.terminal)))) p o q log) :
      Run c symbols m (.step s) p o q log
  | done {m p rule start} : Run c symbols m (.steps rule start []) p (some []) p []
  | matched {m p rule start s ss ts q o q' log log'}
      (step : Run c symbols m (.step s) p (some ts) q log)
      (rest : Run c symbols m (.steps rule start ss) q o q' log') :
      Run c symbols m (.steps rule start (s :: ss)) p (o.map (ts ++ ·)) q' (log ++ log')
  | absent {m p rule start s ss o q log log'} (step : Run c symbols m (.step s) p none p log)
      (hoptional : s.optional = true) (rest : Run c symbols m (.steps rule start ss) p o q log') :
      Run c symbols m (.steps rule start (s :: ss)) p (o.map (.absent :: ·)) q (log ++ log')
  | failed {m p rule start s ss log} (step : Run c symbols m (.step s) p none p log)
      (hoptional : s.optional = false) :
      Run c symbols m (.steps rule start (s :: ss)) p none start
        (log ++ .failed p s.first :: Note.backtrack rule p start)
  | unseparated {m p rule item separator log}
      (sep : Run c symbols m (.step separator) p none p log) :
      Run c symbols m (.more rule item separator) p (some []) p log
  | givenBack {m p rule item separator us q log log'}
      (sep : Run c symbols m (.step separator) p (some us) q log)
      (step : Run c symbols m (.step item) q none q log') :
      Run c symbols m (.more rule item separator) p (some []) p
        (log ++ (log' ++ .failed q item.first :: Note.backtrack rule q p))
  | stalled {m p rule item separator us ts q log log'}
      (sep : Run c symbols m (.step separator) p (some us) q log)
      (step : Run c symbols m (.step item) q (some ts) p log') :
      Run c symbols m (.more rule item separator) p (some []) p (log ++ log')
  | item {m p rule item separator us ts rest q q' q'' log log' log''}
      (sep : Run c symbols m (.step separator) p (some us) q log)
      (step : Run c symbols m (.step item) q (some ts) q' log') (hread : p < q')
      (more : Run c symbols m (.more rule item separator) q' (some rest) q'' log'') :
      Run c symbols m (.more rule item separator) p (some (ts ++ rest)) q'' (log ++ (log' ++ log''))
  | ended {m p s log} (step : Run c symbols m (.step s) p none p log) :
      Run c symbols m (.again s) p (some []) p log
  | idle {m p s ts log} (step : Run c symbols m (.step s) p (some ts) p log) :
      Run c symbols m (.again s) p (some []) p log
  | again {m p s ts rest q q' log log'} (step : Run c symbols m (.step s) p (some ts) q log)
      (hread : p < q) (more : Run c symbols m (.again s) q (some rest) q' log') :
      Run c symbols m (.again s) p (some (ts ++ rest)) q' (log ++ log')
  | sequence {m p rule ss o q log} (steps : Run c symbols m (.steps rule p ss) p o q log) :
      Run c symbols m (.body rule (.sequence ss)) p o q log
  | empty {m p rule item separator log} (step : Run c symbols m (.step item) p none p log) :
      Run c symbols m (.body rule (.separated item separator true)) p (some []) p log
  | unmatched {m p rule item separator log} (step : Run c symbols m (.step item) p none p log) :
      Run c symbols m (.body rule (.separated item separator false)) p none p
        (log ++ [.failed p item.first])
  | separated {m p rule item separator allowEmpty ts rest q q' log log'}
      (step : Run c symbols m (.step item) p (some ts) q log)
      (more : Run c symbols m (.more rule item separator) q (some rest) q' log') :
      Run c symbols m (.body rule (.separated item separator allowEmpty)) p (some (ts ++ rest)) q'
        (log ++ log')
  | cyclic {m p rule s ts q log} (more : Run c symbols m (.again s) p (some ts) q log) :
      Run c symbols m (.body rule (.cyclic s)) p (some ts) q log

namespace Fragment

/-- Where the cursor stands once the fragment has failed at `p`. -/
def back (p : Nat) : Fragment → Nat
  | steps _ start _ => start
  | _ => p

variable (c : CompiledGrammar)

/-- A match of the fragment may read nothing. -/
def Passes : Fragment → Prop
  | leaf l => c.LeafPasses l
  | leaves ls => ∃ l ∈ ls, c.LeafPasses l
  | step s => c.StepPasses s
  | steps _ _ ss => ∀ s ∈ ss, c.Skips s
  | more .. => True
  | again _ => True
  | body _ b => c.BodyPasses b

/-- A match of the fragment may begin with a symbol of the terminal. -/
def Begins (t : TerminalId) : Fragment → Prop
  | leaf l => c.LeafBegins t l
  | leaves ls => ∃ l ∈ ls, c.LeafBegins t l
  | step s => c.StepBegins t s
  | steps _ _ ss => ∃ s, c.Leads ss s ∧ c.StepBegins t s
  | more _ item separator =>
      c.StepBegins t separator ∨ (c.StepPasses separator ∧ c.StepBegins t item)
  | again s => c.StepBegins t s
  | body _ b => ∃ s, c.BodyLeads b s ∧ c.StepBegins t s

/-- A match of the fragment can lead from `p` to `q`. -/
def Progress (symbols : Array Symbol) (x : Fragment) (p q : Nat) : Prop :=
  (q = p ∧ x.Passes c) ∨
    (p < q ∧ q ≤ symbols.size ∧ ∃ y, symbols[p]? = some y ∧ x.Begins c y.terminal)

variable {c} {symbols : Array Symbol} {x y z : Fragment} {p q r : Nat}

theorem Progress.le (h : x.Progress c symbols p q) : p ≤ q := by
  rcases h with ⟨rfl, _⟩ | ⟨h, _⟩ <;> omega

theorem Progress.within (h : x.Progress c symbols p q) (hp : p ≤ symbols.size) :
    q ≤ symbols.size := by
  rcases h with ⟨rfl, _⟩ | ⟨_, hle, _⟩
  · exact hp
  · exact hle

theorem Progress.imp (h : x.Progress c symbols p q) (hpass : x.Passes c → y.Passes c)
    (hbegin : ∀ t, x.Begins c t → y.Begins c t) : y.Progress c symbols p q := by
  rcases h with ⟨rfl, h⟩ | ⟨hlt, hle, w, hw, h⟩
  · exact Or.inl ⟨rfl, hpass h⟩
  · exact Or.inr ⟨hlt, hle, w, hw, hbegin _ h⟩

/-- One fragment after the other makes a third. -/
theorem Progress.trans (hx : x.Progress c symbols p q) (hy : y.Progress c symbols q r)
    (hpass : x.Passes c → y.Passes c → z.Passes c) (hbegin : ∀ t, x.Begins c t → z.Begins c t)
    (hsecond : x.Passes c → ∀ t, y.Begins c t → z.Begins c t) : z.Progress c symbols p r := by
  have hqr := hy.le
  rcases hx with ⟨rfl, hx⟩ | ⟨hlt, hle, w, hw, hx⟩
  · exact hy.imp (hpass hx) (hsecond hx)
  · refine Or.inr ⟨by omega, ?_, w, hw, hbegin _ hx⟩
    rcases hy with ⟨rfl, _⟩ | ⟨_, hle, _⟩
    · exact hle
    · exact hle

end Fragment

namespace Run

open Fragment

variable {c : CompiledGrammar} {symbols : Array Symbol} {m p q : Nat} {x : Fragment}
  {o : Option (List MatchTree)} {log : List Note}

/-- What fails gives back all it has read. -/
theorem eq_back (h : Run c symbols m x p o q log) (ho : o = none) : q = x.back p := by
  induction h with
  | rule _ _ _ ih => exact ih (Option.map_eq_none_iff.mp ho)
  | next _ _ _ ih => exact ih ho
  | step _ _ ih => exact ih ho
  | matched _ _ _ ih => exact ih (Option.map_eq_none_iff.mp ho)
  | absent _ _ _ _ ih => exact ih (Option.map_eq_none_iff.mp ho)
  | sequence _ ih => exact ih ho
  | missed | exhausted | failed | unmatched => rfl
  | took | first | done | unseparated | givenBack | stalled | item | ended | idle | again | empty
  | separated | cyclic => cases ho

/-- What matches passes only what may be passed, and what it reads begins as it may. -/
theorem progress (hc : c.Consistent) (h : Run c symbols m x p o q log) (ho : o.isSome = true) :
    x.Progress c symbols p q := by
  induction h with
  | @took m p id y hy haccepts =>
      have hlt := (Array.getElem?_eq_some_iff.mp hy).choose
      exact Or.inr ⟨Nat.lt_succ_self p, hlt, y, hy, haccepts⟩
  | @rule m p id r o q log hr _ _ ih =>
      rw [Option.isSome_map] at ho
      refine (ih ho).imp (fun hpass => ?_) ?_
      · show (c.rule? id).map (·.nullable) = some true
        rw [hr, Option.map_some, hc.passes id r hr hpass]
      · rintro t ⟨s, hlead, hbegin⟩
        refine ⟨r.first, ?_, hc.begins id r hr s t hlead hbegin⟩
        show (c.rule? id).map (·.first) = some r.first
        rw [hr, Option.map_some]
  | first _ ih =>
      exact (ih ho).imp (fun h => ⟨_, List.mem_cons_self, h⟩) fun t h => ⟨_, List.mem_cons_self, h⟩
  | next _ _ _ ih =>
      refine (ih ho).imp ?_ ?_
      · rintro ⟨l, hl, h⟩
        exact ⟨l, List.mem_cons_of_mem _ hl, h⟩
      · rintro t ⟨l, hl, h⟩
        exact ⟨l, List.mem_cons_of_mem _ hl, h⟩
  | step _ _ ih =>
      refine (ih ho).imp ?_ ?_
      · rintro ⟨l, hl, h⟩
        exact ⟨l, CompiledStep.mem_branches_of_mem_tries hl, h⟩
      · rintro t ⟨l, hl, h⟩
        exact ⟨l, CompiledStep.mem_branches_of_mem_tries hl, h⟩
  | done => exact Or.inl ⟨rfl, by simp [Passes]⟩
  | matched _ _ ihs ih =>
      rw [Option.isSome_map] at ho
      refine (ihs rfl).trans (ih ho) ?_ ?_ ?_
      · exact fun hs hss => List.forall_mem_cons.mpr ⟨Or.inr hs, hss⟩
      · exact fun t hs => ⟨_, Or.inl rfl, hs⟩
      · rintro hs t ⟨s, hlead, hbegin⟩
        exact ⟨s, Or.inr ⟨Or.inr hs, hlead⟩, hbegin⟩
  | absent _ hoptional _ _ ih =>
      rw [Option.isSome_map] at ho
      refine (ih ho).imp ?_ ?_
      · exact fun hss => List.forall_mem_cons.mpr ⟨Or.inl hoptional, hss⟩
      · rintro t ⟨s, hlead, hbegin⟩
        exact ⟨s, Or.inr ⟨Or.inl hoptional, hlead⟩, hbegin⟩
  | @item m p rule item separator _ _ _ q q' _ _ _ _ _ _ _ _ ihsep ihstep ihmore =>
      have hboth : (more rule item separator).Progress c symbols p q' :=
        (ihsep rfl).trans (ihstep rfl) (fun _ _ => trivial) (fun t h => Or.inl h)
          fun hsep t h => Or.inr ⟨hsep, h⟩
      exact hboth.trans (ihmore rfl) (fun _ _ => trivial) (fun t h => h) fun _ t h => h
  | again _ _ _ ihstep ihmore =>
      exact (ihstep rfl).trans (ihmore rfl) (fun _ _ => trivial) (fun t h => h) fun _ t h => h
  | sequence _ ih => exact ih ho
  | empty => exact Or.inl ⟨rfl, Or.inl rfl⟩
  | separated _ _ ihstep ihmore =>
      refine (ihstep rfl).trans (ihmore rfl) (fun h _ => Or.inr h) ?_ ?_
      · exact fun t h => ⟨_, Or.inl rfl, h⟩
      · rintro hitem t (h | ⟨_, h⟩)
        · exact ⟨_, Or.inr ⟨rfl, hitem⟩, h⟩
        · exact ⟨_, Or.inl rfl, h⟩
  | cyclic _ ih => exact (ih ho).imp (fun _ => trivial) fun t h => ⟨_, rfl, h⟩
  | unseparated | givenBack | stalled | ended | idle => exact Or.inl ⟨rfl, trivial⟩
  | missed | exhausted | failed | unmatched => cases ho

end Run

end Descent
