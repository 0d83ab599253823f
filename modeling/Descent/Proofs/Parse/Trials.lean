import Descent.Proofs.Match.Reading
import Descent.Proofs.Parse.Caps

/-!
# The trace of a parse

A parse tries its root again and again, and its events are those of the trials one after the other
(`Progress.exists_trials`). Each trial leaves a faithful record with no rule open at its end, so a
trace of the parse is the traces of the trials, each of them not indented at its beginning
(`Parser.trace_faithful`).
-/

namespace Descent

/-- A trial of the root: where it began, what happened and where it left the cursor. -/
structure Trial where
  start : Nat
  events : List Event
  stop : Nat

/-- The root was tried so among the symbols, without caps and with no rule open. -/
def Trial.Of (c : CompiledGrammar) (symbols : Array Symbol) (t : Trial) : Prop :=
  ∃ o s s', s.Ready c ∧ s.fuel = none ∧ s.cursor.symbols = symbols ∧
    s.cursor.position = t.start ∧ c.evaluate {} c.root s = .ok o s' ∧
    s'.cursor.position = t.stop ∧ s'.events = t.events.reverse ++ s.events

/-- The turns of a parse without caps leave the events of their trials behind. -/
theorem Progress.exists_trials {α : Type} {g : Grammar α} {c : CompiledGrammar} {n : Nat}
    (hc : c.Consistent) (hroot : c.root ∈ c.order) (k : Nat) {p : Progress α}
    (hs : p.eval.Ready c) (hfuel : p.eval.fuel = none) :
    ∃ (q : Progress α) (trials : List Trial), p.run g c {} n k = (.ok (), q) ∧
      q.eval.events = (trials.flatMap Trial.events).reverse ++ p.eval.events ∧
      ∀ t ∈ trials, t.Of c p.eval.cursor.symbols := by
  induction k generalizing p with
  | zero => exact ⟨p, [], rfl, rfl, by simp⟩
  | succ k ih =>
      obtain ⟨o, s, es, htried⟩ := exists_tried hc hroot hs hfuel
      let trial : Trial := ⟨p.eval.cursor.position, es, s.cursor.position⟩
      have htrial : trial.Of c p.eval.cursor.symbols :=
        ⟨o, p.eval, s, hs, hfuel, rfl, rfl, htried.free, rfl, htried.events⟩
      obtain ⟨b, hb⟩ : ∃ b, (p.settle g c n o s).1 = .ok b := exists_settle_fst
      obtain ⟨r, hr⟩ : ∃ r, r = (p.settle g c n o s).2 := ⟨_, rfl⟩
      have hsettle : p.settle g c n o s = (.ok b, r) := Prod.ext hb hr.symm
      have hlog : r.eval.events = es.reverse ++ p.eval.events := by
        rw [hr, events_settle, htried.events]
      cases b with
      | false =>
          refine ⟨r, [trial], ?_, ?_, by simpa using htrial⟩
          · rw [run, attempt_of_ok htried.free, hsettle]
          · rw [hlog]
            simp [trial]
      | true =>
          have hready : r.eval.Ready c := hr ▸ ready_settle htried.ready
          have hfree : r.eval.fuel = none := hr ▸ fuel_settle.trans htried.fuel
          have hsymbols : r.eval.cursor.symbols = p.eval.cursor.symbols :=
            hr ▸ symbols_settle.trans htried.symbols
          obtain ⟨q, trials, hrun, hevents, htrials⟩ := ih hready hfree
          refine ⟨q, trial :: trials, ?_, ?_, ?_⟩
          · rw [run, attempt_of_ok htried.free, hsettle]
            exact hrun
          · rw [hevents, hlog]
            simp [trial]
          · rw [hsymbols] at htrials
            exact List.forall_mem_cons.mpr ⟨htrial, htrials⟩

theorem CompiledGrammar.exists_trials_parseStream {α : Type} {c : CompiledGrammar} (g : Grammar α)
    (n : Nat) (stream : SymbolStream) (hc : c.Consistent) (hroot : c.root ∈ c.order) :
    ∃ trials : List Trial, (c.parseStream g {} n stream).events = trials.flatMap (·.events) ∧
      ∀ t ∈ trials, t.Of c stream.symbols := by
  cases hlexical : Diagnostic.anyLexical stream.diagnostics with
  | true =>
      refine ⟨[], ?_, by simp⟩
      unfold parseStream
      rw [if_pos hlexical]
      rfl
  | false =>
      obtain ⟨q, trials, hrun, hevents, htrials⟩ := Progress.exists_trials (g := g) (n := n)
        (p := .start c stream) hc hroot (stream.symbols.size + 1)
        (EvalState.ready_initial c {} stream.symbols) rfl
      refine ⟨trials, ?_, htrials⟩
      rw [parseStream_eq_ofRun hlexical]
      show (Outcome.ofRun ((Progress.start c stream).run g c {} n (stream.symbols.size + 1))).events
        = _
      rw [hrun]
      show q.eval.events.reverse = _
      rw [hevents]
      exact (congrArg List.reverse (List.append_nil _)).trans (List.reverse_reverse _)

/-- A trace of faithful records is made of their traces. -/
theorem Event.trace_flatMap {c : CompiledGrammar} {trials : List Trial}
    (h : ∀ t ∈ trials, Faithful c t.start t.events t.stop) (v : Verbosity) :
    trace c v (trials.flatMap (·.events)) = trials.flatMap fun t => trace c v t.events := by
  induction trials with
  | nil => rfl
  | cons t trials ih =>
      obtain ⟨ht, htrials⟩ := List.forall_mem_cons.mp h
      rw [List.flatMap_cons, List.flatMap_cons, ← ih htrials]
      exact traceFrom_append ht.read

namespace Parser

variable {α : Type} {p : Parser α} {c : CompiledGrammar}

/-- The events of a parse without caps are those of the trials of its root. Each trial leaves a
faithful record, from where it began to where it left the cursor, and the trace of the parse is made
of theirs: it shows the same at the two most detailed levels. -/
theorem trace_faithful (hcompile : p.grammar.compile p.root = .ok c)
    (hnumbered : ∀ id r, p.grammar.Reachable p.root id → p.grammar.rule? id = some r →
      ∀ s ∈ r.body.whole, s.leaves.length ≤ 65536) (source : String) :
    let events := (p.parseWithin {} source).events
    ∃ trials : List Trial, events = trials.flatMap (·.events) ∧
      (∀ t ∈ trials, t.Of c (p.symbolizeWith c source).symbols ∧
        Event.Faithful c t.start t.events t.stop) ∧
      (∀ v, Event.trace c v events = trials.flatMap fun t => Event.trace c v t.events) ∧
      Event.trace c .verbose events = Event.trace c .veryVerbose events := by
  intro events
  have hcovers := Grammar.covers_of_compile hcompile
  have hparse : events = (c.parseStream p.grammar {} (Text.byteLength source.toList)
      (p.symbolizeWith c source)).events :=
    congrArg Outcome.events (parse_eq_parseStream (p := { p with limits := {} }) hcompile source)
  obtain ⟨trials, hevents, htrials⟩ := c.exists_trials_parseStream p.grammar
    (Text.byteLength source.toList) (p.symbolizeWith c source)
    (Grammar.consistent_of_compile hcompile) hcovers.root_mem_order
  have hfaithful : ∀ t ∈ trials, Event.Faithful c t.start t.events t.stop := by
    intro t ht
    obtain ⟨o, s, s', hs, _, _, hstart, heval, hstop, hlog⟩ := htrials t ht
    have hroot : p.grammar.Reachable p.root c.root := hcovers.root_eq ▸ .refl
    rw [← hstart, ← hstop]
    exact Grammar.faithful_of_evaluate hcompile hnumbered hroot hs heval hlog
  rw [hparse, hevents]
  refine ⟨trials, rfl, fun t ht => ⟨htrials t ht, hfaithful t ht⟩,
    Event.trace_flatMap hfaithful, ?_⟩
  rw [Event.trace_flatMap hfaithful, Event.trace_flatMap hfaithful]
  exact List.flatMap_congr fun t ht => (hfaithful t ht).levels

theorem length_leaves_tally {id : RuleId} {r : Rule Nat} (hr : Grammar.tally.rule? id = some r) :
    ∀ s ∈ r.body.whole, s.leaves.length ≤ 65536 := by
  have hall : ∀ r ∈ Grammar.tally.rules.toList, ∀ s ∈ r.body.whole, s.leaves.length ≤ 65536 := by
    decide +kernel
  exact hall r (Array.mem_toList_iff.mpr (Array.mem_of_getElem? hr))

theorem trace_faithful_tally :
    tally.grammar.compile tally.root = .ok Grammar.tallyCompiled ∧
    ∃ trials : List Trial, (tally.parseWithin {} "i++ii+").events = trials.flatMap (·.events) ∧
      trials ≠ [] ∧
      (∀ t ∈ trials, Event.Faithful Grammar.tallyCompiled t.start t.events t.stop) ∧
      Event.trace Grammar.tallyCompiled .verbose (tally.parseWithin {} "i++ii+").events =
        Event.trace Grammar.tallyCompiled .veryVerbose (tally.parseWithin {} "i++ii+").events := by
  obtain ⟨trials, hevents, htrials, _, hlevels⟩ := trace_faithful (p := tally)
    Grammar.compile_tally (fun _ _ _ hr => length_leaves_tally hr) "i++ii+"
  refine ⟨Grammar.compile_tally, trials, hevents, ?_, fun t ht => (htrials t ht).2, hlevels⟩
  rintro rfl
  have hattempts := attempts_tally
  unfold Outcome.attempts at hattempts
  rw [hevents] at hattempts
  cases hattempts

end Parser

end Descent
