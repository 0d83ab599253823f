import Descent.Proofs.Match.First
import Descent.Proofs.Parse.Turn

/-!
# The caps of a parse are thresholds

A parse without caps makes some number of attempts, all turns together, and has some largest number
of rules open. Caps that allow for both change nothing, and all others end the parse with a fault
(`caps_exact`). The turns of the two parses are the same up to the first attempt that is not
allowed, wherever in a turn that is (`Progress.exists_ran`).
-/

namespace Descent

open Event

/-! ## All turns together -/

namespace Progress

variable {α : Type} {g : Grammar α} {c : CompiledGrammar} {n k : Nat} {p q r : Progress α}
  {es es' : List Event} {o : Option MatchTree} {t : EvalState}

/-- Without caps the turns lead from the first to the second and leave the events behind. Caps that
the events stay within change nothing but the attempts left, and others stop some turn. -/
structure Ran (g : Grammar α) (c : CompiledGrammar) (n k : Nat) (p q : Progress α)
    (es : List Event) : Prop where
  free : p.run g c {} n k = (.ok (), q)
  events : q.eval.events = es.reverse ++ p.eval.events
  allowed : ∀ limits fuel, Within limits fuel [] es →
    (p.withFuel fuel).run g c limits n k = (.ok (), q.withFuel (fuel.map (· - attempts es)))
  stopped : ∀ limits fuel, ¬ Within limits fuel [] es → ∃ e r,
    (p.withFuel fuel).run g c limits n k = (.error e, r) ∧
      StopsShort es p.eval.events e r.eval.events

theorem Ran.zero : Ran g c n 0 p p [] := by
  refine ⟨rfl, rfl, ?_, ?_⟩
  · intro limits fuel _
    have hfuel : fuel.map (· - attempts []) = fuel := by simp [attempts]
    rw [hfuel]
    rfl
  · intro limits fuel hnot
    exact absurd within_nil hnot

/-- The trial of a turn that caps stop stops the run. -/
theorem run_stopped (htried : Tried c p.eval o t es) {limits : Limits} {fuel : Option Nat}
    (hnot : ¬ Within limits fuel [] es) : ∃ e r,
      (p.withFuel fuel).run g c limits n (k + 1) = (.error e, r) ∧
        StopsShort es p.eval.events e r.eval.events := by
  obtain ⟨e, u, heval, hshort⟩ := htried.stopped limits fuel hnot
  refine ⟨e, { p.withFuel fuel with eval := u }, ?_, hshort⟩
  unfold run
  rw [attempt_of_error heval]

/-- The last turn is its trial and what settles it. -/
theorem Ran.last (htried : Tried c p.eval o t es)
    (hsettle : p.settle g c n o t = (.ok false, q)) (hevents : q.eval.events = t.events) :
    Ran g c n (k + 1) p q es := by
  refine ⟨?_, hevents.trans htried.events, ?_, fun _ _ hnot => run_stopped htried hnot⟩
  · unfold run
    rw [attempt_of_ok htried.free, hsettle]
  · intro limits fuel hwithin
    unfold run
    rw [attempt_of_ok (htried.allowed limits fuel hwithin), settle_withFuel, hsettle]

/-- A turn before others leaves to them what it has not used of the attempts. -/
theorem Ran.turn (htried : Tried c p.eval o t es)
    (hsettle : p.settle g c n o t = (.ok true, q)) (hevents : q.eval.events = t.events)
    (hrest : Ran g c n k q r es') : Ran g c n (k + 1) p r (es ++ es') := by
  have hboth : ∀ limits fuel, Within limits fuel [] (es ++ es') ↔ Within limits fuel [] es ∧
      Within limits (fuel.map (· - attempts es)) [] es' := by
    intro limits fuel
    rw [within_append, htried.balanced]
  -- the first turn under caps that allow it, and then the others
  have hfirst : ∀ limits fuel, Within limits fuel [] es →
      (p.withFuel fuel).run g c limits n (k + 1) =
        (q.withFuel (fuel.map (· - attempts es))).run g c limits n k := by
    intro limits fuel hwithin
    rw [run, attempt_of_ok (htried.allowed limits fuel hwithin), settle_withFuel, hsettle]
  refine ⟨?_, ?_, ?_, ?_⟩
  · rw [run, attempt_of_ok htried.free, hsettle]
    exact hrest.free
  · rw [hrest.events, hevents, htried.events, List.reverse_append, List.append_assoc]
  · intro limits fuel hwithin
    obtain ⟨hwithin, hwithin'⟩ := (hboth limits fuel).mp hwithin
    rw [hfirst limits fuel hwithin, hrest.allowed limits _ hwithin', map_sub_attempts_append]
  · intro limits fuel hnot
    by_cases hwithin : Within limits fuel [] es
    · have hnot' : ¬ Within limits (fuel.map (· - attempts es)) [] es' := fun hwithin' =>
        hnot ((hboth limits fuel).mpr ⟨hwithin, hwithin'⟩)
      obtain ⟨e, u, hrun, hshort⟩ := hrest.stopped limits _ hnot'
      exact ⟨e, u, (hfirst limits fuel hwithin).trans hrun,
        hshort.after_all (hevents.trans htried.events)⟩
    · obtain ⟨e, u, hrun, hshort⟩ := run_stopped htried hwithin
      exact ⟨e, u, hrun, hshort.append es'⟩

/-- Without caps any number of turns can be taken, by induction on it. -/
theorem exists_ran (hc : c.Consistent) (hroot : c.root ∈ c.order) (k : Nat)
    (hs : p.eval.Ready c) (hfuel : p.eval.fuel = none) : ∃ q es, Ran g c n k p q es := by
  induction k generalizing p with
  | zero => exact ⟨p, [], .zero⟩
  | succ k ih =>
      obtain ⟨o, t, es, htried⟩ := exists_tried hc hroot hs hfuel
      obtain ⟨b, hb⟩ : ∃ b, (p.settle g c n o t).1 = .ok b := exists_settle_fst
      cases b with
      | false => exact ⟨_, es, .last htried (Prod.ext hb rfl) events_settle⟩
      | true =>
          obtain ⟨r, es', hrest⟩ := ih (ready_settle htried.ready)
            (fuel_settle.trans htried.fuel)
          exact ⟨r, es ++ es', .turn htried (Prod.ext hb rfl) events_settle hrest⟩

end Progress

/-! ## A whole parse -/

namespace Outcome

variable {α : Type}

/-- Rules entered and terminals tried, in all turns. -/
def attempts (o : Outcome α) : Nat := Event.attempts o.events

/-- The most rules that were open at one time. -/
def mostOpen (o : Outcome α) : Nat := Event.mostOpen [] o.events

end Outcome

/-- A parse, as it depends on the caps: without caps it has a result, caps that allow for the
attempts it makes then and for the rules it has open then change nothing, and others end it with a
fault of the caps after a first part of the events. -/
structure CapsExact {α : Type} (parse : Limits → Outcome α) : Prop where
  isOk : ∃ r, (parse {}).result = .ok r
  allowed : ∀ limits, limits.Allow (parse {}).attempts (parse {}).mostOpen →
    parse limits = parse {}
  stopped : ∀ limits, ¬ limits.Allow (parse {}).attempts (parse {}).mostOpen →
    ((parse limits).result = .error (.fault .fuelExhausted) ∨
        (parse limits).result = .error (.fault .recursionLimitExceeded)) ∧
      (parse limits).events <+: (parse {}).events

namespace CapsExact

variable {α : Type} {parse : Limits → Outcome α} {limits limits' : Limits} {r : Parse α}

theorem allow_of_ok (h : CapsExact parse) (hr : (parse limits).result = .ok r) :
    limits.Allow (parse {}).attempts (parse {}).mostOpen := by
  by_contra hnot
  rcases (h.stopped limits hnot).1 with hfault | hfault
  · rw [hr] at hfault
    cases hfault
  · rw [hr] at hfault
    cases hfault

/-- Under caps there is the result without caps or none. -/
theorem eq_free_of_ok (h : CapsExact parse) (hr : (parse limits).result = .ok r) :
    parse limits = parse {} :=
  h.allowed limits (h.allow_of_ok hr)

/-- Raising caps keeps a result. -/
theorem eq_of_atMost (h : CapsExact parse) (hr : (parse limits).result = .ok r)
    (hle : limits.AtMost limits') : parse limits' = parse limits := by
  have hallow := (h.allow_of_ok hr).mono hle
  rw [h.allowed limits' hallow, h.eq_free_of_ok hr]

end CapsExact

/-- Nothing of the symbols has been tried yet. -/
def Progress.start {α : Type} (c : CompiledGrammar) (stream : SymbolStream) : Progress α :=
  { eval := .initial c {} stream.symbols
    parse := { diagnostics := stream.diagnostics } }

/-- The outcome of the turns of a parse. -/
def Outcome.ofRun {α : Type} (ran : Except Fault Unit × Progress α) : Outcome α :=
  { result := match ran.1 with
      | .ok () => .ok ran.2.parse
      | .error fault => .error (.fault fault)
    calls := ran.2.calls.toList
    events := ran.2.eval.events.reverse }

section

variable {α : Type} {g : Grammar α} {c : CompiledGrammar} {n k : Nat} {p q : Progress α}
  {es : List Event} {stream : SymbolStream}

theorem Progress.Ran.capsExact (h : Progress.Ran g c n k p q es) (hfuel : p.eval.fuel = none)
    (hevents : p.eval.events = []) :
    CapsExact fun limits => Outcome.ofRun ((p.withFuel limits.fuel).run g c limits n k) := by
  have hlast : q.eval.events.reverse = es := by
    rw [h.events, hevents, List.append_nil, List.reverse_reverse]
  have hsame : p.withFuel none = p := by
    unfold Progress.withFuel EvalState.withFuel
    rw [← hfuel]
  have hfree : Outcome.ofRun ((p.withFuel none).run g c {} n k) =
      { result := .ok q.parse, calls := q.calls.toList, events := es } := by
    rw [hsame, h.free, ← hlast]
    rfl
  refine ⟨⟨q.parse, congrArg Outcome.result hfree⟩, ?_, ?_⟩
  · intro limits hallow
    rw [hfree] at hallow
    dsimp only
    rw [hfree, h.allowed limits _ (within_nil_iff_allow.mpr hallow), ← hlast]
    rfl
  · intro limits hnot
    rw [hfree] at hnot
    obtain ⟨e, r, hrun, hfault, part, hpart, hstopped⟩ :=
      h.stopped limits _ (mt within_nil_iff_allow.mp hnot)
    have hreverse : r.eval.events.reverse = part := by
      rw [hstopped, hevents, List.append_nil, List.reverse_reverse]
    dsimp only
    rw [hfree, hrun]
    refine ⟨?_, ?_⟩
    · rcases hfault with rfl | rfl
      · exact Or.inl rfl
      · exact Or.inr rfl
    · show r.eval.events.reverse <+: es
      rw [hreverse]
      exact hpart

/-- A parse that tries nothing has nothing that caps could forbid. -/
theorem CapsExact.of_untried {parse : Limits → Outcome α} {r : Parse α}
    (h : ∀ limits, parse limits = { result := .ok r }) : CapsExact parse := by
  refine ⟨⟨r, congrArg Outcome.result (h {})⟩, ?_, ?_⟩
  · intro limits _
    exact (h limits).trans (h {}).symm
  · intro limits hnot
    rw [h] at hnot
    exact absurd (within_nil_iff_allow.mp within_nil) hnot

theorem CompiledGrammar.parseStream_eq_ofRun
    (h : Diagnostic.anyLexical stream.diagnostics = false) (limits : Limits) :
    c.parseStream g limits n stream = .ofRun (((Progress.start c stream).withFuel limits.fuel).run
      g c limits n (stream.symbols.size + 1)) :=
  if_neg (by simp [h])

theorem CompiledGrammar.capsExact_parseStream (hc : c.Consistent) (hroot : c.root ∈ c.order) :
    CapsExact fun limits => c.parseStream g limits n stream := by
  cases hlexical : Diagnostic.anyLexical stream.diagnostics with
  | true => exact .of_untried fun limits => if_pos hlexical
  | false =>
      obtain ⟨q, es, hran⟩ := (Progress.start c stream).exists_ran (g := g) (n := n) hc hroot
        (stream.symbols.size + 1) (EvalState.ready_initial c {} stream.symbols) rfl
      rw [funext (parseStream_eq_ofRun hlexical)]
      exact hran.capsExact rfl rfl

end

namespace Parser

variable {α : Type} {p : Parser α} {c : CompiledGrammar}

theorem parse_eq_parseStream (hcompile : p.grammar.compile p.root = .ok c) (source : String) :
    p.parse source = c.parseStream p.grammar p.limits (Text.byteLength source.toList)
      (p.symbolizeWith c source) := by
  unfold parse
  rw [compiled_eq, hcompile]
  rfl

/-- Parses a text under other caps. -/
def parseWithin (p : Parser α) (limits : Limits) (source : String) : Outcome α :=
  ({ p with limits } : Parser α).parse source

theorem capsExact_parse (hcompile : p.grammar.compile p.root = .ok c) (source : String) :
    CapsExact (p.parseWithin · source) := by
  have hc := Grammar.consistent_of_compile hcompile
  have hroot := (Grammar.covers_of_compile hcompile).root_mem_order
  have hparse : ∀ limits, p.parseWithin limits source = c.parseStream p.grammar limits
      (Text.byteLength source.toList) (p.symbolizeWith c source) :=
    fun limits => parse_eq_parseStream (p := { p with limits }) hcompile source
  rw [funext hparse]
  exact c.capsExact_parseStream hc hroot

/-- The attempts of a parse without caps and the most rules it has open are exact thresholds for the
caps: under caps that allow for both a parse is the same, and under others it is a fault of the caps
after a first part of the events. So raising caps keeps every result. -/
theorem caps_exact (hcompile : p.grammar.compile p.root = .ok c) (source : String) :
    (∃ r, (p.parseWithin {} source).result = .ok r) ∧
    (∀ limits, limits.Allow (p.parseWithin {} source).attempts (p.parseWithin {} source).mostOpen →
      p.parseWithin limits source = p.parseWithin {} source) ∧
    (∀ limits, ¬ limits.Allow (p.parseWithin {} source).attempts
        (p.parseWithin {} source).mostOpen →
      ((p.parseWithin limits source).result = .error (.fault .fuelExhausted) ∨
        (p.parseWithin limits source).result = .error (.fault .recursionLimitExceeded)) ∧
      (p.parseWithin limits source).events <+: (p.parseWithin {} source).events) ∧
    ∀ limits limits' r, limits.AtMost limits' → (p.parseWithin limits source).result = .ok r →
      (p.parseWithin limits' source).result = .ok r := by
  have hexact : CapsExact (p.parseWithin · source) := capsExact_parse hcompile source
  refine ⟨hexact.isOk, hexact.allowed, hexact.stopped, ?_⟩
  intro limits limits' r hle hr
  have heq : p.parseWithin limits' source = p.parseWithin limits source :=
    hexact.eq_of_atMost hr hle
  rw [heq, hr]

/-- A parser for sums. -/
def tally : Parser Nat := { grammar := .tally, root := ⟨0⟩ }

set_option maxRecDepth 20000 in
theorem attempts_tally : (tally.parseWithin {} "i++ii+").attempts = 11 := by cbv

set_option maxRecDepth 20000 in
theorem mostOpen_tally : (tally.parseWithin {} "i++ii+").mostOpen = 2 := by cbv

theorem caps_exact_tally :
    Grammar.tally.compile ⟨0⟩ = .ok Grammar.tallyCompiled ∧
    tally.parseWithin { fuel := some 11, depth := some 2 } "i++ii+" =
      tally.parseWithin {} "i++ii+" ∧
    ((tally.parseWithin { fuel := some 10 } "i++ii+").result = .error (.fault .fuelExhausted) ∨
      (tally.parseWithin { fuel := some 10 } "i++ii+").result =
        .error (.fault .recursionLimitExceeded)) ∧
    (tally.parseWithin { fuel := some 10 } "i++ii+").events <+:
      (tally.parseWithin {} "i++ii+").events := by
  obtain ⟨_, hallowed, hstopped, _⟩ := caps_exact (p := tally) Grammar.compile_tally "i++ii+"
  rw [attempts_tally, mostOpen_tally] at hallowed hstopped
  refine ⟨Grammar.compile_tally, hallowed { fuel := some 11, depth := some 2 } ⟨?_, ?_⟩,
    hstopped { fuel := some 10 } ?_⟩
  · rintro f ⟨⟩
    exact Nat.le_refl 11
  · rintro d ⟨⟩
    exact Nat.le_refl 2
  · intro hallow
    have hle : 11 ≤ 10 := hallow.1 10 rfl
    omega

end Parser

end Descent
