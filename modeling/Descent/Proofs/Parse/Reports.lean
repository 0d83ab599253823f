import Descent.Proofs.Match.Expected
import Descent.Proofs.Parse.Recovery
import Descent.Proofs.Symbol.Segments

/-!
# What a parse reports

A diagnostic that a parse makes is a report on a trial of its root that began with nothing held for
furthest (`Progress.reports_run`, by induction on the turns). So what it says of the symbol found
and of what was expected is read off the record of that trial: where no alternative hides another, a
diagnostic does not expect what it has found (`Parser.found_not_expected`).
-/

namespace Descent

namespace CompiledGrammar

/-- The diagnostic reports on a run of the root. -/
def Reports (c : CompiledGrammar) (symbols : Array Symbol) (n : Nat)
    (d : Diagnostic) : Prop :=
  ∃ m p q k o log, Run c symbols m (.leaf (.rule c.root)) p o q log ∧
    d = c.report symbols n k (log.foldl Note.mark none)

/-- What a report says: it is about the symbol or the end at the furthest failure, and expects only
what is held for furthest. -/
theorem report_cases (c : CompiledGrammar) (symbols : Array Symbol) (n k : Nat)
    (furthest : Option Furthest) :
    let d := c.report symbols n k furthest
    ∃ f : Furthest, (f.expected = [] ∨ furthest = some f) ∧
      d.expected = f.expected.filter c.isScanned ∧
      ((∃ x, symbols[f.position]? = some x ∧ d.kind = .unexpectedSymbol ∧ d.start = x.start ∧
          d.stop = x.stop ∧ d.text = x.text ∧ d.found = some x.terminal) ∨
        (d.kind = .unexpectedEnd ∧ d.start = n ∧ d.stop = n ∧ d.text = "" ∧ d.found = none)) := by
  intro d
  let f := (furthest.filter (k ≤ ·.position)).getD ⟨k, []⟩
  have hheld : f.expected = [] ∨ furthest = some f := by
    cases hfilter : furthest.filter (k ≤ ·.position) with
    | none => exact Or.inl (by simp [f, hfilter])
    | some held =>
        refine Or.inr ((Option.filter_eq_some_iff.mp hfilter).1.trans ?_)
        simp only [f, hfilter, Option.getD_some]
  have hd : d = c.report symbols n k furthest := rfl
  unfold report at hd
  dsimp only at hd
  refine ⟨f, hheld, ?_⟩
  cases hsymbol : symbols[f.position]? with
  | some x =>
      rw [hsymbol] at hd
      rw [hd]
      exact ⟨rfl, Or.inl ⟨x, rfl, rfl, rfl, rfl, rfl, rfl⟩⟩
  | none =>
      rw [hsymbol] at hd
      rw [hd]
      exact ⟨rfl, Or.inr ⟨rfl, rfl, rfl, rfl, rfl⟩⟩

variable {c : CompiledGrammar} {symbols : Array Symbol} {n : Nat} {d : Diagnostic}

/-- A report on a symbol does not expect it, as long as no alternative hides another. -/
theorem Reports.not_mem_expected {t : TerminalId} (h : c.Reports symbols n d)
    (hc : c.Consistent) (hexact : c.Exact)
    (hrules : ∀ id r, c.rule? id = some r → ∀ s ∈ r.body.steps, s.Serves c)
    (hfound : d.found = some t) : t ∉ d.expected := by
  obtain ⟨_, _, _, k, _, log, hrun, rfl⟩ := h
  obtain ⟨f, hheld, hexpected, hcase⟩ := c.report_cases symbols n k (log.foldl Note.mark none)
  rw [hexpected]
  intro ht
  have ht : t ∈ f.expected := (List.mem_filter.mp ht).1
  rcases hcase with ⟨x, hx, _, _, _, _, hx_found⟩ | ⟨_, _, _, _, hnone⟩
  · obtain rfl : x.terminal = t := Option.some.inj (hx_found.symm.trans hfound)
    rcases hheld with hempty | hheld
    · rw [hempty] at ht
      cases ht
    · exact hrun.not_mem_expected hc hexact hrules trivial hheld hx ht
  · rw [hnone] at hfound
    cases hfound

end CompiledGrammar

section

variable {c : CompiledGrammar} {s t : EvalState} {id : RuleId} {o : Option MatchTree}

/-- What an evaluation holds for furthest is read off the record of its run. -/
theorem furthest_of_evaluate {limits : Limits} (hc : c.Consistent) (hid : id ∈ c.order)
    (hs : s.Ready c) (hnone : s.furthest = none) (heval : c.evaluate limits id s = .ok o t) :
    ∃ m log, Run c s.cursor.symbols m (.leaf (.rule id)) s.cursor.position
        (o.map fun tree => [tree]) t.cursor.position log ∧
      t.furthest = log.foldl Note.mark none := by
  obtain ⟨o', q, log, hrun, hfollows⟩ := evaluate_follows limits hc hid hs
  cases hreplay : s.ledger.replay limits log with
  | error e =>
      obtain ⟨q', hfault⟩ := hfollows.of_replay_error hreplay
      rw [heval] at hfault
      cases hfault
  | ok l =>
      obtain ⟨rfl, rfl⟩ := EStateM.Result.ok.inj
        (heval.symm.trans (hfollows.of_replay_ok hreplay))
      refine ⟨_, log, hrun, ?_⟩
      have hfurthest := (Ledger.replay_cases hreplay).1
      rwa [show s.ledger.furthest = none from hnone] at hfurthest

end

/-! ## Turns -/

namespace Progress

variable {α : Type} {g : Grammar α} {c : CompiledGrammar} {symbols : Array Symbol} {n : Nat}
  {p : Progress α} {d : Diagnostic}

theorem mem_diagnostics_reportOnce {f : Option Furthest}
    (h : d ∈ (p.reportOnce c n f).skip.parse.diagnostics) :
    d ∈ p.parse.diagnostics ∨ ∃ k, d = c.report p.eval.cursor.symbols n k f := by
  change d ∈ (p.reportOnce c n f).parse.diagnostics at h
  unfold reportOnce at h
  split at h
  · rcases List.mem_append.mp h with h | h
    · exact Or.inl h
    · exact Or.inr ⟨_, List.mem_singleton.mp h⟩
  · exact Or.inl h

theorem diagnostics_keep (eval : EvalState) (tree : MatchTree) :
    (p.keep g c eval tree).parse.diagnostics = p.parse.diagnostics := by
  unfold keep
  rw [accept_eq]
  dsimp only
  split <;> rfl

/-- A turn adds no more than a report on its trial of the root. -/
theorem mem_diagnostics_settle {tree : Option MatchTree} {eval : EvalState}
    (h : d ∈ (p.settle g c n tree eval).2.parse.diagnostics) :
    d ∈ p.parse.diagnostics ∨ ∃ k, d = c.report eval.cursor.symbols n k eval.furthest := by
  unfold settle at h
  split at h
  · split at h
    · rw [diagnostics_keep] at h
      exact Or.inl h
    · have hcases := mem_diagnostics_reportOnce h
      rwa [diagnostics_keep] at hcases
  · exact mem_diagnostics_reportOnce h

/-- Between two turns nothing is held for furthest. -/
structure Rested (c : CompiledGrammar) (symbols : Array Symbol) (p : Progress α) : Prop where
  ready : p.eval.Ready c
  symbols : p.eval.cursor.symbols = symbols
  furthest : p.eval.furthest = none

theorem rested_settle {tree : Option MatchTree} {eval : EvalState} (hready : eval.Ready c)
    (hsymbols : eval.cursor.symbols = symbols) :
    (p.settle g c n tree eval).2.Rested c symbols := by
  obtain ⟨cursor, heval, _⟩ := exists_eval_settle g c n p tree eval
  refine ⟨ready_settle hready, symbols_settle.trans hsymbols, ?_⟩
  rw [heval]

/-- Whatever the caps are, all that the turns add to the diagnostics are reports. -/
theorem reports_run (hc : c.Consistent) (hroot : c.root ∈ c.order) (limits : Limits)
    (h : p.Rested c symbols) (hreports : ∀ d ∈ p.parse.diagnostics, c.Reports symbols n d)
    (turns : Nat) :
    ∀ d ∈ (p.run g c limits n turns).2.parse.diagnostics, c.Reports symbols n d := by
  induction turns generalizing p with
  | zero => exact hreports
  | succ turns ih =>
      rw [run]
      cases heval : c.evaluate limits c.root p.eval with
      | error e eval =>
          rw [attempt_of_error heval]
          exact hreports
      | ok tree eval =>
          obtain ⟨m, log, hrun, hfurthest⟩ :=
            furthest_of_evaluate hc hroot h.ready h.furthest heval
          obtain ⟨_, _, _, hready, hsymbols, _⟩ := exists_run_of_evaluate hc hroot h.ready heval
          have hsymbols : eval.cursor.symbols = symbols := hsymbols.trans h.symbols
          have hsettled : ∀ d ∈ (p.settle g c n tree eval).2.parse.diagnostics,
              c.Reports symbols n d := by
            intro d hd
            rcases mem_diagnostics_settle hd with hd | ⟨k, rfl⟩
            · exact hreports d hd
            · rw [h.symbols] at hrun
              rw [hsymbols, hfurthest]
              exact ⟨m, _, _, k, _, log, hrun, rfl⟩
          rw [attempt_of_ok heval]
          have hrested : (p.settle g c n tree eval).2.Rested c symbols :=
            rested_settle hready hsymbols
          generalize p.settle g c n tree eval = settled at hsettled hrested ⊢
          obtain ⟨_ | _ | _, q⟩ := settled
          · exact hsettled
          · exact hsettled
          · exact ih hrested hsettled

end Progress

/-! ## Parsers -/

/-- An outcome that answers a question about its parse has one. -/
theorem Outcome.exists_parse {α β : Type} {outcome : Outcome α} {f : Parse α → β} {b : β}
    (h : outcome.result.toOption.map f = some b) :
    ∃ parse, outcome.result = .ok parse ∧ f parse = b := by
  cases hresult : outcome.result with
  | error e =>
      rw [hresult] at h
      cases h
  | ok parse =>
      rw [hresult] at h
      exact ⟨parse, rfl, Option.some.inj h⟩

namespace Parser

variable {α : Type} {p : Parser α} {c : CompiledGrammar}

/-- A text is parsed by what the grammar is compiled to. -/
theorem exists_compile_of_parse {source : String} {parse : Parse α}
    (h : (p.parse source).result = .ok parse) : ∃ c, p.grammar.compile p.root = .ok c := by
  unfold Parser.parse at h
  rw [compiled_eq] at h
  cases hcompile : p.grammar.compile p.root with
  | error e =>
      rw [hcompile] at h
      cases h
  | ok c => exact ⟨c, rfl⟩

/-- The diagnostics of a parse are those of the cutting, or reports on its symbols. -/
theorem diagnostics_cases (hcompile : p.grammar.compile p.root = .ok c) {source : String}
    {parse : Parse α} (h : (p.parse source).result = .ok parse) :
    parse.diagnostics = (p.symbolizeWith c source).diagnostics ∨
      ∀ d ∈ parse.diagnostics, c.Reports (p.symbolizeWith c source).symbols
        (Text.byteLength source.toList) d := by
  have hc := Grammar.consistent_of_compile hcompile
  have hroot := (Grammar.covers_of_compile hcompile).root_mem_order
  rw [parse_eq_parseStream hcompile] at h
  have hlexical : Diagnostic.anyLexical (p.symbolizeWith c source).diagnostics = false ↔
      (p.symbolizeWith c source).diagnostics = [] := SymbolStream.anyLexical_ofPieces _
  generalize p.symbolizeWith c source = stream at h hlexical ⊢
  cases hany : Diagnostic.anyLexical stream.diagnostics with
  | true =>
      rw [CompiledGrammar.parseStream, if_pos hany] at h
      cases h
      exact Or.inl rfl
  | false =>
      rw [CompiledGrammar.parseStream_eq_ofRun hany] at h
      let start := (Progress.start (α := α) c stream).withFuel p.limits.fuel
      have hrested : start.Rested c stream.symbols :=
        ⟨(EvalState.ready_initial c {} stream.symbols).withFuel _, rfl, rfl⟩
      have hnone : ∀ d ∈ start.parse.diagnostics,
          c.Reports stream.symbols (Text.byteLength source.toList) d := by
        intro d hd
        rw [show start.parse.diagnostics = [] from hlexical.mp hany] at hd
        cases hd
      have hreports := Progress.reports_run (g := p.grammar) hc hroot p.limits hrested hnone
        (stream.symbols.size + 1)
      refine Or.inr ?_
      unfold Outcome.ofRun at h
      dsimp only at h
      split at h
      · cases h
        exact hreports
      · cases h

/-- Where every step has room for its alternatives and hides none of them, a diagnostic does not
expect what it has found. -/
theorem found_not_expected (hcompile : p.grammar.compile p.root = .ok c)
    (hopen : ∀ id r, c.rule? id = some r → ∀ s ∈ r.body.steps,
      s.branches.size ≤ 65536 ∧ s.Open c) (source : String) :
    ∀ parse, (p.parse source).result = .ok parse → ∀ d ∈ parse.diagnostics,
      ∀ t, d.found = some t → t ∉ d.expected := by
  intro parse hparse d hd t hfound
  rcases diagnostics_cases hcompile hparse with hlexical | hreports
  · -- what is found is a symbol, and there are only characters
    rw [hlexical] at hd
    obtain ⟨_, _, _, _, rfl⟩ := ((SymbolStream.describes_ofPieces _).mem_diagnostics d).mp hd
    cases hfound
  · refine (hreports d hd).not_mem_expected (Grammar.consistent_of_compile hcompile)
      (Grammar.exact_of_compile hcompile) (fun id r hr s hs => ?_) hfound
    obtain ⟨hsize, hs_open⟩ := hopen id r hr s hs
    exact (Grammar.denotes_of_compile hcompile hr hs hsize).serves hs_open

/-- What is wrong with `i++ii+`: a sign follows on a sign, and nothing on the last one. -/
def tallyReports : List (DiagnosticKind × Nat × Nat × Option TerminalId) :=
  [(.unexpectedSymbol, 2, 3, some ⟨1⟩), (.unexpectedEnd, 6, 6, none)]

set_option maxRecDepth 20000 in
theorem exists_parse_tally : ∃ parse, (tally.parse "i++ii+").result = .ok parse ∧
    parse.diagnostics.map (fun d => (d.kind, d.start, d.stop, d.found)) = tallyReports :=
  Outcome.exists_parse (by cbv)

theorem found_not_expected_tally :
    Grammar.tally.compile ⟨0⟩ = .ok Grammar.tallyCompiled ∧
    (∀ id r, Grammar.tallyCompiled.rule? id = some r → ∀ s ∈ r.body.steps,
      s.branches.size ≤ 65536 ∧ s.Open Grammar.tallyCompiled) ∧
    ∃ parse d, (tally.parse "i++ii+").result = .ok parse ∧ d ∈ parse.diagnostics ∧
      d.kind = .unexpectedSymbol ∧ d.found = some ⟨1⟩ ∧ ⟨1⟩ ∉ d.expected := by
  have hopen : ∀ id r, Grammar.tallyCompiled.rule? id = some r → ∀ s ∈ r.body.steps,
      s.branches.size ≤ 65536 ∧ s.Open Grammar.tallyCompiled := by
    intro id r hr s hs
    obtain ⟨hsize, hsingle⟩ := Grammar.of_mem_rules (P := fun r => ∀ s ∈ r.body.steps,
      s.branches.size ≤ 65536 ∧ s.branches.toList.dropLast = []) (by decide) hr s hs
    refine ⟨hsize, CompiledStep.open_of_dropLast ?_⟩
    rw [hsingle]
    exact fun l hl => absurd hl List.not_mem_nil
  obtain ⟨parse, hparse, hreports⟩ := exists_parse_tally
  obtain ⟨d, ds, hds, hsays, _⟩ := List.map_eq_cons_iff.mp hreports
  obtain ⟨hkind, hsays⟩ := Prod.mk.inj hsays
  obtain ⟨_, hsays⟩ := Prod.mk.inj hsays
  obtain ⟨_, hfound⟩ := Prod.mk.inj hsays
  have hd : d ∈ parse.diagnostics := by
    rw [hds]
    exact List.mem_cons_self
  exact ⟨Grammar.compile_tally, hopen, parse, d, hparse, hd, hkind, hfound,
    found_not_expected Grammar.compile_tally hopen "i++ii+" parse hparse d hd _ hfound⟩

end Parser

/-! ## A hidden alternative -/

namespace Grammar

/-- A pair begins with something that may be left out, or else with a `t`, and ends in a `y`. -/
def shadowed : Grammar Nat :=
  let g : Grammar Nat := {}
  let (x, g) := g.addTerminal { matcher := .char 'x' }
  let (y, g) := g.addTerminal { matcher := .char 'y' }
  let (t, g) := g.addTerminal { matcher := .char 't' }
  let (start, g) := g.addRule "start"
  let (pair, g) := g.addRule "pair"
  let (maybe, g) := g.addRule "maybe"
  let g := g.define maybe [.optional (.terminal x)]
  let g := g.define pair [.step (.choice [.rule maybe, .terminal t]), .step (.terminal y)]
  g.define start [.step (.rule pair)]

end Grammar

namespace Parser

def shadowed : Parser Nat := { grammar := .shadowed, root := ⟨0⟩ }

set_option maxRecDepth 20000 in
/-- The `t` is never read, for what may be left out has matched before it is tried. Yet a pair can
begin with it, and so the start expects the `t` that it has found. -/
theorem found_and_expected_shadowed : ∃ c parse d t,
    shadowed.grammar.compile shadowed.root = .ok c ∧ (shadowed.parse "t").result = .ok parse ∧
    d ∈ parse.diagnostics ∧ d.kind = .unexpectedSymbol ∧ d.found = some t ∧ t ∈ d.expected := by
  have hreported : (shadowed.parse "t").result.toOption.map (fun parse =>
      parse.diagnostics.map fun d => (d.kind, d.found, d.expected)) =
        some [(.unexpectedSymbol, some ⟨2⟩, [⟨1⟩, ⟨0⟩, ⟨2⟩])] := by cbv
  obtain ⟨parse, hparse, hreports⟩ := Outcome.exists_parse hreported
  obtain ⟨c, hc⟩ := exists_compile_of_parse hparse
  obtain ⟨d, ds, hds, hsays, _⟩ := List.map_eq_cons_iff.mp hreports
  obtain ⟨hkind, hsays⟩ := Prod.mk.inj hsays
  obtain ⟨hfound, hexpected⟩ := Prod.mk.inj hsays
  refine ⟨c, parse, d, ⟨2⟩, hc, hparse, ?_, hkind, hfound, ?_⟩
  · rw [hds]
    exact List.mem_cons_self
  · rw [hexpected]
    decide

end Parser

end Descent
