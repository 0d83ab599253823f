import Descent.Proofs.Match.Alike
import Descent.Proofs.Match.Conformance
import Descent.Proofs.Parse.Caps
import Descent.Proofs.Symbol.Precedence

/-!
# What cannot be reached does not matter

A parser whose grammar has grown cuts texts as before, because it cuts them with the same terminals,
and then takes the same turns: each trial of the root comes to the same outcome
(`evaluate_alike`), and what is kept of it is resolved and reported with rules and terminals that
were there before. The two parses differ in the guard only, all the way through
(`Progress.run_alike`).
-/

namespace Descent

open Text

/-! ## Cutting text -/

namespace Piece

variable {t t' : TerminalTable} {order : TerminalOrder}

theorem firstMatch?_growsTo (h : t.GrowsTo t') (spot : Spot) {ids : List TerminalId}
    (hids : ∀ id ∈ ids, t.contains id = true) : firstMatch? t' spot ids = firstMatch? t spot ids :=
  findSome?_congr fun id hid => by rw [h.matchAt_eq spot (hids id hid)]

theorem next?_growsTo (h : t.GrowsTo t') (hignored : ∀ id ∈ order.ignored, t.contains id = true)
    (hscanned : ∀ id ∈ order.scanned, t.contains id = true) (spot : Spot) :
    next? t' order spot = next? t order spot := by
  unfold next?
  rw [firstMatch?_growsTo h spot hignored, firstMatch?_growsTo h spot hscanned]
  cases hfirst : firstMatch? t spot order.scanned with
  | none => rfl
  | some found =>
      obtain ⟨before, after, hsplit, _⟩ := firstMatch?_eq_some_iff.mp hfirst
      have hmem : found.1 ∈ order.scanned := by simp [hsplit]
      simp only [h.isLiteral_eq (hscanned _ hmem)]

theorem cutFrom_growsTo (h : t.GrowsTo t') (hignored : ∀ id ∈ order.ignored, t.contains id = true)
    (hscanned : ∀ id ∈ order.scanned, t.contains id = true) (fuel : Nat) (spot : Spot) :
    cutFrom t' order fuel spot = cutFrom t order fuel spot := by
  induction fuel generalizing spot with
  | zero => rfl
  | succ fuel ih =>
      unfold cutFrom
      rw [next?_growsTo h hignored hscanned]
      simp only [ih]

end Piece

/-! ## Resolving and reporting -/

namespace MatchTree

variable {α : Type} {g g' : Grammar α} {c c' : CompiledGrammar} {symbols : Array Symbol}

mutual

/-- A match is resolved by the transforms of its symbols and the actions of its rules. -/
theorem resolve_congr (hrule : ∀ id, c'.rule? id = c.rule? id)
    (htransform : ∀ x ∈ symbols, g'.transform? x.terminal = g.transform? x.terminal) :
    ∀ (t : MatchTree) (log : Array Call),
      (∀ id children, .rule id children ∈ t.postorder → g'.action? id = g.action? id) →
      t.resolve g' c' symbols log = t.resolve g c symbols log
  | absent, _, _ => by rw [resolve, resolve]
  | symbol i, _, _ => by
      rw [resolve, resolve]
      cases hx : symbols[i]? with
      | none => rfl
      | some x =>
          dsimp only
          rw [htransform x (Array.mem_of_getElem? hx)]
  | rule id children, log, haction => by
      have hchildren := resolveAll_congr hrule htransform children log fun q ts hmem =>
        haction q ts (List.mem_append_left _ hmem)
      rw [resolve, resolve, hchildren, hrule id,
        haction id children (List.mem_append_right _ (List.mem_singleton_self _))]

theorem resolveAll_congr (hrule : ∀ id, c'.rule? id = c.rule? id)
    (htransform : ∀ x ∈ symbols, g'.transform? x.terminal = g.transform? x.terminal) :
    ∀ (ts : List MatchTree) (log : Array Call),
      (∀ id children, .rule id children ∈ postorderAll ts → g'.action? id = g.action? id) →
      resolveAll g' c' symbols ts log = resolveAll g c symbols ts log
  | [], _, _ => rfl
  | t :: ts, log, haction => by
      have hfirst := resolve_congr hrule htransform t log fun q us hmem =>
        haction q us (List.mem_append_left _ hmem)
      have hrest := resolveAll_congr hrule htransform ts (t.resolve g c symbols log).2
        fun q us hmem => haction q us (List.mem_append_right _ hmem)
      rw [resolveAll, resolveAll, hfirst]
      dsimp only
      rw [hrest]

end

end MatchTree

theorem CompiledGrammar.Alike.report_eq {c c' : CompiledGrammar} (h : c.Alike c')
    (symbols : Array Symbol) (n p : Nat) (furthest : Option Furthest) :
    c'.report symbols n p furthest = c.report symbols n p furthest := by
  have hscanned : c'.isScanned = c.isScanned := by
    funext x
    rw [isScanned, isScanned, h.terminals_eq]
  have hdescribe : ∀ expected : List TerminalId,
      c'.describeExpected? (expected.filter c.isScanned) =
        c.describeExpected? (expected.filter c.isScanned) := by
    intro expected
    have hnames : (expected.filter c.isScanned).map c'.terminalName =
        (expected.filter c.isScanned).map c.terminalName :=
      List.map_congr_left fun x hx =>
        h.terminalName_eq x (List.contains_iff_mem.mp (List.mem_filter.mp hx).2)
    unfold describeExpected?
    rw [hnames]
  unfold report
  simp only [hscanned, hdescribe]

/-! ## Turns -/

/-- A rule that has been tried is among those that were compiled. -/
theorem Run.mem_order {c : CompiledGrammar} {symbols : Array Symbol} {m p q : Nat} {id : RuleId}
    {o : Option (List MatchTree)} {log : List Note} (hc : c.Consistent)
    (h : Run c symbols m (.leaf (.rule id)) p o q log) : id ∈ c.order := by
  cases h with
  | rule hr => exact (hc.mem_order id).mpr ⟨_, hr⟩

theorem Run.mem_order_of_mem {c : CompiledGrammar} {symbols : Array Symbol} {m p q : Nat}
    {x : Fragment} {tree : MatchTree} {log : List Note} (hc : c.Consistent)
    (h : Run c symbols m x p (some [tree]) q log) {id : RuleId} {children : List MatchTree}
    (hmem : .rule id children ∈ tree.postorder) : id ∈ c.order := by
  obtain ⟨_, _, _, _, _, _, hrun⟩ := h.exists_run_of_mem hc rfl
    (MatchTree.mem_postorderAll.mpr ⟨tree, List.mem_singleton_self _, hmem⟩)
  exact hrun.mem_order hc

theorem EvalState.apart_withGuard (guard : Array GuardEntry) : Apart (·.withGuard guard) :=
  ⟨fun _ => rfl, fun _ => rfl, fun _ _ => rfl, fun _ => rfl⟩

namespace Progress

variable {α : Type} {g g' : Grammar α} {c c' : CompiledGrammar} {n k : Nat} {p : Progress α}
  {guard : Array GuardEntry} {o : Option MatchTree} {eval : EvalState} {limits : Limits}

def withGuard (p : Progress α) (guard : Array GuardEntry) : Progress α :=
  { p with eval := p.eval.withGuard guard }

/-- What is left of a turn once the root has been tried does not look at the guard. -/
theorem settle_withGuard (h : c.Alike c')
    (hresolve : ∀ t, o = some t → ∀ log,
      t.resolve g' c' eval.cursor.symbols log = t.resolve g c eval.cursor.symbols log) :
    (p.withGuard guard).settle g' c' n o (eval.withGuard guard) =
      ((p.settle g c n o eval).1, (p.settle g c n o eval).2.withGuard guard) :=
  settle_change (EvalState.apart_withGuard guard) (EvalState.apart_withGuard guard)
    (fun symbols k furthest => h.report_eq symbols n k furthest) hresolve

/-- Whatever the caps are, the turns come to the same. -/
theorem run_alike (h : c.Alike c') (hc : c.Consistent) (hc' : c'.Consistent)
    (hroot : c.root ∈ c.order) {symbols : Array Symbol}
    (haction : ∀ id ∈ c.order, g'.action? id = g.action? id)
    (htransform : ∀ x ∈ symbols, g'.transform? x.terminal = g.transform? x.terminal)
    (hs : p.eval.Ready c) (hsymbols : p.eval.cursor.symbols = symbols) :
    Outcome.ofRun ((p.withGuard (Array.replicate c'.rules.size {})).run g' c' limits n k) =
      Outcome.ofRun (p.run g c limits n k) := by
  induction k generalizing p with
  | zero => rfl
  | succ k ih =>
      have htrial := evaluate_alike h hc hc' hroot hs hs.withGuard limits
      unfold run
      cases heval : c.evaluate limits c.root p.eval with
      | error e t =>
          rw [heval] at htrial
          obtain ⟨t', heval', hevents⟩ := htrial
          rw [← h.root_eq] at heval'
          rw [attempt_of_error heval, attempt_of_error (p := p.withGuard _) heval']
          show Outcome.mk _ _ t'.events.reverse = Outcome.mk _ _ t.events.reverse
          rw [hevents]
          rfl
      | ok o t =>
          rw [heval] at htrial
          rw [← h.root_eq] at htrial
          obtain ⟨_, _, hrun, hready, hkept, _⟩ := exists_run_of_evaluate hc hroot hs heval
          have hresolve : ∀ tree, o = some tree → ∀ log,
              tree.resolve g' c' t.cursor.symbols log = tree.resolve g c t.cursor.symbols log := by
            rintro tree rfl log
            rw [hkept, hsymbols]
            exact MatchTree.resolve_congr h.rule?_eq htransform tree log fun id children hmem =>
              haction id (hrun.mem_order_of_mem hc hmem)
          rw [attempt_of_ok heval, attempt_of_ok (p := p.withGuard _) htrial,
            settle_withGuard h hresolve]
          obtain ⟨b, hb⟩ : ∃ b, (p.settle g c n o t).1 = .ok b := exists_settle_fst
          obtain ⟨q, hq⟩ : ∃ q, p.settle g c n o t = (.ok b, q) := ⟨_, Prod.ext hb rfl⟩
          rw [hq]
          cases b with
          | false => rfl
          | true =>
              have hq : q = (p.settle g c n o t).2 := by rw [hq]
              exact ih (hq ▸ ready_settle hready)
                (hq ▸ symbols_settle.trans (hkept.trans hsymbols))

end Progress

namespace Parser

variable {α : Type} {p p' : Parser α} {c c' : CompiledGrammar}

/-- The terminals that a compiled grammar cuts text with are in the table. -/
theorem contains_of_mem_scanned (hcompile : p.grammar.compile p.root = .ok c) {x : TerminalId}
    (hx : x ∈ c.terminals.scanned) : p.grammar.terminals.contains x = true := by
  have hsorts := (Grammar.covers_of_compile hcompile).terminals
  rcases List.mem_append.mp hx with hx | hx
  · exact ((hsorts.mem_literal x).mp hx).1
  · exact ((hsorts.mem_scanning x).mp hx).1

section

variable (hk : p.grammar.Keeps p'.grammar) (hcompile : p.grammar.compile p.root = .ok c)
  (h : c.Alike c')

include hk hcompile h

theorem symbolizeWith_eq_of_keeps (source : String) :
    p'.symbolizeWith c' source = p.symbolizeWith c source := by
  have hsorts := (Grammar.covers_of_compile hcompile).terminals
  have hignored : ∀ id ∈ c.terminals.ignored, p.grammar.terminals.contains id = true :=
    fun id hid => ((hsorts.mem_ignored id).mp hid).1
  unfold symbolizeWith SymbolStream.ofText Piece.cutText
  rw [h.terminals_eq, Piece.cutFrom_growsTo hk.terminals hignored fun id hid =>
    contains_of_mem_scanned hcompile hid]

theorem parse_eq_of_keeps (hcompile' : p'.grammar.compile p'.root = .ok c')
    (hlimits : p'.limits = p.limits) (source : String) : p'.parse source = p.parse source := by
  have hc := Grammar.consistent_of_compile hcompile
  have hroot := (Grammar.covers_of_compile hcompile).root_mem_order
  have haction : ∀ id ∈ c.order, p'.grammar.action? id = p.grammar.action? id := by
    intro id hid
    obtain ⟨_, hcompiled⟩ := Grammar.exists_compileRule hcompile
    obtain ⟨r, hr⟩ := hc.isSome hid
    obtain ⟨x, hx, _⟩ := hcompiled id r hr
    unfold Grammar.action?
    rw [hk.rule?_eq id (Grammar.index_lt_of_rule? hx)]
  have htransform : ∀ x ∈ (p.symbolizeWith c source).symbols,
      p'.grammar.transform? x.terminal = p.grammar.transform? x.terminal := by
    intro x hx
    obtain ⟨stream, hstream, hfirst⟩ := first_of_symbolize hcompile source
    cases (symbolize_eq hcompile source).symm.trans hstream
    obtain ⟨_, _, _, _, ⟨before, after, hsplit, _⟩, _⟩ := hfirst x hx
    refine hk.transform?_eq _ (contains_of_mem_scanned hcompile ?_)
    simp [hsplit]
  rw [parse_eq_parseStream hcompile, parse_eq_parseStream hcompile',
    symbolizeWith_eq_of_keeps hk hcompile h, hlimits]
  cases hlexical : Diagnostic.anyLexical (p.symbolizeWith c source).diagnostics with
  | true =>
      unfold CompiledGrammar.parseStream
      rw [if_pos hlexical, if_pos hlexical]
  | false =>
      rw [CompiledGrammar.parseStream_eq_ofRun hlexical,
        CompiledGrammar.parseStream_eq_ofRun hlexical]
      let start : Progress α :=
        (Progress.start c (p.symbolizeWith c source)).withFuel p.limits.fuel
      exact Progress.run_alike (p := start) h hc (Grammar.consistent_of_compile hcompile') hroot
        haction htransform (EvalState.ready_initial c p.limits _) rfl

end

/-- Definitions that cannot be reached do not matter to a parser. However its grammar grows, as long
as no misuse is recorded, it compiles to the same rules in the same order, with the same first sets,
nullable rules and dispatch tables, and to the same sorted terminals; and every text is cut into the
same symbols and parsed with the same result, callbacks and events, under any caps. -/
theorem growth_unobserved (hcompile : p.grammar.compile p.root = .ok c)
    (hgrows : p.grammar.GrowsTo p'.grammar) (herrors : p'.grammar.errors = p.grammar.errors)
    (hroot : p'.root = p.root) (hlimits : p'.limits = p.limits) :
    (∃ c', p'.grammar.compile p'.root = .ok c' ∧ c'.root = c.root ∧ c'.order = c.order ∧
      (∀ id, c'.rule? id = c.rule? id) ∧ c'.terminals = c.terminals) ∧
    ∀ source, p'.symbolize source = p.symbolize source ∧ p'.parse source = p.parse source := by
  have hk := hgrows.keeps
  obtain ⟨c', hcompile', h⟩ := hk.compile herrors hcompile
  rw [← hroot] at hcompile'
  refine ⟨⟨c', hcompile', h.root_eq, h.order_eq, h.rule?_eq, h.terminals_eq⟩, fun source => ?_⟩
  refine ⟨?_, parse_eq_of_keeps hk hcompile h hcompile' hlimits source⟩
  rw [symbolize_eq hcompile, symbolize_eq hcompile', symbolizeWith_eq_of_keeps hk hcompile h]

/-- The grammar of sums with more that no sum needs: a name for both marks with a transform, a rule
that begins with itself, and one without a body. -/
def tallyGrown : Parser Nat where
  grammar :=
    let (either, g) := Grammar.tally.addTerminal { matcher := .oneOf [⟨0⟩, ⟨1⟩] }
    let g := g.setTransform either fun _ => 7
    let (loop, g) := g.addRule "loop"
    let (_, g) := g.addRule "nothing"
    g.define loop [.step (.rule loop), .step (.terminal either)]
  root := ⟨0⟩

theorem growsTo_tallyGrown : Grammar.tally.GrowsTo tallyGrown.grammar := by
  refine .define (.addRule (.addRule (.setTransform (.addTerminal .refl _ rfl) _ ?_ _) _) _) _ ?_ _
  · exact Nat.le_refl 3
  · exact Nat.le_refl 2

theorem growth_unobserved_tally :
    Grammar.tally.compile ⟨0⟩ = .ok Grammar.tallyCompiled ∧
    Grammar.tally.GrowsTo tallyGrown.grammar ∧
    tallyGrown.grammar.errors = Grammar.tally.errors ∧
    (∃ c', tallyGrown.grammar.compile ⟨0⟩ = .ok c' ∧ c'.order = [⟨0⟩, ⟨1⟩] ∧
      c'.terminals = ⟨[⟨2⟩], [⟨0⟩, ⟨1⟩], []⟩) ∧
    tallyGrown.parse "i++ii+" = tally.parse "i++ii+" := by
  have herrors : tallyGrown.grammar.errors = Grammar.tally.errors := by rfl
  obtain ⟨⟨c', hcompile, _, horder, _, hterminals⟩, hparse⟩ := @growth_unobserved Nat tally
    tallyGrown _ Grammar.compile_tally growsTo_tallyGrown herrors rfl rfl
  exact ⟨Grammar.compile_tally, growsTo_tallyGrown, herrors, ⟨c', hcompile, horder, hterminals⟩,
    (hparse "i++ii+").2⟩

end Parser

end Descent
