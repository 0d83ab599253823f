import Mathlib
import Descent.Proofs.Match.Outcome

/-!
# What a match begins with

What a rule matches is as the marks of the compiled grammar have it: nothing is read only by a rule
that is marked as nullable, and what is read begins with a terminal of the rule's first set
(`evaluate_within_first`).
-/

namespace Descent

/-- An evaluation that matches follows its run to the end, whatever the caps are, so the marks of
the rule hold of what it reads. -/
theorem CompiledGrammar.progress_of_evaluate {c : CompiledGrammar} {limits : Limits} {id : RuleId}
    {s t : EvalState} {tree : MatchTree} (hc : c.Consistent) (hid : id ∈ c.order) (hs : s.Ready c)
    (heval : c.evaluate limits id s = .ok (some tree) t) :
    (Fragment.leaf (.rule id)).Progress c s.cursor.symbols s.cursor.position
      t.cursor.position := by
  obtain ⟨_, _, hrun, _⟩ := exists_run_of_evaluate hc hid hs heval
  exact hrun.progress hc rfl

namespace Grammar

variable {α : Type} {g : Grammar α} {root id : RuleId} {c : CompiledGrammar} {s : EvalState}

/-- A reachable rule of a compiled grammar that matches without reading is marked as nullable, and
one that reads begins with a terminal of its first set, whatever the caps are. So a rule that is not
marked as nullable matches neither at the end nor where another terminal is ahead. -/
theorem evaluate_within_first (limits : Limits) (hcompile : g.compile root = .ok c)
    (hid : g.Reachable root id) (hs : s.Ready c) :
    (∀ tree t, c.evaluate limits id s = .ok (some tree) t →
      s.cursor.position ≤ t.cursor.position ∧
      (t.cursor.position = s.cursor.position → c.isNullable? id = some true) ∧
      (s.cursor.position < t.cursor.position →
        ∃ x first, s.cursor.peek? = some x ∧ c.first? id = some first ∧ x.terminal ∈ first)) ∧
    (c.isNullable? id = some false →
      (s.cursor.isAtEnd = true ∨
        ∃ x first, s.cursor.peek? = some x ∧ c.first? id = some first ∧ x.terminal ∉ first) →
      ∀ tree t, c.evaluate limits id s ≠ .ok (some tree) t) := by
  have hc := consistent_of_compile hcompile
  have hmem : id ∈ c.order := ((covers_of_compile hcompile).mem_order id).mpr hid
  refine ⟨?_, ?_⟩
  · intro tree t heval
    have hprogress := CompiledGrammar.progress_of_evaluate hc hmem hs heval
    refine ⟨hprogress.le, ?_, ?_⟩
    · intro heq
      rcases hprogress with ⟨_, hpass⟩ | ⟨hlt, _⟩
      · exact hpass
      · omega
    · intro hlt
      rcases hprogress with ⟨heq, _⟩ | ⟨_, _, x, hx, first, hfirst, hin⟩
      · omega
      · exact ⟨x, first, hx, hfirst, hin⟩
  · intro hnull hahead tree t heval
    have hprogress := CompiledGrammar.progress_of_evaluate hc hmem hs heval
    rcases hprogress with ⟨_, hpass⟩ | ⟨_, _, x, hx, first, hfirst, hin⟩
    · have hpass : c.isNullable? id = some true := hpass
      rw [hnull] at hpass
      cases hpass
    · rcases hahead with hend | ⟨x', first', hx', hfirst', hout⟩
      · have hlt := (Array.getElem?_eq_some_iff.mp hx).choose
        have hle : s.cursor.symbols.size ≤ s.cursor.position := of_decide_eq_true hend
        omega
      · cases hx.symm.trans hx'
        cases hfirst.symm.trans hfirst'
        exact hout hin

/-- Sums of places, a place being one mark or two. Marks count, and a sum builds the number of its
places. -/
def tally : Grammar Nat :=
  let g : Grammar Nat := {}
  let (mark, g) := g.addTerminal { matcher := .char 'i' }
  let (plus, g) := g.addTerminal { matcher := .char '+' }
  let (_, g) := g.addTerminal { matcher := .char ' ', ignored := true }
  let g := g.setTransform mark fun _ => 1
  let (sum, g) := g.addRule "sum"
  let (place, g) := g.addRule "place"
  let g := g.define sum [.separated (.rule place) (.terminal plus) false, .action List.length]
  g.define place [.step (.terminal mark), .optional (.terminal mark)]

/-- What it is compiled to. -/
def tallyCompiled : CompiledGrammar where
  root := ⟨0⟩
  order := [⟨0⟩, ⟨1⟩]
  rules :=
    let places : CompiledStep := ⟨false, [⟨0⟩], #[.rule ⟨1⟩], [(⟨0⟩, [0])], []⟩
    let plus : CompiledStep := ⟨false, [⟨1⟩], #[.terminal ⟨1⟩], [(⟨1⟩, [0])], []⟩
    let mark : CompiledStep := ⟨false, [⟨0⟩], #[.terminal ⟨0⟩], [(⟨0⟩, [0])], []⟩
    #[some ⟨"sum", false, [⟨0⟩], .separated places plus false, true⟩,
      some ⟨"place", false, [⟨0⟩], .sequence [mark, { mark with optional := true }], false⟩]
  terminals := ⟨[⟨2⟩], [⟨0⟩, ⟨1⟩], []⟩
  accepted := #[⟨1⟩, ⟨2⟩, ⟨4⟩]
  names := #["'i'", "'+'", "' '"]

set_option maxRecDepth 20000 in
theorem compile_tally : tally.compile ⟨0⟩ = .ok tallyCompiled := by cbv

theorem evaluate_tally_within_first :
    let s := EvalState.initial tallyCompiled {} #[⟨⟨0⟩, 0, "i", false⟩, ⟨⟨1⟩, 1, "+", false⟩]
    let s' := EvalState.initial tallyCompiled {} #[⟨⟨1⟩, 0, "+", false⟩]
    tally.compile ⟨0⟩ = .ok tallyCompiled ∧
    (∃ tree t, tallyCompiled.evaluate {} ⟨0⟩ s = .ok (some tree) t ∧
      s.cursor.position < t.cursor.position ∧
      ∃ x first, s.cursor.peek? = some x ∧ tallyCompiled.first? ⟨0⟩ = some first ∧
        x.terminal ∈ first) ∧
    tallyCompiled.isNullable? ⟨0⟩ = some false ∧
    ∀ tree t, tallyCompiled.evaluate {} ⟨0⟩ s' ≠ .ok (some tree) t := by
  intro s s'
  have hnull : tallyCompiled.isNullable? ⟨0⟩ = some false := rfl
  have hready : s'.Ready tallyCompiled := EvalState.ready_initial tallyCompiled {} _
  have hother := (evaluate_within_first {} compile_tally .refl hready).2 hnull
    (Or.inr ⟨⟨⟨1⟩, 0, "+", false⟩, [⟨0⟩], rfl, rfl, by decide⟩)
  have hreads : (tallyCompiled.matched? s.cursor.symbols ⟨0⟩ 0).map Prod.snd = some 1 := by
    decide +kernel
  unfold CompiledGrammar.matched? at hreads
  split at hreads
  · next tree t ht =>
      have hend : t.cursor.position = 1 := Option.some.inj hreads
      have hread : s.cursor.position < t.cursor.position := hend ▸ Nat.one_pos
      have hfirst := (evaluate_within_first {} compile_tally .refl
        (EvalState.ready_initial tallyCompiled {} _)).1 tree t ht
      exact ⟨compile_tally, ⟨tree, t, ht, hread, hfirst.2.2 hread⟩, hnull, hother⟩
  · cases hreads

end Grammar

end Descent
