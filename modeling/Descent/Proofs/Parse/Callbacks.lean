import Descent.Proofs.Match.Derivation
import Descent.Proofs.Parse.Recovery

/-!
# When callbacks run

A parse resolves a match once it is settled and nothing else, so its callbacks are those of the
nodes of its matches, from left to right and children before their rule (`parse_calls`). What was
given up on the way to a match is not in its tree, and of separators nothing is (`Derives`).
-/

namespace Descent

variable {α : Type} {p : Parser α} {c : CompiledGrammar}

/-- The tree is the match of the root on the segment, as the rules are written: its symbols stand in
order within the segment, and every rule in it has the children that its body says. -/
structure Segment.Grows (s : Segment) (g : Grammar α) (c : CompiledGrammar)
    (symbols : Array Symbol) (tree : MatchTree) : Prop where
  matched : c.matched? symbols c.root s.start = some (tree, s.stop)
  derives : Derives g symbols (.step (.rule c.root)) s.start [tree] s.stop
  ascend : MatchTree.Ascend s.start s.stop (MatchTree.positions [tree])
  shape : ∀ id children, .rule id children ∈ tree.postorder →
    ∃ r, g.rule? id = some r ∧ r.body.Shape g symbols children

/-- Every match that a parse settles on grows on its segment. -/
theorem Accounts.grows {g : Grammar α} {root : RuleId} {symbols : Array Symbol}
    {segments : List Segment} (hcompile : g.compile root = .ok c)
    (h : Accounts c symbols segments) {s : Segment} (hs : s ∈ segments) {tree : MatchTree}
    (htree : s.tree? = some tree) : s.Grows g c symbols tree := by
  have hmatched : c.matched? symbols c.root s.start = some (tree, s.stop) := by
    cases s with
    | primary t stop =>
        cases htree
        exact (h.primary tree stop).mp hs
    | skipped => cases htree
    | recovered t start stop =>
        cases htree
        exact (h.recovered tree start stop hs).2
  have hroot : g.Reachable root c.root := by
    rw [(Grammar.covers_of_compile hcompile).root_eq]
    exact .refl
  have hderives := Grammar.derives_of_matched? hcompile hroot hmatched
  refine ⟨hmatched, hderives, hderives.ascend, ?_⟩
  intro id children hmem
  have hbelow : .rule id children ∈ MatchTree.postorderAll [tree] :=
    MatchTree.mem_postorderAll.mpr ⟨tree, List.mem_singleton_self _, hmem⟩
  exact hderives.shape_of_mem hbelow

namespace Parser

/-- Whenever a parse has a result, its callbacks are those of the nodes of its matches, the matches
from left to right and each in postorder; with errors among the characters there are none. -/
theorem parse_calls (hcompile : p.grammar.compile p.root = .ok c) (source : String)
    {parse : Parse α} (hresult : (p.parse source).result = .ok parse) :
    ∃ stream, p.symbolize source = .ok stream ∧
      (Diagnostic.anyLexical stream.diagnostics = true → (p.parse source).calls = []) ∧
      (Diagnostic.anyLexical stream.diagnostics = false → ∃ segments,
        Accounts c stream.symbols segments ∧
        parse.Reflects p.grammar c stream.symbols (Text.byteLength source.toList) segments ∧
        (∀ s ∈ segments, ∀ tree, s.tree? = some tree → s.Grows p.grammar c stream.symbols tree) ∧
        (p.parse source).calls = (segments.filterMap Segment.tree?).flatMap fun tree =>
          tree.postorder.filterMap (MatchTree.call? p.grammar stream.symbols)) := by
  -- under the parser's own caps the parse is the one without caps, since it has a result
  have hexact : CapsExact (p.parseWithin · source) := capsExact_parse hcompile source
  have hparse : (p.parseWithin p.limits source).result = .ok parse := hresult
  have hfree : p.parse source = p.parseWithin {} source := hexact.eq_free_of_ok hparse
  obtain ⟨stream, hstream, ⟨hany, _, hparse⟩ | ⟨hnil, q, segments, hparses, hparse⟩⟩ :=
    exists_parseWithin hcompile source
  · rw [hfree, hparse]
    refine ⟨stream, hstream, fun _ => rfl, ?_⟩
    intro hnone
    rw [hnone] at hany
    cases hany
  · rw [hfree, hparse] at hresult ⊢
    cases hresult
    refine ⟨stream, hstream, ?_, fun _ => ?_⟩
    · intro hany
      rw [hnil] at hany
      cases hany
    · have haccounts := hparses.recounts.accounts
      exact ⟨segments, haccounts, hparses.reflects, fun s hs tree => haccounts.grows hcompile hs,
        hparses.calls⟩

/-- A parser for sums under caps. -/
def tallyCapped : Parser Nat := { tally with limits := { fuel := some 11, depth := some 2 } }

set_option maxRecDepth 20000 in
theorem parse_calls_tally :
    ∃ stream segments, tallyCapped.symbolize "i++ii+" = .ok stream ∧
      Accounts Grammar.tallyCompiled stream.symbols segments ∧
      (tallyCapped.parse "i++ii+").calls.length = 5 ∧
      (tallyCapped.parse "i++ii+").calls = (segments.filterMap Segment.tree?).flatMap fun tree =>
        tree.postorder.filterMap (MatchTree.call? Grammar.tally stream.symbols) := by
  have hsymbolized : (tallyCapped.symbolize "i++ii+").toOption.map (fun stream =>
      Diagnostic.anyLexical stream.diagnostics) = some false := by cbv
  have hparsed : (tallyCapped.parse "i++ii+").result.toOption.isSome = true := by cbv
  have hcalls : (tallyCapped.parse "i++ii+").calls.length = 5 := by cbv
  cases hresult : (tallyCapped.parse "i++ii+").result with
  | error e =>
      rw [hresult] at hparsed
      cases hparsed
  | ok parse =>
      obtain ⟨stream, hstream, _, hlexical⟩ :=
        parse_calls (p := tallyCapped) Grammar.compile_tally "i++ii+" hresult
      rw [hstream] at hsymbolized
      obtain ⟨segments, haccounts, _, _, heq⟩ := hlexical (Option.some.inj hsymbolized)
      exact ⟨stream, segments, hstream, haccounts, hcalls, heq⟩

end Parser

end Descent
