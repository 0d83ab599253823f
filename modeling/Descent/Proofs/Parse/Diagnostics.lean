import Descent.Diagnostic.Render
import Descent.Proofs.Parse.Reports
import Descent.Proofs.Symbol.Precedence

/-!
# Where diagnostics point

The text of a diagnostic occupies a stretch of the source (`Text.Occupies`): a run of unmatched
characters, a symbol, or nothing at the end. All that is said of where it points follows from that.
A parse has either the diagnostics of the cutting or reports on its symbols, so all of them point
into the source (`Parser.diagnostics_point`).
-/

namespace Descent

open Descent.Text

namespace Text

/-- The characters are those of the source from byte `start` up to byte `stop`. -/
def Occupies (source cs : List Char) (start stop : Nat) : Prop :=
  ∃ before after, source = before ++ (cs ++ after) ∧ start = byteLength before ∧
    stop = start + byteLength cs

/-- The byte begins a character of the source or ends its last one. -/
def IsBoundary (source : List Char) (n : Nat) : Prop := (cut source n).isSome = true

namespace Occupies

variable {source cs : List Char} {start stop : Nat}

theorem le (h : Occupies source cs start stop) : start ≤ stop := by
  obtain ⟨_, _, _, _, rfl⟩ := h
  exact Nat.le_add_right _ _

theorem stop_le (h : Occupies source cs start stop) : stop ≤ byteLength source := by
  obtain ⟨before, after, rfl, rfl, rfl⟩ := h
  rw [byteLength_append, byteLength_append, ← Nat.add_assoc]
  exact Nat.le_add_right _ _

theorem start_boundary (h : Occupies source cs start stop) : IsBoundary source start := by
  obtain ⟨before, after, rfl, rfl, _⟩ := h
  rw [IsBoundary, cut_byteLength]
  rfl

theorem stop_boundary (h : Occupies source cs start stop) : IsBoundary source stop := by
  obtain ⟨before, after, rfl, rfl, rfl⟩ := h
  rw [IsBoundary, ← List.append_assoc, ← byteLength_append, cut_byteLength]
  rfl

theorem slice_eq (h : Occupies source cs start stop) : slice source start stop = cs := by
  obtain ⟨before, after, rfl, rfl, rfl⟩ := h
  unfold slice
  rw [cut_byteLength]
  dsimp only
  rw [Nat.add_sub_cancel_left, cut_byteLength]

theorem start_eq_stop_iff (h : Occupies source cs start stop) : start = stop ↔ cs = [] := by
  obtain ⟨_, _, _, _, rfl⟩ := h
  constructor
  · intro heq
    have hlength := length_le_byteLength cs
    exact List.eq_nil_of_length_eq_zero (by omega)
  · rintro rfl
    rfl

theorem at_end (source : List Char) : Occupies source [] (byteLength source) (byteLength source) :=
  ⟨source, [], (List.append_nil source).symm, rfl, rfl⟩

end Occupies

end Text

namespace Diagnostic

/-- Where the diagnostic points is in the source, and what it says about the place is so. -/
structure PointsInto (c : CompiledGrammar) (source : List Char) (symbols : Array Symbol)
    (d : Diagnostic) : Prop where
  ordered : d.start ≤ d.stop
  within : d.stop ≤ byteLength source
  start_boundary : IsBoundary source d.start
  stop_boundary : IsBoundary source d.stop
  text : slice source d.start d.stop = d.text.toList
  empty_iff : d.start = d.stop ↔ d.kind = .unexpectedEnd
  at_end : d.kind = .unexpectedEnd → d.start = byteLength source
  symbol : d.kind = .unexpectedSymbol → ∃ x ∈ symbols, d.found = some x.terminal ∧
    d.start = x.start ∧ d.stop = x.stop
  expected_nodup : d.expected.Nodup
  expected_scanned : ∀ t ∈ d.expected, t ∈ c.terminals.scanned
  marked_ordered : (d.markedRange (byteLength source)).1 ≤ (d.markedRange (byteLength source)).2
  marked_within : (d.markedRange (byteLength source)).2 ≤ byteLength source

variable {d : Diagnostic} {n : Nat}

/-- What is marked of the source stays in it, and in order. -/
theorem markedRange_within (hle : d.start ≤ d.stop) (hstop : d.stop ≤ n) :
    (d.markedRange n).1 ≤ (d.markedRange n).2 ∧ (d.markedRange n).2 ≤ n := by
  unfold markedRange
  split
  · exact ⟨Nat.le_min.mpr ⟨Nat.le_succ _, hle.trans hstop⟩, Nat.min_le_right _ _⟩
  · exact ⟨hle, hstop⟩

variable {c : CompiledGrammar} {source : List Char} {symbols : Array Symbol}

/-- All that is said of where a diagnostic points follows from the place of its text. -/
theorem pointsInto_of_occupies (h : Occupies source d.text.toList d.start d.stop)
    (hempty : d.text.toList = [] ↔ d.kind = .unexpectedEnd)
    (hend : d.kind = .unexpectedEnd → d.start = byteLength source)
    (hsymbol : d.kind = .unexpectedSymbol → ∃ x ∈ symbols, d.found = some x.terminal ∧
      d.start = x.start ∧ d.stop = x.stop)
    (hnodup : d.expected.Nodup) (hscanned : ∀ t ∈ d.expected, t ∈ c.terminals.scanned) :
    d.PointsInto c source symbols where
  ordered := h.le
  within := h.stop_le
  start_boundary := h.start_boundary
  stop_boundary := h.stop_boundary
  text := h.slice_eq
  empty_iff := h.start_eq_stop_iff.trans hempty
  at_end := hend
  symbol := hsymbol
  expected_nodup := hnodup
  expected_scanned := hscanned
  marked_ordered := (markedRange_within h.le h.stop_le).1
  marked_within := (markedRange_within h.le h.stop_le).2

/-- The error for a run of characters points at the run. -/
theorem pointsInto_unrecognized {start : Nat} {cs : List Char}
    (h : Occupies source cs start (start + byteLength cs)) (hne : cs ≠ []) :
    (unrecognized start cs).PointsInto c source symbols := by
  have htext : (unrecognized start cs).text.toList = cs := String.toList_ofList
  refine pointsInto_of_occupies ?_ ?_ nofun nofun List.nodup_nil nofun
  · rw [htext]
    exact h
  · rw [htext]
    exact iff_of_false hne nofun

end Diagnostic

/-! ## Cuttings -/

namespace Piece

variable {table : TerminalTable} {order : TerminalOrder} {source : List Char} {pieces : List Piece}

/-- A symbol has the text that stands where it stands. -/
theorem Cutting.symbol_occupies (h : Cutting table order [] source pieces) {x : Symbol}
    (hx : HasSymbol 0 pieces x) : Occupies source x.text.toList x.start x.stop ∧
      x.text.toList ≠ [] := by
  obtain ⟨before, id, captured, text, skipped, after, rfl, rfl⟩ := hx
  obtain ⟨rest, hsource, _, _, hne, _⟩ := h.fits_of_append
  rw [String.toList_ofList]
  refine ⟨⟨before.flatMap Piece.text, skipped ++ rest, ?_, Nat.zero_add _, ?_⟩, hne⟩
  · rw [hsource, Piece.text, List.append_assoc]
  · show _ + byteLength (String.ofList text).toList = _
    rw [String.toList_ofList]

/-- An error of a cutting is lexical and points at a run of unmatched characters. -/
theorem Cutting.pointsInto (h : Cutting table order [] source pieces) {d : Diagnostic}
    (hd : d ∈ (SymbolStream.ofPieces pieces).diagnostics) (c : CompiledGrammar)
    (symbols : Array Symbol) :
    d.PointsInto c source symbols ∧ d.kind.isLexical = true := by
  obtain ⟨before, cs, after, ⟨rfl, hne, _, _⟩, rfl⟩ :=
    ((SymbolStream.describes_ofPieces pieces).mem_diagnostics d).mp hd
  refine ⟨Diagnostic.pointsInto_unrecognized ?_ hne, rfl⟩
  refine ⟨before.flatMap text, after.flatMap text, ?_, rfl, rfl⟩
  have hrun : (cs.map unmatched).flatMap text = cs := by
    rw [List.flatMap_map]
    exact List.flatMap_singleton' cs
  rw [← h.flatMap_text, List.flatMap_append, List.flatMap_append, hrun]

end Piece

/-! ## Reports -/

namespace CompiledGrammar

variable {c : CompiledGrammar} {source : List Char} {symbols : Array Symbol} {d : Diagnostic}

/-- A report does not expect a terminal twice. -/
theorem Reports.nodup_expected {n : Nat} (h : c.Reports symbols n d)
    (hrules : ∀ id r, c.rule? id = some r → ∀ s ∈ r.body.steps, s.first.Nodup) :
    d.expected.Nodup := by
  obtain ⟨_, _, _, k, _, log, hrun, rfl⟩ := h
  obtain ⟨f, hheld, hexpected, _⟩ := c.report_cases symbols n k (log.foldl Note.mark none)
  rw [hexpected]
  refine List.Nodup.filter _ ?_
  rcases hheld with hempty | hheld
  · rw [hempty]
    exact List.nodup_nil
  · have hnone : ∀ f ∈ (none : Option Furthest), f.expected.Nodup := nofun
    refine Note.nodup_mark hnone (fun p first hmem => ?_) f hheld
    obtain ⟨s, hs, rfl⟩ := hrun.exists_step_of_failed hrules trivial p first hmem
    exact hs

/-- A report is not lexical and points at a symbol or at the end. -/
theorem Reports.pointsInto (h : c.Reports symbols (byteLength source) d)
    (hrules : ∀ id r, c.rule? id = some r → ∀ s ∈ r.body.steps, s.first.Nodup)
    (hsymbols : ∀ x ∈ symbols, Occupies source x.text.toList x.start x.stop ∧ x.text.toList ≠ []) :
    d.PointsInto c source symbols ∧ d.kind.isLexical = false := by
  have hnodup := h.nodup_expected hrules
  obtain ⟨_, _, _, k, _, log, _, rfl⟩ := h
  obtain ⟨f, _, hexpected, hcase⟩ :=
    c.report_cases symbols (byteLength source) k (log.foldl Note.mark none)
  generalize c.report symbols (byteLength source) k (log.foldl Note.mark none) = d
    at hnodup hexpected hcase ⊢
  have hscanned : ∀ t ∈ d.expected, t ∈ c.terminals.scanned := by
    intro t ht
    rw [hexpected] at ht
    exact List.contains_iff_mem.mp (List.mem_filter.mp ht).2
  rcases hcase with ⟨x, hx, hkind, hstart, hstop, htext, hfound⟩ |
    ⟨hkind, hstart, hstop, htext, _⟩
  · have hx := Array.mem_of_getElem? hx
    obtain ⟨hplace, hne⟩ := hsymbols x hx
    rw [← htext, ← hstart, ← hstop] at hplace
    rw [← htext] at hne
    refine ⟨Diagnostic.pointsInto_of_occupies hplace ?_ ?_ ?_ hnodup hscanned, ?_⟩
    · rw [hkind]
      exact iff_of_false hne nofun
    · rw [hkind]
      exact nofun
    · exact fun _ => ⟨x, hx, hfound, hstart, hstop⟩
    · rw [hkind]
      rfl
  · refine ⟨Diagnostic.pointsInto_of_occupies ?_ ?_ (fun _ => hstart) ?_ hnodup hscanned, ?_⟩
    · rw [htext, hstart, hstop]
      exact .at_end source
    · rw [htext]
      exact iff_of_true rfl hkind
    · rw [hkind]
      exact nofun
    · rw [hkind]
      rfl

end CompiledGrammar

/-! ## Parsers -/

namespace Parser

variable {α : Type} {p : Parser α} {c : CompiledGrammar}

/-- Every diagnostic, of a cutting or of a parse, points into the source, and errors among
characters do not occur together with errors among symbols. -/
theorem diagnostics_point (hcompile : p.grammar.compile p.root = .ok c) (source : String) :
    ∃ stream, p.symbolize source = .ok stream ∧
      (∀ d ∈ stream.diagnostics,
        d.PointsInto c source.toList stream.symbols ∧ d.kind.isLexical = true) ∧
      ∀ parse, (p.parse source).result = .ok parse →
        (∀ d ∈ parse.diagnostics, d.PointsInto c source.toList stream.symbols) ∧
        ((∀ d ∈ parse.diagnostics, d.kind.isLexical = true) ∨
          ∀ d ∈ parse.diagnostics, d.kind.isLexical = false) := by
  let pieces := Piece.cutText p.grammar.terminals c.terminals source.toList
  have hcutting : Piece.Cutting p.grammar.terminals c.terminals [] source.toList pieces :=
    Piece.cutting_iff.mpr rfl
  have hsymbols : ∀ x ∈ (SymbolStream.ofPieces pieces).symbols,
      Occupies source.toList x.text.toList x.start x.stop ∧ x.text.toList ≠ [] := by
    intro x hx
    exact hcutting.symbol_occupies (((SymbolStream.describes_ofPieces pieces).mem_symbols x).mp hx)
  have hlexical : ∀ d ∈ (SymbolStream.ofPieces pieces).diagnostics,
      d.PointsInto c source.toList (SymbolStream.ofPieces pieces).symbols ∧
        d.kind.isLexical = true :=
    fun d hd => hcutting.pointsInto hd c _
  have hrules : ∀ id r, c.rule? id = some r → ∀ s ∈ r.body.steps, s.first.Nodup :=
    fun id r hr s hs => (Grammar.keyed_of_compile hcompile hr hs).nodup_first
  refine ⟨.ofPieces pieces, symbolize_eq hcompile source, hlexical, fun parse hparse => ?_⟩
  rcases diagnostics_cases hcompile hparse with heq | hreports
  · rw [heq]
    exact ⟨fun d hd => (hlexical d hd).1, Or.inl fun d hd => (hlexical d hd).2⟩
  · have hpoints := fun d hd => (hreports d hd).pointsInto hrules hsymbols
    exact ⟨fun d hd => (hpoints d hd).1, Or.inr fun d hd => (hpoints d hd).2⟩

theorem diagnostics_point_tally :
    ∃ stream parse, tally.symbolize "i++ii+" = .ok stream ∧
      (tally.parse "i++ii+").result = .ok parse ∧
      parse.diagnostics.map (fun d => (d.kind, d.start, d.stop, d.found)) = tallyReports ∧
      ∀ d ∈ parse.diagnostics,
        d.PointsInto Grammar.tallyCompiled "i++ii+".toList stream.symbols := by
  obtain ⟨parse, hparse, hreports⟩ := exists_parse_tally
  obtain ⟨stream, hstream, _, hpoint⟩ :=
    diagnostics_point (p := tally) Grammar.compile_tally "i++ii+"
  exact ⟨stream, parse, hstream, hparse, hreports, (hpoint parse hparse).1⟩

end Parser

end Descent
