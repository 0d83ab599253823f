import Descent.Parser
import Descent.Proofs.Compiled.Accepted
import Descent.Proofs.Symbol.Cutting

/-!
# What symbols and errors are read off

The symbols of a text are its symbol pieces, each at the byte where the piece begins, and its errors
are the longest runs of unmatched characters (`symbolize_segments`).

Runs are read off from the right, one character at a time. For the proofs the pieces are taken run
by run instead: a list of pieces is empty, or begins with a piece that is not an unmatched
character, or begins with a run that is as long as it can be (`Piece.run_induction`).
-/

namespace Descent

open Descent.Text

namespace Piece

/-- Bytes of the pieces together. -/
def offset (pieces : List Piece) : Nat := byteLength (pieces.flatMap text)

/-- The piece is an unmatched character. -/
def IsStray (piece : Piece) : Prop := ∃ c, piece = .unmatched c

/-- The characters of `cs` are a run of unmatched characters that is as long as it can be. -/
structure MaximalRun (pieces before : List Piece) (cs : List Char) (after : List Piece) :
    Prop where
  split : pieces = before ++ (cs.map unmatched ++ after)
  nonempty : cs ≠ []
  start : ∀ piece, before.getLast? = some piece → ¬ piece.IsStray
  stop : ∀ piece, after.head? = some piece → ¬ piece.IsStray

/-- The symbol stands in one of the pieces, which begin at byte `start`. -/
def HasSymbol (start : Nat) (pieces : List Piece) (x : Symbol) : Prop :=
  ∃ before id captured text skipped after,
    pieces = before ++ symbol id captured text skipped :: after ∧
      x = ⟨id, start + offset before, .ofList text, captured⟩

end Piece

/-- The symbols of the stream are the symbol pieces and its diagnostics the maximal runs of
unmatched characters, both in order. -/
structure SymbolStream.Describes (stream : SymbolStream) (pieces : List Piece) : Prop where
  mem_symbols : ∀ x, x ∈ stream.symbols ↔ Piece.HasSymbol 0 pieces x
  symbols_ordered : stream.symbols.toList.Pairwise fun x y => x.stop ≤ y.start
  mem_diagnostics : ∀ d, d ∈ stream.diagnostics ↔ ∃ before cs after,
    Piece.MaximalRun pieces before cs after ∧ d = .unrecognized (Piece.offset before) cs
  diagnostics_ordered : stream.diagnostics.Pairwise fun d e => d.stop ≤ e.start

namespace Piece

theorem offset_cons {piece : Piece} {pieces : List Piece} :
    offset (piece :: pieces) = piece.length + offset pieces :=
  byteLength_append _ _

/-! ## Symbols -/

theorem hasSymbol_cons_iff {start : Nat} {piece : Piece} {pieces : List Piece} {x : Symbol} :
    HasSymbol start (piece :: pieces) x ↔
      (∃ id captured text skipped, piece = symbol id captured text skipped ∧
        x = ⟨id, start, .ofList text, captured⟩) ∨
      HasSymbol (start + piece.length) pieces x := by
  constructor
  · rintro ⟨before, id, captured, text, skipped, after, hsplit, rfl⟩
    rcases List.cons_eq_append_iff.mp hsplit with ⟨rfl, hcons⟩ | ⟨before, rfl, rfl⟩
    · obtain ⟨rfl, rfl⟩ := List.cons.inj hcons
      exact Or.inl ⟨id, captured, text, skipped, rfl, rfl⟩
    · refine Or.inr ⟨before, id, captured, text, skipped, after, rfl, ?_⟩
      rw [offset_cons, Nat.add_assoc]
  · rintro (⟨id, captured, text, skipped, rfl, rfl⟩ | h)
    · exact ⟨[], id, captured, text, skipped, pieces, rfl, rfl⟩
    · obtain ⟨before, id, captured, text, skipped, after, rfl, rfl⟩ := h
      refine ⟨piece :: before, id, captured, text, skipped, after, rfl, ?_⟩
      rw [offset_cons, Nat.add_assoc]

theorem mem_symbols {start : Nat} {pieces : List Piece} {x : Symbol} :
    x ∈ symbols start pieces ↔ HasSymbol start pieces x := by
  induction pieces generalizing start with
  | nil =>
      constructor
      · intro h
        cases h
      · rintro ⟨before, _, _, _, _, _, hsplit, _⟩
        cases before <;> cases hsplit
  | cons piece pieces ih =>
      rw [hasSymbol_cons_iff, ← ih]
      cases piece with
      | ignored text skipped => simp [symbols]
      | unmatched c => simp [symbols]
      | symbol id captured text skipped =>
          show x ∈ ⟨id, start, .ofList text, captured⟩ :: symbols _ pieces ↔ _
          rw [List.mem_cons]
          refine or_congr ?_ Iff.rfl
          constructor
          · rintro rfl
            exact ⟨id, captured, text, skipped, rfl, rfl⟩
          · rintro ⟨_, _, _, _, ⟨⟩, h⟩
            exact h

theorem start_le_of_mem_symbols {start : Nat} {pieces : List Piece} {x : Symbol}
    (h : x ∈ symbols start pieces) : start ≤ x.start := by
  obtain ⟨before, _, _, _, _, _, _, rfl⟩ := mem_symbols.mp h
  exact Nat.le_add_right _ _

theorem symbols_ordered {start : Nat} {pieces : List Piece} :
    (symbols start pieces).Pairwise fun x y => x.stop ≤ y.start := by
  induction pieces generalizing start with
  | nil => exact .nil
  | cons piece pieces ih =>
      cases piece with
      | ignored text skipped => exact ih
      | unmatched c => exact ih
      | symbol id captured text skipped =>
          refine List.pairwise_cons.mpr ⟨fun y hy => ?_, ih⟩
          refine Nat.le_trans ?_ (start_le_of_mem_symbols hy)
          show start + byteLength (String.ofList text).toList ≤
            start + byteLength (text ++ skipped)
          rw [String.toList_ofList, byteLength_append]
          omega

/-! ## Runs -/

theorem isStray_of_mem_map {cs : List Char} {piece : Piece} (h : piece ∈ cs.map .unmatched) :
    piece.IsStray := by
  obtain ⟨c, _, rfl⟩ := List.mem_map.mp h
  exact ⟨c, rfl⟩

/-- A list of pieces goes on after a run of unmatched characters with something else. -/
theorem exists_run (pieces : List Piece) : ∃ (cs : List Char) (rest : List Piece),
    pieces = cs.map unmatched ++ rest ∧
    ∀ piece, rest.head? = some piece → ¬ piece.IsStray := by
  induction pieces with
  | nil => exact ⟨[], [], rfl, by simp⟩
  | cons piece pieces ih =>
      obtain ⟨cs, rest, rfl, hrest⟩ := ih
      by_cases h : piece.IsStray
      · obtain ⟨c, rfl⟩ := h
        exact ⟨c :: cs, rest, rfl, hrest⟩
      · refine ⟨[], piece :: (cs.map unmatched ++ rest), rfl, ?_⟩
        rintro _ ⟨⟩
        exact h

/-- Pieces are taken run by run. -/
theorem run_induction {P : List Piece → Prop} (nil : P [])
    (other : ∀ piece pieces, ¬ piece.IsStray → P pieces → P (piece :: pieces))
    (run : ∀ (cs : List Char) rest, cs ≠ [] →
      (∀ piece, rest.head? = some piece → ¬ piece.IsStray) → P rest →
      P (cs.map unmatched ++ rest)) (pieces : List Piece) : P pieces := by
  induction h : pieces.length using Nat.strong_induction_on generalizing pieces with
  | h n ih =>
      obtain ⟨cs, rest, rfl, hrest⟩ := exists_run pieces
      cases cs with
      | cons c cs =>
          refine run _ rest (List.cons_ne_nil c cs) hrest (ih rest.length ?_ rest rfl)
          rw [← h, List.length_append, List.length_map, List.length_cons]
          omega
      | nil =>
          cases rest with
          | nil => exact nil
          | cons piece rest =>
              refine other piece rest (hrest piece rfl) (ih rest.length ?_ rest rfl)
              rw [← h]
              exact Nat.lt_succ_self rest.length

theorem strayRuns_cons_of_not_isStray {start : Nat} {piece : Piece} {pieces : List Piece}
    (h : ¬ piece.IsStray) :
    strayRuns start (piece :: pieces) = strayRuns (start + piece.length) pieces := by
  cases piece with
  | unmatched c => exact absurd ⟨c, rfl⟩ h
  | ignored text skipped => rfl
  | symbol id captured text skipped => rfl

theorem strayRuns_run {start : Nat} {cs : List Char} {rest : List Piece} (hcs : cs ≠ [])
    (hrest : ∀ piece, rest.head? = some piece → ¬ piece.IsStray) :
    strayRuns start (cs.map unmatched ++ rest) =
      (start, cs) :: strayRuns (start + byteLength cs) rest := by
  induction cs generalizing start with
  | nil => exact absurd rfl hcs
  | cons c cs ih =>
      cases cs with
      | nil =>
          cases rest with
          | nil => rfl
          | cons piece rest =>
              cases piece with
              | unmatched d => exact absurd ⟨d, rfl⟩ (hrest _ rfl)
              | ignored text skipped => rfl
              | symbol id captured text skipped => rfl
      | cons d cs =>
          have htail : strayRuns (start + c.utf8Size) (unmatched d :: (cs.map unmatched ++ rest)) =
              (start + c.utf8Size, d :: cs) :: _ := ih (List.cons_ne_nil d cs)
          rw [byteLength_cons c, ← Nat.add_assoc]
          exact strayRuns.eq_2 _ _ _ _ _ _ _ htail

theorem maximalRun_cons_iff {piece : Piece} {pieces before after : List Piece} {cs : List Char}
    (h : ¬ piece.IsStray) : MaximalRun (piece :: pieces) before cs after ↔
      ∃ before', before = piece :: before' ∧ MaximalRun pieces before' cs after := by
  constructor
  · rintro ⟨hsplit, hcs, hstart, hstop⟩
    rcases List.cons_eq_append_iff.mp hsplit with ⟨_, hcons⟩ | ⟨before', rfl, rfl⟩
    · obtain ⟨c, cs, rfl⟩ := List.exists_cons_of_ne_nil hcs
      obtain ⟨rfl, _⟩ := List.cons.inj hcons
      exact absurd ⟨c, rfl⟩ h
    · refine ⟨before', rfl, rfl, hcs, fun x hx => hstart x ?_, hstop⟩
      rw [List.getLast?_cons, hx]
      rfl
  · rintro ⟨before', rfl, rfl, hcs, hstart, hstop⟩
    refine ⟨rfl, hcs, fun x hx => ?_, hstop⟩
    rw [List.getLast?_cons] at hx
    cases hlast : before'.getLast? with
    | none =>
        rw [hlast] at hx
        cases hx
        exact h
    | some y =>
        rw [hlast] at hx
        cases hx
        exact hstart _ hlast

/-- A run that is as long as it can be is the only way to begin with a run. -/
theorem run_unique {cs cs' : List Char} {rest rest' : List Piece}
    (hrest : ∀ piece, rest.head? = some piece → ¬ piece.IsStray)
    (hrest' : ∀ piece, rest'.head? = some piece → ¬ piece.IsStray)
    (h : cs.map unmatched ++ rest = cs'.map unmatched ++ rest') : cs = cs' ∧ rest = rest' := by
  induction cs generalizing cs' with
  | nil =>
      cases cs' with
      | nil => exact ⟨rfl, h⟩
      | cons c cs' =>
          obtain rfl : rest = _ := h
          exact absurd ⟨c, rfl⟩ (hrest _ rfl)
  | cons c cs ih =>
      cases cs' with
      | nil =>
          obtain rfl : _ = rest' := h
          exact absurd ⟨c, rfl⟩ (hrest' _ rfl)
      | cons d cs' =>
          obtain ⟨hhead, htail⟩ := List.cons.inj h
          cases hhead
          obtain ⟨rfl, rfl⟩ := ih htail
          exact ⟨rfl, rfl⟩

theorem maximalRun_run_iff {cs₀ cs : List Char} {rest before after : List Piece}
    (hcs₀ : cs₀ ≠ []) (hrest : ∀ piece, rest.head? = some piece → ¬ piece.IsStray) :
    MaximalRun (cs₀.map unmatched ++ rest) before cs after ↔
      (before = [] ∧ cs = cs₀ ∧ after = rest) ∨
        ∃ before', before = cs₀.map unmatched ++ before' ∧ MaximalRun rest before' cs after := by
  constructor
  · rintro ⟨hsplit, hcs, hstart, hstop⟩
    rcases List.append_eq_append_iff.mp hsplit with ⟨more, rfl, rfl⟩ | ⟨more, hmap, hmore⟩
    · refine Or.inr ⟨more, rfl, rfl, hcs, fun x hx => hstart x ?_, hstop⟩
      rw [List.getLast?_append, hx]
      rfl
    · by_cases hnil : before = []
      · subst hnil
        obtain ⟨rfl, rfl⟩ := run_unique hrest hstop hsplit
        exact Or.inl ⟨rfl, rfl, rfl⟩
      · -- what precedes the run would end in the run before it
        have hmem : before.getLast hnil ∈ cs₀.map unmatched := by
          rw [hmap]
          exact List.mem_append_left _ (List.getLast_mem hnil)
        exact absurd (isStray_of_mem_map hmem) (hstart _ (List.getLast?_eq_some_getLast hnil))
  · rintro (⟨rfl, rfl, rfl⟩ | ⟨before', rfl, rfl, hcs, hstart, hstop⟩)
    · exact ⟨rfl, hcs₀, by simp, hrest⟩
    · refine ⟨(List.append_assoc _ _ _).symm, hcs, fun x hx => ?_, hstop⟩
      cases hlast : before'.getLast? with
      | none =>
          rw [List.getLast?_eq_none_iff] at hlast
          subst hlast
          obtain ⟨c, cs, rfl⟩ := List.exists_cons_of_ne_nil hcs
          exact absurd ⟨c, rfl⟩ (hrest _ rfl)
      | some y =>
          rw [List.getLast?_append, hlast] at hx
          cases hx
          exact hstart _ hlast

theorem offset_append {pieces pieces' : List Piece} :
    offset (pieces ++ pieces') = offset pieces + offset pieces' := by
  unfold offset
  rw [List.flatMap_append, byteLength_append]

theorem offset_run {cs : List Char} : offset (cs.map unmatched) = byteLength cs := by
  induction cs with
  | nil => rfl
  | cons c cs ih =>
      rw [List.map_cons, offset_cons, ih]
      rfl

theorem mem_strayRuns {start : Nat} {pieces : List Piece} {run : Nat × List Char} :
    run ∈ strayRuns start pieces ↔ ∃ before cs after, MaximalRun pieces before cs after ∧
      run = (start + offset before, cs) := by
  induction pieces using run_induction generalizing start with
  | nil =>
      constructor
      · intro h
        cases h
      · rintro ⟨before, cs, after, ⟨hsplit, hcs, _, _⟩, _⟩
        have hnil := (List.append_eq_nil_iff.mp hsplit.symm).2
        exact absurd (List.map_eq_nil_iff.mp (List.append_eq_nil_iff.mp hnil).1) hcs
  | other piece pieces h ih =>
      rw [strayRuns_cons_of_not_isStray h, ih]
      constructor
      · rintro ⟨before, cs, after, hmax, rfl⟩
        refine ⟨_, cs, after, (maximalRun_cons_iff h).mpr ⟨before, rfl, hmax⟩, ?_⟩
        rw [offset_cons, Nat.add_assoc]
      · rintro ⟨before, cs, after, hmax, rfl⟩
        obtain ⟨before, rfl, hrun⟩ := (maximalRun_cons_iff h).mp hmax
        refine ⟨before, cs, after, hrun, ?_⟩
        rw [offset_cons, Nat.add_assoc]
  | run cs₀ rest hcs₀ hrest ih =>
      rw [strayRuns_run hcs₀ hrest, List.mem_cons, ih]
      constructor
      · rintro (rfl | ⟨before, cs, after, hmax, rfl⟩)
        · exact ⟨[], cs₀, rest, (maximalRun_run_iff hcs₀ hrest).mpr (Or.inl ⟨rfl, rfl, rfl⟩), rfl⟩
        · have hrun := (maximalRun_run_iff hcs₀ hrest).mpr (Or.inr ⟨before, rfl, hmax⟩)
          refine ⟨_, cs, after, hrun, ?_⟩
          rw [offset_append, offset_run, Nat.add_assoc]
      · rintro ⟨before, cs, after, hmax, rfl⟩
        rcases (maximalRun_run_iff hcs₀ hrest).mp hmax with ⟨rfl, rfl, rfl⟩ | ⟨before, rfl, hrun⟩
        · exact Or.inl rfl
        · refine Or.inr ⟨before, cs, after, hrun, ?_⟩
          rw [offset_append, offset_run, Nat.add_assoc]

theorem strayRuns_ordered {start : Nat} {pieces : List Piece} :
    (strayRuns start pieces).Pairwise fun r t => r.1 + byteLength r.2 ≤ t.1 := by
  induction pieces using run_induction generalizing start with
  | nil => exact .nil
  | other piece pieces h ih =>
      rw [strayRuns_cons_of_not_isStray h]
      exact ih
  | run cs rest hcs hrest ih =>
      rw [strayRuns_run hcs hrest]
      refine List.pairwise_cons.mpr ⟨fun r hr => ?_, ih⟩
      obtain ⟨before, _, _, _, rfl⟩ := mem_strayRuns.mp hr
      exact Nat.le_add_right _ _

end Piece

/-! ## The stream -/

theorem SymbolStream.describes_ofPieces (pieces : List Piece) :
    (ofPieces pieces).Describes pieces := by
  refine ⟨fun x => ?_, Piece.symbols_ordered, fun d => ?_, ?_⟩
  · rw [← Piece.mem_symbols]
    exact List.mem_toArray
  · unfold ofPieces
    rw [List.mem_map]
    constructor
    · rintro ⟨run, hrun, rfl⟩
      obtain ⟨before, cs, after, hmax, rfl⟩ := Piece.mem_strayRuns.mp hrun
      refine ⟨before, cs, after, hmax, ?_⟩
      rw [Nat.zero_add]
    · rintro ⟨before, cs, after, hmax, rfl⟩
      refine ⟨_, Piece.mem_strayRuns.mpr ⟨before, cs, after, hmax, rfl⟩, ?_⟩
      rw [Nat.zero_add]
  · unfold ofPieces
    exact List.pairwise_map.mpr Piece.strayRuns_ordered

namespace Parser

variable {α : Type} {p : Parser α} {c : CompiledGrammar}

/-- A text is cut into symbols in the one way there is to cut it, and the cutting leaves nothing
out. -/
theorem symbolize_segments (hcompile : p.grammar.compile p.root = .ok c) (source : String) :
    ∃ stream pieces, p.symbolize source = .ok stream ∧
      (∀ pieces', Piece.Cutting p.grammar.terminals c.terminals [] source.toList pieces' ↔
        pieces' = pieces) ∧
      pieces.flatMap Piece.text = source.toList ∧
      (∀ piece ∈ pieces, piece.text ≠ []) ∧
      stream.Describes pieces := by
  let pieces := Piece.cutText p.grammar.terminals c.terminals source.toList
  have hcutting : Piece.Cutting p.grammar.terminals c.terminals [] source.toList pieces :=
    Piece.cutting_iff.mpr rfl
  refine ⟨.ofPieces pieces, pieces, ?_, fun _ => Piece.cutting_iff, hcutting.flatMap_text,
    hcutting.text_ne_nil, SymbolStream.describes_ofPieces pieces⟩
  unfold symbolize
  rw [compiled_eq, hcompile]
  rfl

theorem symbolize_segments_nested : ∃ c stream pieces,
    Parser.symbolize { grammar := Grammar.nested, root := ⟨0⟩ } "(x, é?xy)" = .ok stream ∧
    Piece.Cutting Grammar.nested.terminals c [] "(x, é?xy)".toList pieces ∧
    stream.Describes pieces := by
  obtain ⟨c, hc⟩ := Grammar.exists_compile_nested
  obtain ⟨stream, pieces, hstream, hcutting, _, _, hdescribes⟩ :=
    symbolize_segments (p := { grammar := Grammar.nested, root := ⟨0⟩ }) hc "(x, é?xy)"
  exact ⟨c.terminals, stream, pieces, hstream, (hcutting pieces).mpr rfl, hdescribes⟩

end Parser

end Descent
