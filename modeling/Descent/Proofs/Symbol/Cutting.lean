import Descent.Symbol.Piece

/-!
# The cutting of a text

`Cutting` says what it is to cut a text from left to right into pieces, piece by piece and without
the search: what a piece has to be is settled by the text ahead and the character behind. There is
exactly one cutting of every text, and it is the one that is computed (`cutting_iff`).
-/

namespace Descent

open Descent.Text

/-! ## Matches -/

theorem Matcher.of_take? {m : Matcher} {spot : Spot} {text rest : List Char}
    (h : m.take? spot = some (text, rest)) : text ≠ [] ∧ text ++ rest = spot.ahead := by
  unfold take? at h
  obtain ⟨n, _, h⟩ := Option.bind_eq_some_iff.mp h
  obtain ⟨⟨piece, rest'⟩, hcut, h⟩ := Option.bind_eq_some_iff.mp h
  dsimp only at h
  split at h
  · cases h
  · next hempty =>
      cases h
      refine ⟨fun hnil => hempty (by rw [hnil]; rfl), ?_⟩
      exact (eq_append_of_cut hcut).1.symm

theorem Terminal.skip_append {t : Terminal} {rest : List Char} :
    (t.skip rest).1 ++ (t.skip rest).2 = rest := by
  unfold skip
  split
  · rfl
  · next hook _ =>
      cases hcut : cut rest (hook rest) with
      | none => rfl
      | some r => exact (eq_append_of_cut hcut).1.symm

namespace TerminalTable

variable {table : TerminalTable} {spot : Spot} {id : TerminalId} {m : TerminalMatch}

/-- A match is not empty, and with what is skipped and what remains it is the text ahead. -/
theorem of_matchWithin {depth : Nat} (h : table.matchWithin spot depth id = some m) :
    m.text ≠ [] ∧ m.text ++ (m.skipped ++ m.rest) = spot.ahead := by
  induction depth generalizing id m with
  | zero => cases h
  | succ depth ih =>
      unfold matchWithin at h
      obtain ⟨t, _, h⟩ := Option.bind_eq_some_iff.mp h
      -- a set takes the text of a member, and what the member skips remains
      have hend : ∀ {text rest : List Char}, text ≠ [] ∧ text ++ rest = spot.ahead →
          m = ⟨text, (t.skip rest).1, (t.skip rest).2⟩ →
          m.text ≠ [] ∧ m.text ++ (m.skipped ++ m.rest) = spot.ahead := by
        rintro text rest htext rfl
        rwa [Terminal.skip_append]
      split at h
      · obtain ⟨⟨text, rest⟩, htake, h⟩ := Option.bind_eq_some_iff.mp h
        obtain ⟨i, _, hi⟩ := List.exists_of_findSome?_eq_some htake
        obtain ⟨r, hr, heq⟩ := Option.map_eq_some_iff.mp hi
        cases heq
        exact hend (ih hr) (Option.some.inj h).symm
      · obtain ⟨⟨text, rest⟩, htake, h⟩ := Option.bind_eq_some_iff.mp h
        exact hend (Matcher.of_take? htake) (Option.some.inj h).symm

theorem of_matchAt (h : table.matchAt id spot = some m) :
    m.text ≠ [] ∧ m.text ++ (m.skipped ++ m.rest) = spot.ahead :=
  of_matchWithin h

/-- The first terminal of the list that matches at the spot is `id`, with the match `m`. -/
def First (table : TerminalTable) (spot : Spot) (ids : List TerminalId) (id : TerminalId)
    (m : TerminalMatch) : Prop :=
  ∃ before after, ids = before ++ id :: after ∧ table.matchAt id spot = some m ∧
    ∀ i ∈ before, table.matchAt i spot = none

theorem First.text_ne_nil {ids : List TerminalId} (h : table.First spot ids id m) :
    m.text ≠ [] := by
  obtain ⟨_, _, _, hm, _⟩ := h
  exact (of_matchAt hm).1

theorem First.append_eq {ids : List TerminalId} (h : table.First spot ids id m) :
    m.text ++ (m.skipped ++ m.rest) = spot.ahead := by
  obtain ⟨_, _, _, hm, _⟩ := h
  exact (of_matchAt hm).2

/-- No terminal of the list matches at the spot. -/
def NoneOf (table : TerminalTable) (spot : Spot) (ids : List TerminalId) : Prop :=
  ∀ i ∈ ids, table.matchAt i spot = none

section

variable {ids before after : List TerminalId}

theorem first_of_mem (hid : id ∈ ids) (hm : table.matchAt id spot = some m)
    (hothers : ∀ i ∈ ids, i ≠ id → table.matchAt i spot = none) : table.First spot ids id m := by
  obtain ⟨before, after, rfl, hbefore⟩ := List.eq_append_cons_of_mem hid
  refine ⟨before, after, rfl, hm, ?_⟩
  intro i hi
  refine hothers i (List.mem_append_left _ hi) ?_
  rintro rfl
  exact hbefore hi

theorem First.append_left (h : table.First spot before id m) :
    table.First spot (before ++ after) id m := by
  obtain ⟨xs, ys, rfl, hm, hnone⟩ := h
  exact ⟨xs, ys ++ after, by simp, hm, hnone⟩

theorem First.append_right (hbefore : table.NoneOf spot before)
    (h : table.First spot after id m) : table.First spot (before ++ after) id m := by
  obtain ⟨xs, ys, rfl, hm, hnone⟩ := h
  refine ⟨before ++ xs, ys, (List.append_assoc _ _ _).symm, hm, ?_⟩
  intro i hi
  rcases List.mem_append.mp hi with hi | hi
  · exact hbefore i hi
  · exact hnone i hi

end

end TerminalTable

namespace Piece

variable {table : TerminalTable} {order : TerminalOrder}

theorem firstMatch?_eq_some_iff {spot : Spot} {ids : List TerminalId} {id : TerminalId}
    {m : TerminalMatch} :
    firstMatch? table spot ids = some (id, m) ↔ table.First spot ids id m := by
  unfold firstMatch? TerminalTable.First
  rw [List.findSome?_eq_some_iff]
  constructor
  · rintro ⟨before, i, after, rfl, hi, hbefore⟩
    obtain ⟨m', hm, heq⟩ := Option.map_eq_some_iff.mp hi
    cases heq
    exact ⟨before, after, rfl, hm, fun j hj => Option.map_eq_none_iff.mp (hbefore j hj)⟩
  · rintro ⟨before, after, rfl, hm, hbefore⟩
    refine ⟨before, id, after, rfl, ?_, fun j hj => Option.map_eq_none_iff.mpr (hbefore j hj)⟩
    rw [hm]
    rfl

theorem firstMatch?_eq_none_iff {spot : Spot} {ids : List TerminalId} :
    firstMatch? table spot ids = none ↔ table.NoneOf spot ids := by
  unfold firstMatch? TerminalTable.NoneOf
  rw [List.findSome?_eq_none_iff]
  exact forall₂_congr fun i _ => Option.map_eq_none_iff

/-! ## The cutting -/

/-- The piece is what has to be cut off at the spot, so that `after` remains. -/
def Fits (table : TerminalTable) (order : TerminalOrder) (spot : Spot) (after : List Char) :
    Piece → Prop
  | ignored text skipped => ∃ id, table.First spot order.ignored id ⟨text, skipped, after⟩
  | symbol id captured text skipped =>
      table.NoneOf spot order.ignored ∧
        table.First spot (order.literal ++ order.scanning) id ⟨text, skipped, after⟩ ∧
        text ≠ [] ∧ captured = !table.isLiteral id
  | unmatched _ =>
      table.NoneOf spot order.ignored ∧ table.NoneOf spot (order.literal ++ order.scanning)

/-- The pieces follow one another from where `before` has been read, up to the end of the text. -/
inductive Cutting (table : TerminalTable) (order : TerminalOrder) :
    List Char → List Char → List Piece → Prop where
  | nil {before} : Cutting table order before [] []
  | cons {before after piece pieces}
      (fits : Fits table order ⟨before.getLast?, piece.text ++ after⟩ after piece)
      (rest : Cutting table order (before ++ piece.text) after pieces) :
      Cutting table order before (piece.text ++ after) (piece :: pieces)

theorem Fits.text_ne_nil {spot : Spot} {after : List Char} {piece : Piece}
    (h : piece.Fits table order spot after) : piece.text ≠ [] := by
  cases piece with
  | ignored text skipped =>
      obtain ⟨id, hfirst⟩ := h
      exact List.append_ne_nil_of_left_ne_nil hfirst.text_ne_nil skipped
  | symbol id captured text skipped =>
      obtain ⟨_, _, hne, _⟩ := h
      exact List.append_ne_nil_of_left_ne_nil hne skipped
  | unmatched c => exact List.cons_ne_nil c []

/-- A piece that is ignored, with nothing skipped at its end. -/
theorem Cutting.ignored {before text after : List Char} {pieces : List Piece} {id : TerminalId}
    (hfirst : table.First ⟨before.getLast?, text ++ after⟩ order.ignored id ⟨text, [], after⟩)
    (rest : Cutting table order (before ++ text) after pieces) :
    Cutting table order before (text ++ after) (.ignored text [] :: pieces) := by
  have htext : (Piece.ignored text []).text = text := List.append_nil text
  rw [← htext] at rest
  have hfits : (Piece.ignored text []).Fits table order
      ⟨before.getLast?, (Piece.ignored text []).text ++ after⟩ after := by
    rw [htext]
    exact ⟨id, hfirst⟩
  have hcutting := Cutting.cons hfits rest
  rwa [htext] at hcutting

/-- A symbol with nothing skipped at its end. -/
theorem Cutting.symbol {before text after : List Char} {pieces : List Piece} {id : TerminalId}
    (hnone : table.NoneOf ⟨before.getLast?, text ++ after⟩ order.ignored)
    (hfirst : table.First ⟨before.getLast?, text ++ after⟩ order.scanned id ⟨text, [], after⟩)
    (rest : Cutting table order (before ++ text) after pieces) :
    Cutting table order before (text ++ after)
      (.symbol id (!table.isLiteral id) text [] :: pieces) := by
  have htext : (Piece.symbol id (!table.isLiteral id) text []).text = text := List.append_nil text
  rw [← htext] at rest
  have hfits : (Piece.symbol id (!table.isLiteral id) text []).Fits table order
      ⟨before.getLast?, (Piece.symbol id (!table.isLiteral id) text []).text ++ after⟩ after := by
    rw [htext]
    exact ⟨hnone, hfirst, hfirst.text_ne_nil, rfl⟩
  have hcutting := Cutting.cons hfits rest
  rwa [htext] at hcutting

theorem fits_of_next? {behind : Option Char} {ahead after : List Char} {piece : Piece}
    (h : next? table order ⟨behind, ahead⟩ = some (piece, after)) :
    ahead = piece.text ++ after ∧ piece.Fits table order ⟨behind, ahead⟩ after := by
  unfold next? at h
  split at h
  · cases h
  · next c cs hahead =>
      obtain rfl : ahead = c :: cs := hahead
      cases hignored : firstMatch? table ⟨behind, c :: cs⟩ order.ignored with
      | some r =>
          rw [hignored] at h
          cases h
          have hfirst := firstMatch?_eq_some_iff.mp hignored
          refine ⟨?_, r.1, hfirst⟩
          rw [Piece.text, List.append_assoc]
          exact hfirst.append_eq.symm
      | none =>
          rw [hignored] at h
          have hnone := firstMatch?_eq_none_iff.mp hignored
          cases hscanned : firstMatch? table ⟨behind, c :: cs⟩ order.scanned with
          | some r =>
              rw [hscanned] at h
              cases h
              have hfirst := firstMatch?_eq_some_iff.mp hscanned
              refine ⟨?_, hnone, hfirst, hfirst.text_ne_nil, rfl⟩
              rw [Piece.text, List.append_assoc]
              exact hfirst.append_eq.symm
          | none =>
              rw [hscanned] at h
              cases h
              exact ⟨rfl, hnone, firstMatch?_eq_none_iff.mp hscanned⟩

theorem Fits.next? {behind : Option Char} {after : List Char} {piece : Piece}
    (h : piece.Fits table order ⟨behind, piece.text ++ after⟩ after) :
    Piece.next? table order ⟨behind, piece.text ++ after⟩ = some (piece, after) := by
  obtain ⟨c, cs, hahead⟩ : ∃ c cs, piece.text ++ after = c :: cs :=
    List.exists_cons_of_ne_nil (List.append_ne_nil_of_left_ne_nil h.text_ne_nil after)
  unfold Piece.next?
  rw [hahead] at h ⊢
  cases piece with
  | ignored text skipped =>
      obtain ⟨id, hfirst⟩ := h
      simp only [firstMatch?_eq_some_iff.mpr hfirst]
  | symbol id captured text skipped =>
      obtain ⟨hnone, hfirst, _, rfl⟩ := h
      simp only [firstMatch?_eq_none_iff.mpr hnone, TerminalOrder.scanned,
        firstMatch?_eq_some_iff.mpr hfirst]
  | unmatched d =>
      obtain ⟨hnone, hscanned⟩ := h
      obtain ⟨rfl, rfl⟩ := List.cons.inj hahead
      simp only [firstMatch?_eq_none_iff.mpr hnone, TerminalOrder.scanned,
        firstMatch?_eq_none_iff.mpr hscanned]
      rfl

/-- The piece that is cut off is the one that fits. -/
theorem next?_eq_some_iff {behind : Option Char} {ahead after : List Char} {piece : Piece} :
    Piece.next? table order ⟨behind, ahead⟩ = some (piece, after) ↔
      ahead = piece.text ++ after ∧ piece.Fits table order ⟨behind, ahead⟩ after := by
  constructor
  · exact fits_of_next?
  · rintro ⟨rfl, hfits⟩
    exact hfits.next?

theorem exists_next? (table : TerminalTable) (order : TerminalOrder) (behind : Option Char)
    {ahead : List Char} (h : ahead ≠ []) :
    ∃ piece after, next? table order ⟨behind, ahead⟩ = some (piece, after) := by
  obtain ⟨c, cs, rfl⟩ := List.exists_cons_of_ne_nil h
  unfold next?
  dsimp only
  split
  · exact ⟨_, _, rfl⟩
  · split <;> exact ⟨_, _, rfl⟩

theorem cutting_nil_iff {before : List Char} {pieces : List Piece} :
    Cutting table order before [] pieces ↔ pieces = [] := by
  constructor
  · intro h
    generalize hnil : ([] : List Char) = ahead at h
    cases h with
    | nil => rfl
    | cons fits _ => exact absurd (List.append_eq_nil_iff.mp hnil.symm).1 fits.text_ne_nil
  · rintro rfl
    exact .nil

/-- A cutting begins with the piece that is cut off first. -/
theorem cutting_iff_of_next? {before ahead after : List Char} {piece : Piece}
    {pieces : List Piece}
    (h : next? table order ⟨before.getLast?, ahead⟩ = some (piece, after)) :
    Cutting table order before ahead pieces ↔
      ∃ rest, pieces = piece :: rest ∧ Cutting table order (before ++ piece.text) after rest := by
  constructor
  · intro hcutting
    cases hcutting with
    | nil => cases h
    | cons fits rest =>
        have hnext := next?_eq_some_iff.mpr ⟨rfl, fits⟩
        rw [h] at hnext
        cases hnext
        exact ⟨_, rfl, rest⟩
  · rintro ⟨rest, rfl, hrest⟩
    obtain ⟨rfl, hfits⟩ := next?_eq_some_iff.mp h
    exact .cons hfits hrest

/-- A text has one cutting, and with as much fuel as it has characters that one is computed. -/
theorem cutting_iff_cutFrom {before ahead : List Char} {pieces : List Piece} {fuel : Nat}
    (hfuel : ahead.length ≤ fuel) : Cutting table order before ahead pieces ↔
      pieces = cutFrom table order fuel ⟨before.getLast?, ahead⟩ := by
  induction fuel generalizing before ahead pieces with
  | zero =>
      obtain rfl := List.eq_nil_of_length_eq_zero (Nat.le_zero.mp hfuel)
      exact cutting_nil_iff
  | succ fuel ih =>
      rw [cutFrom]
      by_cases hnil : ahead = []
      · subst hnil
        exact cutting_nil_iff
      · obtain ⟨piece, after, hnext⟩ := exists_next? table order
          before.getLast? hnil
        obtain ⟨hahead, hfits⟩ := next?_eq_some_iff.mp hnext
        have hlength : after.length ≤ fuel := by
          have htext := List.length_pos_iff.mpr hfits.text_ne_nil
          rw [hahead, List.length_append] at hfuel
          omega
        have hpast : (⟨before.getLast?, ahead⟩ : Spot).past piece.text after =
            ⟨(before ++ piece.text).getLast?, after⟩ := by
          rw [List.getLast?_append]
          rfl
        rw [hnext, cutting_iff_of_next? hnext]
        dsimp only
        rw [hpast]
        constructor
        · rintro ⟨rest, rfl, hrest⟩
          rw [(ih hlength).mp hrest]
        · rintro rfl
          exact ⟨_, rfl, (ih hlength).mpr rfl⟩

theorem cutting_iff {source : List Char} {pieces : List Piece} :
    Cutting table order [] source pieces ↔ pieces = cutText table order source :=
  cutting_iff_cutFrom (Nat.le_refl _)

/-! ## What a cutting covers -/

theorem Cutting.flatMap_text {before ahead : List Char} {pieces : List Piece}
    (h : Cutting table order before ahead pieces) : pieces.flatMap text = ahead := by
  induction h with
  | nil => rfl
  | cons _ _ ih => rw [List.flatMap_cons, ih]

theorem Cutting.text_ne_nil {before ahead : List Char} {pieces : List Piece}
    (h : Cutting table order before ahead pieces) : ∀ piece ∈ pieces, piece.text ≠ [] := by
  induction h with
  | nil => simp
  | cons fits _ ih => exact List.forall_mem_cons.mpr ⟨fits.text_ne_nil, ih⟩

end Piece

end Descent
