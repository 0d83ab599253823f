import Descent.Proofs.Match.Postorder
import Descent.Proofs.Parse.Caps
import Descent.Proofs.Parse.Segment

/-!
# Recovery

A parse cuts the symbols up into segments turn by turn, makes one diagnostic for each run of symbols
that it skips, and comes to its end (`exists_parses`). The induction is on the symbols that are
left: every turn but the last moves past one.
-/

namespace Descent

variable {c : CompiledGrammar} {symbols : Array Symbol} {a i : Nat} {segments : List Segment}

/-! ## Diagnostics -/

/-- The diagnostic is about a symbol at `i` or behind it, or about the end of the input. -/
def Diagnostic.PointsFrom (d : Diagnostic) (symbols : Array Symbol) (length i : Nat) : Prop :=
  (∃ j s, i ≤ j ∧ symbols[j]? = some s ∧ d.kind = .unexpectedSymbol ∧ d.start = s.start ∧
      d.stop = s.stop ∧ d.found = some s.terminal) ∨
    (d.kind = .unexpectedEnd ∧ d.start = length ∧ d.stop = length)

theorem CompiledGrammar.pointsFrom_report (c : CompiledGrammar) (symbols : Array Symbol)
    (length i : Nat) (furthest : Option Furthest) :
    (c.report symbols length i furthest).PointsFrom symbols length i := by
  have hle : i ≤ ((furthest.filter (i ≤ ·.position)).getD ⟨i, []⟩).position := by
    cases hfilter : furthest.filter (i ≤ ·.position) with
    | none => exact Nat.le_refl i
    | some f => exact of_decide_eq_true (Option.filter_eq_some_iff.mp hfilter).2
  unfold report
  dsimp only
  cases hsymbol : symbols[((furthest.filter (i ≤ ·.position)).getD ⟨i, []⟩).position]? with
  | some s => exact Or.inl ⟨_, s, hle, hsymbol, rfl, rfl, rfl, rfl⟩
  | none => exact Or.inr ⟨rfl, rfl, rfl⟩

/-! ## Turns -/

namespace Progress

variable {α : Type} {g : Grammar α} {n : Nat} {p q r : Progress α} {trees trees' : List MatchTree}
  {ds ds' : List Diagnostic}

/-- The parse has come to `i`, and the root has been tried before. -/
structure Stands (c : CompiledGrammar) (symbols : Array Symbol) (i : Nat) (p : Progress α) :
    Prop where
  ready : p.eval.Ready c
  fuel : p.eval.fuel = none
  symbols : p.eval.cursor.symbols = symbols
  position : p.eval.cursor.position = i
  first : p.first = false

/-- From the first to the second the trees were recovered and the diagnostics made. -/
structure Gains (g : Grammar α) (c : CompiledGrammar) (symbols : Array Symbol) (p q : Progress α)
    (trees : List MatchTree) (ds : List Diagnostic) : Prop where
  value : q.parse.value = p.parse.value
  recovered : q.parse.recovered = p.parse.recovered ++ trees.map (·.value g c symbols)
  diagnostics : q.parse.diagnostics = p.parse.diagnostics ++ ds
  calls : q.calls.toList = p.calls.toList ++ trees.flatMap (·.calls g symbols)

theorem Gains.same (hparse : q.parse = p.parse) (hcalls : q.calls = p.calls) :
    Gains g c symbols p q [] [] := by
  refine ⟨?_, ?_, ?_, ?_⟩ <;> simp [hparse, hcalls]

theorem Gains.trans (h : Gains g c symbols p q trees ds) (h' : Gains g c symbols q r trees' ds') :
    Gains g c symbols p r (trees ++ trees') (ds ++ ds') := by
  refine ⟨h'.value.trans h.value, ?_, ?_, ?_⟩
  · rw [h'.recovered, h.recovered, List.map_append, List.append_assoc]
  · rw [h'.diagnostics, h.diagnostics, List.append_assoc]
  · rw [h'.calls, h.calls, List.flatMap_append, List.append_assoc]

theorem first_reportOnce (f : Option Furthest) : (p.reportOnce c n f).first = p.first := by
  unfold reportOnce
  split <;> rfl

theorem reporting_reportOnce (f : Option Furthest) :
    (p.reportOnce c n f).reporting = false := by
  unfold reportOnce
  split
  · rfl
  · next h => exact Bool.eq_false_iff.mpr h

/-- A symbol that is skipped is reported, unless it stands in a run that is. -/
theorem gains_skip (f : Option Furthest) (hsymbols : p.eval.cursor.symbols = symbols) :
    ∃ ds, Gains g c symbols p (p.reportOnce c n f).skip [] ds ∧
      (p.reporting = false → ds = []) ∧
      (p.reporting = true → ∃ d, ds = [d] ∧ d.PointsFrom symbols n p.eval.cursor.position) := by
  cases hreporting : p.reporting with
  | false =>
      have hreport : p.reportOnce c n f = p := if_neg (by simp [hreporting])
      rw [hreport]
      exact ⟨[], .same rfl rfl, fun _ => rfl, by simp⟩
  | true =>
      let d := c.report p.eval.cursor.symbols n p.eval.cursor.position f
      have hreport : p.reportOnce c n f = { p with
          parse := { p.parse with diagnostics := p.parse.diagnostics ++ [d] }
          reporting := false } := if_pos hreporting
      rw [hreport]
      refine ⟨[d], ⟨rfl, (List.append_nil _).symm, rfl, (List.append_nil _).symm⟩, by simp, ?_⟩
      intro _
      refine ⟨d, rfl, ?_⟩
      show (c.report p.eval.cursor.symbols n p.eval.cursor.position f).PointsFrom symbols n _
      rw [hsymbols]
      exact c.pointsFrom_report symbols n p.eval.cursor.position f

/-- Moving past a symbol that there is. -/
theorem Stands.skip (h : p.Stands c symbols i) (hi : i < symbols.size) (f : Option Furthest) :
    (p.reportOnce c n f).skip.Stands c symbols (i + 1) := by
  have hpeek : p.eval.cursor.peek? = some symbols[i] := by
    unfold Cursor.peek?
    rw [h.symbols, h.position]
    exact Array.getElem?_eq_getElem hi
  have hadvance : p.eval.cursor.advance.2 = { p.eval.cursor with position := i + 1 } := by
    unfold Cursor.advance
    rw [hpeek, h.position]
  have heval : (p.reportOnce c n f).skip.eval =
      { p.eval with cursor := ⟨symbols, i + 1, i + 1⟩ } := by
    rw [eval_skip, hadvance, ← h.symbols]
    rfl
  have hfirst : (p.reportOnce c n f).skip.first = false :=
    (first_reportOnce f).trans h.first
  refine ⟨?_, ?_, ?_, ?_, hfirst⟩
  · rw [heval]
    exact ⟨h.ready.guard, h.ready.depth, Nat.le_refl _⟩
  · rw [heval]
    exact h.fuel
  · rw [heval]
  · rw [heval]

theorem keep_eq (eval : EvalState) (t : MatchTree) : p.keep g c eval t =
    { eval := { eval with cursor := eval.cursor.commit, furthest := none }
      parse := if p.first then { p.parse with value := some (t.value g c eval.cursor.symbols) }
        else { p.parse with
          recovered := p.parse.recovered ++ [t.value g c eval.cursor.symbols] }
      calls := (t.resolve g c eval.cursor.symbols p.calls).2
      first := false
      reporting := true } := by
  unfold keep
  rw [accept_eq]
  dsimp only
  rw [MatchTree.value_resolve]

section

variable {o : Option MatchTree} {t : EvalState} {es : List Event} {tree : MatchTree}

theorem stands_keep (htried : Tried c p.eval o t es) (tree : MatchTree) :
    (p.keep g c t tree).Stands c p.eval.cursor.symbols t.cursor.position := by
  rw [keep_eq]
  exact ⟨⟨htried.ready.guard, htried.ready.depth, Nat.le_refl _⟩, htried.fuel, htried.symbols, rfl,
    rfl⟩

theorem stands_drop (htried : Tried c p.eval o t es) :
    (p.drop t).Stands c p.eval.cursor.symbols t.cursor.position :=
  ⟨⟨htried.ready.guard, htried.ready.depth, htried.ready.committed⟩, htried.fuel, htried.symbols,
    rfl, rfl⟩

theorem gains_keep (hfirst : p.first = false) (htried : Tried c p.eval o t es)
    (tree : MatchTree) : Gains g c p.eval.cursor.symbols p (p.keep g c t tree) [tree] [] := by
  rw [keep_eq, if_neg (by simp [hfirst]), htried.symbols]
  refine ⟨rfl, rfl, (List.append_nil _).symm, ?_⟩
  rw [MatchTree.calls_resolve]
  simp

/-- A match that leaves symbols over is kept, and the symbol behind it is reported and skipped. -/
theorem skip_kept (htried : Tried c p.eval o t es) (hsymbols : p.eval.cursor.symbols = symbols)
    (hlt : t.cursor.position < symbols.size) (tree : MatchTree) :
    let q := ((p.keep g c t tree).reportOnce c n t.furthest).skip
    q.Stands c symbols (t.cursor.position + 1) ∧ q.reporting = false ∧
      ∃ d, Gains g c symbols (p.keep g c t tree) q [] [d] ∧
        d.PointsFrom symbols n t.cursor.position := by
  have hstands : (p.keep g c t tree).Stands c symbols t.cursor.position := by
    have hkept := stands_keep (g := g) htried tree
    rwa [hsymbols] at hkept
  obtain ⟨ds, hgains, _, hreported⟩ := gains_skip (g := g) (n := n) (p := p.keep g c t tree)
    t.furthest hstands.symbols
  obtain ⟨d, rfl, hpoints⟩ := hreported (by rw [keep_eq])
  rw [hstands.position] at hpoints
  exact ⟨hstands.skip hlt t.furthest, reporting_reportOnce t.furthest, d, hgains, hpoints⟩

/-! ## Going on to the end -/

/-- A parse that skips symbols from `a` on and has come to `i` goes on to the end, cutting the
symbols up so, and every run after this one has its diagnostic. -/
structure Completes (g : Grammar α) (c : CompiledGrammar) (symbols : Array Symbol) (n a i : Nat)
    (p q : Progress α) (segments : List Segment) : Prop where
  ends : ∃ k, k ≤ symbols.size - i + 1 ∧ Ends g c n {} k p (.ok ()) q
  recovers : Recovers c symbols a i segments
  reports : ∃ runs ds, segments.filterMap Segment.run? = a :: runs ∧
    List.Forall₂ (fun start d => d.PointsFrom symbols n start) runs ds ∧
    Gains g c symbols p q (segments.filterMap Segment.recovered?) ds

theorem settle_taken (htaken : p.first = true ∨ p.eval.cursor.position < t.cursor.position) :
    p.settle g c n (some tree) t =
      if t.cursor.isAtEnd then (.ok false, p.keep g c t tree)
      else (.ok true, ((p.keep g c t tree).reportOnce c n t.furthest).skip) := by
  have hfilter : (some tree).filter (fun _ => p.first ||
      decide (t.cursor.position > p.eval.cursor.position)) = some tree := by
    rw [Option.filter_some]
    exact if_pos (by simpa using htaken)
  unfold settle
  rw [hfilter]

theorem settle_dropped (hdropped : o = none ∨
    (p.first = false ∧ t.cursor.position = p.eval.cursor.position)) :
    p.settle g c n o t =
      (.ok (!t.cursor.isAtEnd), ((p.drop t).reportOnce c n t.furthest).skip) := by
  have hfilter : o.filter (fun _ => p.first ||
      decide (t.cursor.position > p.eval.cursor.position)) = none := by
    rcases hdropped with rfl | ⟨hfirst, heq⟩
    · rfl
    · simp [hfirst, heq]
  unfold settle
  rw [hfilter]

theorem isAtEnd_eq (hsymbols : t.cursor.symbols = symbols) :
    t.cursor.isAtEnd = decide (symbols.size ≤ t.cursor.position) := by
  unfold Cursor.isAtEnd
  rw [hsymbols]

/-- At the end a match could not read anything, so the parse stops. -/
theorem completes_ended (h : p.Stands c symbols symbols.size) (hreporting : p.reporting = false)
    (htried : Tried c p.eval o t es) : ∃ q, Completes g c symbols n a symbols.size p q
      [.skipped a symbols.size] := by
  have hle := htried.le
  have hsize := htried.le_size (by rw [h.position, h.symbols])
  rw [h.position] at hle
  rw [h.symbols] at hsize
  have hdropped : t.cursor.position = p.eval.cursor.position := by
    rw [h.position]
    omega
  have hend : t.cursor.isAtEnd = true := by
    rw [isAtEnd_eq (htried.symbols.trans h.symbols)]
    exact decide_eq_true hle
  have hattempt := (attempt_of_ok (g := g) (n := n) htried.free).trans
    (settle_dropped (Or.inr ⟨h.first, hdropped⟩))
  rw [hend] at hattempt
  -- the run that ends here was reported at its first symbol
  obtain ⟨ds, hgains, hsilent, _⟩ := gains_skip (g := g) (n := n) (p := p.drop t) t.furthest
    (htried.symbols.trans h.symbols)
  obtain rfl := hsilent hreporting
  refine ⟨_, ⟨1, Nat.le_add_left 1 _, .stops hattempt⟩, .ended, [], [], rfl, .nil, ?_⟩
  exact (Gains.same rfl rfl : Gains g c symbols p (p.drop t) [] []).trans hgains

/-- Where the root reads nothing another symbol is skipped. -/
theorem completes_skipped (h : p.Stands c symbols i) (hreporting : p.reporting = false)
    (hi : i < symbols.size) (htried : Tried c p.eval o t es) (heq : t.cursor.position = i)
    (hrest : ∀ q, q.Stands c symbols (i + 1) → q.reporting = false →
      ∃ r segments, Completes g c symbols n a (i + 1) q r segments) :
    ∃ q segments, Completes g c symbols n a i p q segments := by
  have hsymbols : t.cursor.symbols = symbols := htried.symbols.trans h.symbols
  have hend : t.cursor.isAtEnd = false := by
    rw [isAtEnd_eq hsymbols, heq]
    exact decide_eq_false (Nat.not_le.mpr hi)
  have hattempt := (attempt_of_ok (g := g) (n := n) htried.free).trans
    (settle_dropped (Or.inr ⟨h.first, heq.trans h.position.symm⟩))
  rw [hend] at hattempt
  have hdrop : (p.drop t).Stands c symbols i := by
    have hstands := stands_drop htried
    rwa [h.symbols, heq] at hstands
  obtain ⟨ds, hgains, hsilent, _⟩ := gains_skip (g := g) (n := n) (p := p.drop t) t.furthest
    hsymbols
  obtain rfl := hsilent hreporting
  obtain ⟨q, segments, hcompletes⟩ :=
    hrest _ (hdrop.skip hi t.furthest) (reporting_reportOnce t.furthest)
  obtain ⟨k, hk, hends⟩ := hcompletes.ends
  obtain ⟨runs, ds, hruns, hpoints, hmore⟩ := hcompletes.reports
  refine ⟨q, segments, ⟨k + 1, by omega, .goesOn hattempt hends⟩,
    .skipped hi ?_ hcompletes.recovers, runs, ds, hruns, hpoints, ?_⟩
  · intro tree q hmatched
    have hroot := htried.matched
    rw [h.symbols, h.position, hmatched] at hroot
    obtain ⟨_, _, hpair⟩ := Option.map_eq_some_iff.mp hroot.symm
    exact ((Prod.ext_iff.mp hpair).2.symm.trans heq)
  · have hfirst : Gains g c symbols p (p.drop t) [] [] := .same rfl rfl
    exact (hfirst.trans hgains).trans hmore

/-- A match that reads symbols is recovered, and unless it reads all of them the parse goes on
skipping behind it. -/
theorem completes_recovered (h : p.Stands c symbols i) (hi : i ≤ symbols.size)
    (htried : Tried c p.eval (some tree) t es) (hlt : i < t.cursor.position)
    (hrest : ∀ q, q.Stands c symbols (t.cursor.position + 1) → q.reporting = false →
      t.cursor.position < symbols.size → ∃ r segments,
        Completes g c symbols n t.cursor.position (t.cursor.position + 1) q r segments) :
    ∃ q segments, Completes g c symbols n a i p q segments := by
  have hsymbols : t.cursor.symbols = symbols := htried.symbols.trans h.symbols
  have hsize : t.cursor.position ≤ symbols.size := by
    have hle := htried.le_size (by rwa [h.position, h.symbols])
    rwa [h.symbols] at hle
  have hroot : c.matched? symbols c.root i = some (tree, t.cursor.position) := by
    have hmatched := htried.matched
    rwa [h.symbols, h.position] at hmatched
  have hattempt := (attempt_of_ok (g := g) (n := n) htried.free).trans
    (settle_taken (Or.inr (by rwa [h.position])))
  rw [isAtEnd_eq hsymbols] at hattempt
  have hkeep : Gains g c symbols p (p.keep g c t tree) [tree] [] := by
    have hgains := gains_keep (g := g) h.first htried tree
    rwa [h.symbols] at hgains
  by_cases hend : symbols.size ≤ t.cursor.position
  · rw [if_pos (decide_eq_true hend)] at hattempt
    have heq : t.cursor.position = symbols.size := Nat.le_antisymm hsize hend
    rw [heq] at hroot
    exact ⟨_, _, ⟨1, Nat.le_add_left 1 _, .stops hattempt⟩, .last (by omega) hroot, [], [], rfl,
      .nil, hkeep⟩
  · rw [if_neg (by simpa using hend)] at hattempt
    obtain ⟨hstands, hquiet, d, hgains, hpoints⟩ :=
      skip_kept (g := g) (n := n) htried h.symbols (Nat.not_le.mp hend) tree
    obtain ⟨q, segments, hcompletes⟩ := hrest _ hstands hquiet (Nat.not_le.mp hend)
    obtain ⟨k, hk, hends⟩ := hcompletes.ends
    obtain ⟨runs, ds, hruns, hall, hmore⟩ := hcompletes.reports
    refine ⟨q, _, ⟨k + 1, by omega, .goesOn hattempt hends⟩,
      .found hlt (by omega) hroot hcompletes.recovers, t.cursor.position :: runs, d :: ds, ?_,
      .cons hpoints hall, (hkeep.trans hgains).trans hmore⟩
    simp [List.filterMap_cons, Segment.run?, hruns]

/-- From any symbol on the parse goes on to the end, by induction on the number of symbols left. -/
theorem exists_completes (hc : c.Consistent) (hroot : c.root ∈ c.order)
    (h : p.Stands c symbols i) (hreporting : p.reporting = false) (hi : i ≤ symbols.size)
    (a : Nat) : ∃ q segments, Completes g c symbols n a i p q segments := by
  induction hleft : symbols.size - i using Nat.strong_induction_on generalizing p i a with
  | h left ih =>
      obtain ⟨o, t, es, htried⟩ := exists_tried hc hroot h.ready h.fuel
      rcases Nat.eq_or_lt_of_le hi with rfl | hlt
      · obtain ⟨q, hcompletes⟩ := completes_ended (a := a) h hreporting htried
        exact ⟨q, _, hcompletes⟩
      · have hle := htried.le
        rw [h.position] at hle
        -- the root reads nothing, if only because it fails, or else it matches
        rcases Nat.eq_or_lt_of_le hle with heq | hread
        · exact completes_skipped h hreporting hlt htried heq.symm fun q hq hquiet =>
            ih _ (by omega) hq hquiet hlt a rfl
        · cases o with
          | none => exact absurd ((htried.eq_of_none rfl).trans h.position) hread.ne'
          | some tree =>
              exact completes_recovered h hi htried hread fun q hq hquiet hmore =>
                ih _ (by omega) hq hquiet hmore t.cursor.position rfl

end

end Progress

/-! ## Whole parses -/

/-- The parse holds what the segments say: the values of the matches, and a diagnostic for each run
of skipped symbols. Without symbols the one diagnostic is about the end. -/
structure Parse.Reflects {α : Type} (parse : Parse α) (g : Grammar α) (c : CompiledGrammar)
    (symbols : Array Symbol) (n : Nat) (segments : List Segment) : Prop where
  value : parse.value = (c.matched? symbols c.root 0).map fun m => m.1.value g c symbols
  recovered : parse.recovered =
    (segments.filterMap Segment.recovered?).map (·.value g c symbols)
  reports : symbols.size ≠ 0 ∨ c.matched? symbols c.root 0 ≠ none →
    List.Forall₂ (fun start d => d.PointsFrom symbols n start)
      (segments.filterMap Segment.run?) parse.diagnostics
  report_end : symbols.size = 0 → c.matched? symbols c.root 0 = none →
    ∃ d, parse.diagnostics = [d] ∧ d.PointsFrom symbols n 0

namespace Progress

variable {α : Type} {g : Grammar α} {n : Nat} {o : Option MatchTree} {t : EvalState}
  {es : List Event} {tree : MatchTree}

/-- The parse begins so, cuts the symbols up so and comes to its end. -/
structure Parses (g : Grammar α) (c : CompiledGrammar) (symbols : Array Symbol) (n : Nat)
    (q : Progress α) (segments : List Segment) : Prop where
  ends : ∃ k, k ≤ symbols.size + 1 ∧ Ends g c n {} k (start c ⟨symbols, []⟩) (.ok ()) q
  recounts : Recounts c symbols segments
  reflects : q.parse.Reflects g c symbols n segments
  calls : q.calls.toList = (segments.filterMap Segment.tree?).flatMap (·.calls g symbols)

/-- The root matches all symbols, or some of them and then the parse recovers. -/
theorem exists_parses_matched (hc : c.Consistent) (hroot : c.root ∈ c.order)
    (htried : Tried c (start (α := α) c ⟨symbols, []⟩).eval (some tree) t es) :
    ∃ q segments, Parses g c symbols n q segments := by
  have hstart : (start (α := α) c ⟨symbols, []⟩).eval.cursor.symbols = symbols := rfl
  have hsymbols : t.cursor.symbols = symbols := htried.symbols
  have hsize : t.cursor.position ≤ symbols.size := htried.le_size (Nat.zero_le _)
  have hmatched : c.matched? symbols c.root 0 = some (tree, t.cursor.position) := htried.matched
  have hattempt := (attempt_of_ok (p := start c ⟨symbols, []⟩) (g := g) (n := n) htried.free).trans
    (settle_taken (Or.inl rfl))
  rw [isAtEnd_eq hsymbols] at hattempt
  have hparse : ((start c ⟨symbols, []⟩).keep g c t tree).parse =
      { value := some (tree.value g c symbols) } := by
    rw [keep_eq, hsymbols]
    rfl
  have hcalls : ((start c ⟨symbols, []⟩).keep g c t tree).calls.toList = tree.calls g symbols := by
    rw [keep_eq, hsymbols]
    exact MatchTree.calls_resolve tree #[]
  by_cases hend : symbols.size ≤ t.cursor.position
  · rw [if_pos (decide_eq_true hend)] at hattempt
    have heq : t.cursor.position = symbols.size := Nat.le_antisymm hsize hend
    have hwhole := hmatched
    rw [heq] at hwhole
    refine ⟨_, _, ⟨1, Nat.le_add_left 1 _, .stops hattempt⟩, .whole hwhole, ?_, ?_⟩
    · rw [hparse]
      refine ⟨?_, rfl, fun _ => .nil, ?_⟩
      · rw [hmatched]
        rfl
      · intro _ hnone
        rw [hnone] at hmatched
        cases hmatched
    · rw [hcalls]
      exact (List.append_nil _).symm
  · rw [if_neg (by simpa using hend)] at hattempt
    obtain ⟨hstands, hquiet, d, hgains, hpoints⟩ :=
      skip_kept (g := g) (n := n) htried hstart (Nat.not_le.mp hend) tree
    obtain ⟨q, segments, hcompletes⟩ := exists_completes (g := g) (n := n) hc hroot hstands hquiet
      (Nat.not_le.mp hend) t.cursor.position
    obtain ⟨k, hk, hends⟩ := hcompletes.ends
    obtain ⟨runs, ds, hruns, hall, hmore⟩ := hcompletes.reports
    have hboth := hgains.trans hmore
    refine ⟨q, .primary tree t.cursor.position :: segments,
      ⟨k + 1, by omega, .goesOn hattempt hends⟩, .short hmatched (by omega) hcompletes.recovers,
      ⟨?_, ?_, ?_, ?_⟩, ?_⟩
    · rw [hboth.value, hparse, hmatched]
      rfl
    · rw [hboth.recovered, hparse]
      rfl
    · intro _
      rw [hboth.diagnostics, hparse, List.filterMap_cons]
      show List.Forall₂ _ (segments.filterMap Segment.run?) _
      rw [hruns]
      exact .cons hpoints hall
    · intro _ hnone
      rw [hnone] at hmatched
      cases hmatched
    · rw [hboth.calls, hcalls, List.filterMap_cons]
      show _ = ((tree :: segments.filterMap Segment.tree?).flatMap _)
      rw [hcompletes.recovers.trees]
      rfl

/-- The root fails at the beginning, and then the parse recovers unless there are no symbols. -/
theorem exists_parses_unmatched (hc : c.Consistent) (hroot : c.root ∈ c.order)
    (htried : Tried c (start (α := α) c ⟨symbols, []⟩).eval none t es) :
    ∃ q segments, Parses g c symbols n q segments := by
  have hsymbols : t.cursor.symbols = symbols := htried.symbols
  have hposition : t.cursor.position = 0 := htried.eq_of_none rfl
  have hmatched : c.matched? symbols c.root 0 = none := htried.matched
  have hattempt := (attempt_of_ok (p := start c ⟨symbols, []⟩) (g := g) (n := n) htried.free).trans
    (settle_dropped (Or.inl rfl))
  rw [isAtEnd_eq hsymbols, hposition] at hattempt
  have hstands : ((start (α := α) c ⟨symbols, []⟩).drop t).Stands c symbols 0 := by
    have hdropped := stands_drop htried
    rwa [hposition] at hdropped
  obtain ⟨ds, hgains, _, hreported⟩ := gains_skip (g := g) (n := n)
    (p := (start c ⟨symbols, []⟩).drop t) t.furthest hstands.symbols
  obtain ⟨d, rfl, hpoints⟩ := hreported rfl
  rw [hstands.position] at hpoints
  rcases Nat.eq_zero_or_pos symbols.size with hzero | hpos
  · rw [hzero] at hattempt
    refine ⟨_, [], ⟨1, Nat.le_add_left 1 _, .stops hattempt⟩, .nothing hmatched hzero,
      ⟨?_, hgains.recovered, ?_, ?_⟩, hgains.calls⟩
    · rw [hgains.value, hmatched]
      rfl
    · rintro (hsome | hsome)
      · exact absurd hzero hsome
      · exact absurd hmatched hsome
    · intro _ _
      exact ⟨d, hgains.diagnostics, hpoints⟩
  · rw [decide_eq_false (Nat.not_le.mpr hpos)] at hattempt
    obtain ⟨q, segments, hcompletes⟩ := exists_completes (g := g) (n := n) hc hroot
      (hstands.skip hpos t.furthest) (reporting_reportOnce t.furthest) hpos 0
    obtain ⟨k, hk, hends⟩ := hcompletes.ends
    obtain ⟨runs, ds, hruns, hall, hmore⟩ := hcompletes.reports
    have hboth := hgains.trans hmore
    refine ⟨q, segments, ⟨k + 1, by omega, .goesOn hattempt hends⟩,
      .unmatched hmatched hpos hcompletes.recovers, ⟨?_, hboth.recovered, ?_, ?_⟩, ?_⟩
    · rw [hboth.value, hmatched]
      rfl
    · intro _
      rw [hboth.diagnostics, hruns]
      exact .cons hpoints hall
    · intro hzero
      exact absurd hzero hpos.ne'
    · rw [hboth.calls, hcompletes.recovers.trees]
      rfl

theorem exists_parses (hc : c.Consistent) (hroot : c.root ∈ c.order) (g : Grammar α)
    (symbols : Array Symbol) (n : Nat) : ∃ q segments, Parses g c symbols n q segments := by
  obtain ⟨o, t, es, htried⟩ := exists_tried hc hroot
    (EvalState.ready_initial c {} symbols) rfl
  cases o with
  | none => exact exists_parses_unmatched hc hroot htried
  | some tree => exact exists_parses_matched hc hroot htried

end Progress

/-! ## The diagnostics of a parse -/

namespace Parse.Reflects

variable {α : Type} {g : Grammar α} {n : Nat} {parse : Parse α}

end Parse.Reflects

/-! ## Parsers -/

/-- All errors met while cutting a text into symbols concern its characters. -/
theorem SymbolStream.anyLexical_ofPieces (pieces : List Piece) :
    Diagnostic.anyLexical (ofPieces pieces).diagnostics = false ↔
      (ofPieces pieces).diagnostics = [] := by
  unfold ofPieces Diagnostic.anyLexical
  cases Piece.strayRuns 0 pieces with
  | nil => simp
  | cons run runs => simp [Diagnostic.unrecognized, DiagnosticKind.isLexical]

theorem CompiledGrammar.parseStream_eq_of_parses {α : Type} {g : Grammar α} {n : Nat}
    {q : Progress α} (h : Progress.Parses g c symbols n q segments) :
    c.parseStream g {} n ⟨symbols, []⟩ = .ofRun (.ok (), q) := by
  obtain ⟨k, hk, hends⟩ := h.ends
  rw [parseStream_eq_ofRun rfl]
  exact congrArg Outcome.ofRun (hends.run_eq hk)

namespace Parser

variable {α : Type} {p : Parser α}

/-- Without caps a parse of a text tries no rule, or comes to its end. -/
theorem exists_parseWithin (hcompile : p.grammar.compile p.root = .ok c) (source : String) :
    ∃ stream, p.symbolize source = .ok stream ∧
      ((Diagnostic.anyLexical stream.diagnostics = true ∧ stream.diagnostics ≠ [] ∧
        p.parseWithin {} source = { result := .ok { diagnostics := stream.diagnostics } }) ∨
      (stream.diagnostics = [] ∧ ∃ q segments,
        Progress.Parses p.grammar c stream.symbols (Text.byteLength source.toList) q segments ∧
        p.parseWithin {} source = .ofRun (.ok (), q))) := by
  have hc := Grammar.consistent_of_compile hcompile
  have hroot := (Grammar.covers_of_compile hcompile).root_mem_order
  have hsymbolize : p.symbolize source = .ok (p.symbolizeWith c source) := by
    unfold symbolize
    rw [compiled_eq, hcompile]
  have hparse : p.parseWithin {} source = c.parseStream p.grammar {}
      (Text.byteLength source.toList) (p.symbolizeWith c source) :=
    parse_eq_parseStream (p := { p with limits := {} }) hcompile source
  have hlexical : Diagnostic.anyLexical (p.symbolizeWith c source).diagnostics = false ↔
      (p.symbolizeWith c source).diagnostics = [] := SymbolStream.anyLexical_ofPieces _
  generalize p.symbolizeWith c source = stream at hsymbolize hparse hlexical
  obtain ⟨symbols, diagnostics⟩ := stream
  refine ⟨_, hsymbolize, ?_⟩
  cases diagnostics with
  | nil =>
      obtain ⟨q, segments, hparses⟩ := Progress.exists_parses hc hroot p.grammar symbols
        (Text.byteLength source.toList)
      rw [CompiledGrammar.parseStream_eq_of_parses hparses] at hparse
      exact Or.inr ⟨rfl, q, segments, hparses, hparse⟩
  | cons d ds =>
      have hany : Diagnostic.anyLexical (d :: ds) = true := by
        rw [← Bool.not_eq_false]
        exact fun hnone => List.cons_ne_nil d ds (hlexical.mp hnone)
      exact Or.inl ⟨hany, List.cons_ne_nil d ds, hparse.trans (if_pos hany)⟩

end Parser

end Descent
