import Descent.Proofs.Parse.Caps

/-!
# What an evaluation leaves alone

The mark of the cursor, the guard and the depth are after an evaluation what they were before it,
even if a cap stops it halfway. A rule that does not match leaves the cursor where it was tried, and
one that matches leaves it there or further on, among the symbols. A run knows where each part of a
rule may leave the cursor (`Run.eq_back`, `Run.progress`), and replaying its record touches nothing
else; so the cursor is never asked to move back further than it may (`cursor_contract`).
-/

namespace Descent

namespace EvalState

/-- The second state has what evaluation must not change: the symbols, the mark of the cursor, the
guard and the depth. -/
structure Frames (s t : EvalState) : Prop where
  symbols : t.cursor.symbols = s.cursor.symbols
  committed : t.cursor.committed = s.cursor.committed
  guard : t.guard = s.guard
  depth : t.depth = s.depth

theorem frames_resume (s : EvalState) (l : Ledger) (p : Nat) : s.Frames (s.resume l p) :=
  ⟨rfl, rfl, rfl, rfl⟩

/-- Evaluation of a rule may come to this when it starts in the state. -/
def Allows (s : EvalState) : EStateM.Result Fault EvalState (Option MatchTree) → Prop
  | .ok none t => s.Frames t ∧ t.cursor.position = s.cursor.position
  | .ok (some _) t => s.Frames t ∧ s.cursor.position ≤ t.cursor.position ∧
      t.cursor.position ≤ s.cursor.symbols.size
  | .error e t => s.Frames t ∧ (e = .fuelExhausted ∨ e = .recursionLimitExceeded)

end EvalState

/-- A replay that starts with no rule open stops with a fault of the caps only. -/
theorem Ledger.fault_of_replay {limits : Limits} {l l' : Ledger} {log : List Note} {e : Fault}
    (hl : l.depth = 0) (h : l.replay limits log = .error (e, l')) :
    e = .fuelExhausted ∨ e = .recursionLimitExceeded := by
  have hcharged : Charged limits l [] (Note.events log) ((l.withFuel none).replay {} log)
      (l.replay limits log) := charged_replay log hl fun _ _ => Nat.zero_le _
  rw [h] at hcharged
  exact hcharged.2.fault

/-- Whatever the caps are, an evaluation with no rule open comes to what it may. -/
theorem CompiledGrammar.allows_evaluate {c : CompiledGrammar} {s : EvalState} {id : RuleId}
    (limits : Limits) (hc : c.Consistent) (hid : id ∈ c.order) (hs : s.Ready c)
    (hsize : s.cursor.position ≤ s.cursor.symbols.size) : s.Allows (c.evaluate limits id s) := by
  obtain ⟨o, q, log, hrun, hfollows⟩ := evaluate_follows limits hc hid hs
  cases hreplay : s.ledger.replay limits log with
  | error e =>
      obtain ⟨q', hfault⟩ := hfollows.of_replay_error hreplay
      rw [hfault]
      exact ⟨s.frames_resume e.2 q', Ledger.fault_of_replay hs.depth hreplay⟩
  | ok l =>
      rw [hfollows.of_replay_ok hreplay]
      cases o with
      | none => exact ⟨s.frames_resume l q, hrun.eq_back rfl⟩
      | some tree =>
          obtain ⟨hle, hbound⟩ := hrun.position_le hc
          exact ⟨s.frames_resume l q, hle, hbound hsize⟩

/-- No parse ends because the cursor refused to move back. -/
theorem Parser.result_ne_cursor {α : Type} (p : Parser α) (source : String) (e : CursorError) :
    (p.parse source).result ≠ .error (.fault (.cursor e)) := by
  cases hcompile : p.grammar.compile p.root with
  | error f =>
      unfold parse
      rw [compiled_eq, hcompile]
      intro h
      cases h
  | ok c =>
      have hexact : CapsExact (p.parseWithin · source) := capsExact_parse hcompile source
      obtain ⟨r, hr⟩ := hexact.isOk
      have hown : p.parseWithin p.limits source = p.parse source := rfl
      rw [← hown]
      by_cases hallow : p.limits.Allow (p.parseWithin {} source).attempts
          (p.parseWithin {} source).mostOpen
      · rw [hexact.allowed p.limits hallow, hr]
        intro h
        cases h
      · intro h
        rcases (hexact.stopped p.limits hallow).1 with hfault | hfault
        · cases h.symm.trans hfault
        · cases h.symm.trans hfault

namespace Grammar

variable {α : Type} {g : Grammar α} {root : RuleId} {c : CompiledGrammar}

/-- Evaluation of a reachable rule of a compiled grammar, under any caps and from any place among
the symbols that is not before the mark, stops with a fault of the caps or comes to an answer, with
the mark, the guard and the depth as before. Without a match the cursor is where it was, with one it
is there or further on among the symbols. So no parse ends because the cursor refused to move. -/
theorem cursor_contract (hcompile : g.compile root = .ok c) :
    (∀ (limits : Limits) (id : RuleId) (s : EvalState), g.Reachable root id → s.Ready c →
      s.cursor.position ≤ s.cursor.symbols.size → s.Allows (c.evaluate limits id s)) ∧
    ∀ (p : Parser α) (source : String) (e : CursorError),
      (p.parse source).result ≠ .error (.fault (.cursor e)) := by
  refine ⟨?_, fun p source e => p.result_ne_cursor source e⟩
  intro limits id s hid hs hsize
  have hmem : id ∈ c.order := ((covers_of_compile hcompile).mem_order id).mpr hid
  exact c.allows_evaluate limits (consistent_of_compile hcompile) hmem hs hsize

/-- A sum at the second of three symbols, the first of them settled: the sign that no place follows
is given back. With two attempts only, a cap stops it inside. -/
theorem cursor_contract_tally :
    let symbols : Array Symbol :=
      #[⟨⟨1⟩, 0, "+", false⟩, ⟨⟨0⟩, 1, "i", false⟩, ⟨⟨1⟩, 2, "+", false⟩]
    let s : EvalState := { EvalState.initial tallyCompiled {} symbols with
      cursor := { symbols, committed := 1, position := 1 } }
    tally.compile ⟨0⟩ = .ok tallyCompiled ∧ s.Ready tallyCompiled ∧
    (∃ tree t, tallyCompiled.evaluate {} ⟨0⟩ s = .ok (some tree) t ∧ t.cursor.position = 2 ∧
      s.Frames t) ∧
    (∃ t, tallyCompiled.evaluate {} ⟨0⟩ (s.withFuel (some 2)) = .error .fuelExhausted t ∧
      (s.withFuel (some 2)).Frames t) ∧
    ∀ e, (Parser.tally.parse "i+").result ≠ .error (.fault (.cursor e)) := by
  intro symbols s
  have hready : s.Ready tallyCompiled := ⟨rfl, rfl, Nat.le_refl 1⟩
  have hsize : s.cursor.position ≤ s.cursor.symbols.size := by decide
  obtain ⟨hcontract, hparse⟩ := cursor_contract compile_tally
  refine ⟨compile_tally, hready, ?_, ?_, fun e => hparse Parser.tally "i+" e⟩
  · have hallows := hcontract {} ⟨0⟩ s .refl hready hsize
    have hends : (match tallyCompiled.evaluate {} ⟨0⟩ s with
        | .ok none _ => 0
        | .ok (some _) t => t.cursor.position
        | .error _ _ => 0) = 2 := by decide +kernel
    split at hends
    · cases hends
    · next tree t heval =>
        rw [heval] at hallows
        exact ⟨tree, t, heval, hends, hallows.1⟩
    · cases hends
  · have hallows := hcontract {} ⟨0⟩ (s.withFuel (some 2)) .refl (hready.withFuel _) hsize
    have hends : (match tallyCompiled.evaluate {} ⟨0⟩ (s.withFuel (some 2)) with
        | .ok none _ => none
        | .ok (some _) _ => none
        | .error e _ => some e) = some .fuelExhausted := by decide +kernel
    split at hends
    · cases hends
    · cases hends
    · next e t heval =>
        cases hends
        rw [heval] at hallows
        exact ⟨t, heval, hallows.1⟩

end Grammar

end Descent
