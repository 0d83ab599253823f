import Descent.Proofs.Match.First
import Descent.Proofs.Match.Shift
import Descent.Proofs.Parse.Turn

/-!
# Trials do not bear on later ones

Between the trials of a parse the state is kept: guard, depth, cursor, what was furthest and the
record. Of all this a trial leaves to the next only the record and where the cursor stands
(`EvalState.Used.idle`). So a trial comes to the same as one of the rest of the symbols, with
nothing tried before (`evaluate_independent`).
-/

namespace Descent

/-- Trials of the root among the symbols have led to the state. Before each the cursor may be set
anywhere, and after each what was furthest is taken out. -/
inductive EvalState.Used (c : CompiledGrammar) (symbols : Array Symbol) : EvalState → Prop where
  | fresh : Used c symbols (.initial c {} symbols)
  | placed {s committed position} (h : Used c symbols s) (hle : committed ≤ position) :
      Used c symbols { s with cursor := { symbols, committed, position } }
  | tried {s o t} (h : Used c symbols s) (heval : c.evaluate {} c.root s = .ok o t) :
      Used c symbols { t with furthest := none }

namespace EvalState

variable {c : CompiledGrammar} {symbols : Array Symbol} {s : EvalState}

/-- All but the record and the place of the cursor is as it was when nothing had been tried. -/
structure Idle (c : CompiledGrammar) (symbols : Array Symbol) (s : EvalState) : Prop
    extends s.Ready c where
  fuel : s.fuel = none
  furthest : s.furthest = none
  symbols : s.cursor.symbols = symbols

/-- Trials leave nothing else behind. -/
theorem Used.idle (hc : c.Consistent) (hroot : c.root ∈ c.order) (h : s.Used c symbols) :
    s.Idle c symbols := by
  induction h with
  | fresh => exact ⟨ready_initial c {} symbols, rfl, rfl, rfl⟩
  | placed _ hle ih => exact ⟨⟨ih.guard, ih.depth, hle⟩, ih.fuel, ih.furthest, rfl⟩
  | @tried s o t _ heval ih =>
      obtain ⟨o', t', es, htried⟩ := exists_tried hc hroot ih.toReady ih.fuel
      obtain ⟨rfl, rfl⟩ := EStateM.Result.ok.inj (heval.symm.trans htried.free)
      have hready := htried.ready
      exact ⟨⟨hready.guard, hready.depth, hready.committed⟩, htried.fuel, rfl,
        htried.symbols.trans ih.symbols⟩

end EvalState

/-- What is read off the state that an evaluation leaves. -/
theorem Eval.run'_of_ok {β γ : Type} {s t : EvalState} {x : Eval β} {b : β} (h : x s = .ok b t)
    (f : EvalState → γ) : EStateM.run' (do let _ ← x; return f (← get)) s = some (f t) := by
  unfold EStateM.run' EStateM.run
  rw [bind_ok h]
  rfl

theorem Cursor.position_advance_le {cursor : Cursor} (h : cursor.position ≤ cursor.symbols.size) :
    cursor.advance.2.position ≤ cursor.symbols.size := by
  unfold advance
  split
  · exact h
  · next x hx =>
      have hlt := (Array.getElem?_eq_some_iff.mp hx).choose
      exact hlt

namespace Progress

variable {α : Type} {g : Grammar α} {c : CompiledGrammar} {symbols : Array Symbol} {n : Nat}
  {p q : Progress α} {b : Bool}

theorem position_settle_le {tree : Option MatchTree} {eval : EvalState}
    (h : eval.cursor.position ≤ eval.cursor.symbols.size) :
    (p.settle g c n tree eval).2.eval.cursor.position ≤ eval.cursor.symbols.size := by
  unfold settle
  split
  · split
    · exact h
    · rw [eval_skip]
      exact Cursor.position_advance_le h
  · rw [eval_skip]
    exact Cursor.position_advance_le h

/-- A turn of a parse is such a trial, and leaves the cursor among the symbols. -/
theorem used_attempt (hc : c.Consistent) (hroot : c.root ∈ c.order)
    (hp : p.eval.Used c symbols) (hle : p.eval.cursor.position ≤ symbols.size)
    (h : p.attempt g c {} n = (.ok b, q)) :
    q.eval.Used c symbols ∧ q.eval.cursor.position ≤ symbols.size := by
  have hidle := hp.idle hc hroot
  obtain ⟨o, t, es, htried⟩ := exists_tried hc hroot hidle.toReady hidle.fuel
  have hkept : t.cursor.symbols = symbols := htried.symbols.trans hidle.symbols
  have hsize : t.cursor.position ≤ t.cursor.symbols.size := by
    rw [htried.symbols]
    exact htried.le_size (hidle.symbols ▸ hle)
  rw [attempt_of_ok htried.free] at h
  have hq : q.eval = (p.settle g c n o t).2.eval := by rw [h]
  constructor
  · obtain ⟨⟨symbols', committed, position⟩, heval, hsame, hcommitted⟩ :=
      exists_eval_settle g c n p o t
    obtain rfl : symbols' = symbols := hsame.trans hkept
    have hused := hp.tried htried.free
    rw [hq, heval]
    exact hused.placed hcommitted.le
  · rw [hq, ← hkept]
    exact position_settle_le hsize

end Progress

namespace Grammar

variable {α : Type} {g : Grammar α} {root : RuleId} {c : CompiledGrammar}

/-- Without caps, a trial of the root comes to the same as one at the beginning of the symbols from
the cursor on, in a state in which nothing has been tried: it ends with an answer, and the tree, the
position behind it, the furthest failure and what was expected there are the same, further on by the
symbols before the cursor. All trials of a parse are such, each at a position among the symbols. -/
theorem evaluate_independent (hcompile : g.compile root = .ok c) (symbols : Array Symbol) :
    (∀ s : EvalState, s.Used c symbols → s.cursor.position ≤ symbols.size → ∃ o t' t,
      c.ShiftsBy root s.cursor.position
        (.initial c {} (symbols.extract s.cursor.position)) s o t' t) ∧
    ∀ (n : Nat) (p q : Progress α), p.eval = .initial c {} symbols →
      Relation.ReflTransGen (fun p q => p.attempt g c {} n = (.ok true, q)) p q →
        q.eval.Used c symbols ∧ q.eval.cursor.position ≤ symbols.size := by
  have hc := consistent_of_compile hcompile
  have hcovers := covers_of_compile hcompile
  have hroot := hcovers.root_mem_order
  constructor
  · intro s hs hle
    have hidle := hs.idle hc hroot
    rw [← hidle.symbols] at hle ⊢
    rw [← hcovers.root_eq]
    exact exists_shiftsBy hc hroot hidle.toReady hidle.fuel hidle.furthest hle
  · intro n p q hp hturns
    induction hturns with
    | refl =>
        rw [hp]
        exact ⟨.fresh, Nat.zero_le _⟩
    | tail _ hturn ih => exact Progress.used_attempt hc hroot ih.1 ih.2 hturn

/-- Behind a sum that lacks a place begins another. The trial of the first leaves its events and no
more, and the second ends as if it were by itself. -/
theorem evaluate_tally_independent :
    let symbols : Array Symbol := #[⟨⟨0⟩, 0, "i", false⟩, ⟨⟨1⟩, 1, "+", false⟩,
      ⟨⟨1⟩, 2, "+", false⟩, ⟨⟨0⟩, 3, "i", false⟩, ⟨⟨1⟩, 4, "+", false⟩]
    tally.compile ⟨0⟩ = .ok tallyCompiled ∧ ∃ s : EvalState, s.Used tallyCompiled symbols ∧
      s.cursor.position = 3 ∧ s.events.length = 7 ∧ ∃ o t' t,
        tallyCompiled.ShiftsBy ⟨0⟩ 3 (.initial tallyCompiled {} (symbols.extract 3)) s o t' t ∧
        t.cursor.position = 4 ∧ t.furthest = some ⟨5, [⟨0⟩]⟩ := by
  intro symbols
  obtain ⟨o₁, t₁, _, htried⟩ := exists_tried (consistent_of_compile compile_tally)
    List.mem_cons_self (EvalState.ready_initial tallyCompiled {} symbols) rfl
  have hbefore : t₁.events.length = 7 := by
    have hrun := Eval.run'_of_ok htried.free fun s => s.events.length
    exact Option.some.inj (hrun.symm.trans (by decide +kernel))
  let s : EvalState := { t₁ with cursor := ⟨symbols, 3, 3⟩, furthest := none }
  have hused : s.Used tallyCompiled symbols :=
    .placed (.tried .fresh htried.free) (Nat.le_refl 3)
  have hle : 3 ≤ symbols.size := by decide
  obtain ⟨o, t', t, hshift⟩ : ∃ o t' t, tallyCompiled.ShiftsBy ⟨0⟩ 3
      (.initial tallyCompiled {} (symbols.extract 3)) s o t' t :=
    (evaluate_independent compile_tally symbols).1 s hused hle
  have halone : (t'.cursor.position, t'.furthest) = (1, some ⟨2, [⟨0⟩]⟩) := by
    have hrun := Eval.run'_of_ok hshift.alone fun s => (s.cursor.position, s.furthest)
    exact Option.some.inj (hrun.symm.trans (by decide +kernel))
  obtain ⟨hposition, hfurthest⟩ := Prod.mk.inj halone
  refine ⟨compile_tally, s, hused, rfl, hbefore, o, t', t, hshift, ?_, ?_⟩
  · rw [hshift.position, hposition]
  · rw [hshift.furthest, hfurthest]
    rfl

end Grammar

end Descent
