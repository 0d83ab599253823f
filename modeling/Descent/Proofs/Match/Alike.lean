import Descent.Proofs.Compiled.Growth
import Descent.Proofs.Match.Outcome

/-!
# Evaluating in two compiled grammars that are alike

A run of one compiled grammar is a run of any other with the same rules, as long as the terminals
that these refer to accept the same (`Run.alike`): neither the guard nor what else a compiled
grammar holds has a part in it. So two evaluations that differ in the guard only come to the same
outcome and leave the same record behind, under the same caps (`evaluate_alike`).
-/

namespace Descent

open Relation

/-- The fragment itself tries the terminal. -/
def Fragment.Tests : Fragment → TerminalId → Prop
  | leaf l, x => l = .terminal x
  | leaves ls, x => .terminal x ∈ ls
  | step s, x | again s, x => .terminal x ∈ s.branches
  | steps _ _ ss, x => ∃ s ∈ ss, .terminal x ∈ s.branches
  | more _ item separator, x => .terminal x ∈ item.branches ∨ .terminal x ∈ separator.branches
  | body _ b, x => ∃ s ∈ b.steps, .terminal x ∈ s.branches

/-- The state with another guard. -/
def EvalState.withGuard (s : EvalState) (guard : Array GuardEntry) : EvalState := { s with guard }

theorem EvalState.Ready.withGuard {c c' : CompiledGrammar} {s : EvalState} (h : s.Ready c) :
    (s.withGuard (Array.replicate c'.rules.size {})).Ready c' :=
  ⟨rfl, h.depth, h.committed⟩

namespace CompiledGrammar.Alike

variable {c c' : CompiledGrammar} (h : c.Alike c')

include h

/-! ## Height -/

theorem leafPasses_eq : c'.LeafPasses = c.LeafPasses := by
  funext l
  cases l with
  | terminal x => rfl
  | rule id =>
      show (((c'.rule? id).map (·.nullable)) = some true) = _
      rw [h.rule?_eq id]
      rfl

theorem skips_eq : c'.Skips = c.Skips := by
  unfold Skips StepPasses
  rw [h.leafPasses_eq]

theorem leads_iff {xs : List CompiledStep} {s : CompiledStep} : c'.Leads xs s ↔ c.Leads xs s := by
  induction xs with
  | nil => exact Iff.rfl
  | cons x xs ih =>
      unfold Leads
      rw [h.skips_eq, ih]

theorem bodyLeads_iff {b : CompiledBody} {s : CompiledStep} :
    c'.BodyLeads b s ↔ c.BodyLeads b s := by
  cases b with
  | sequence steps => exact h.leads_iff
  | separated item separator allowEmpty =>
      unfold BodyLeads StepPasses
      rw [h.leafPasses_eq]
  | cyclic step => exact Iff.rfl

theorem leftEdge_eq : c'.LeftEdge = c.LeftEdge := by
  funext a b
  unfold LeftEdge
  simp only [h.rule?_eq, h.bodyLeads_iff]

theorem height_eq (n : Nat) (id : RuleId) (p : Nat) : c'.height n id p = c.height n id p := by
  unfold height rank
  rw [h.order_eq, h.leftEdge_eq]

end CompiledGrammar.Alike

/-! ## Runs -/

section

variable {c c' : CompiledGrammar} {symbols : Array Symbol} {m p q : Nat} {x : Fragment}
  {o : Option (List MatchTree)} {log : List Note}

theorem Run.alike (h : c.Alike c') (hrun : Run c symbols m x p o q log)
    (hx : ∀ t, x.Tests t → ∀ u, c'.accepts t u = c.accepts t u) :
    Run c' symbols m x p o q log := by
  induction hrun with
  | took hget haccepts => exact .took hget ((hx _ rfl _).trans haccepts)
  | missed hmissed => exact .missed fun y hy => (hx _ rfl _).trans (hmissed y hy)
  | @rule m p id r o q log hr hlow _ ih =>
      have hbody := ih fun t ⟨s, hs, ht⟩ => h.accepts_eq id r hr s hs t ht
      rw [← h.height_eq] at hlow hbody
      exact .rule ((h.rule?_eq id).trans hr) hlow hbody
  | exhausted => exact .exhausted
  | first _ ih => exact .first (ih fun t ht => hx t (List.mem_cons.mpr (Or.inl ht.symm)))
  | next _ _ ih ihrest =>
      exact .next (ih fun t ht => hx t (List.mem_cons.mpr (Or.inl ht.symm)))
        (ihrest fun t ht => hx t (List.mem_cons_of_mem _ ht))
  | step hlow _ ih =>
      refine .step (fun id hid => ?_)
        (ih fun t ht => hx t (CompiledStep.mem_branches_of_mem_tries ht))
      rw [h.height_eq]
      exact hlow id hid
  | done => exact .done
  | matched _ _ ih ihrest =>
      exact .matched (ih fun t ht => hx t ⟨_, List.mem_cons_self, ht⟩)
        (ihrest fun t ⟨s, hs, ht⟩ => hx t ⟨s, List.mem_cons_of_mem _ hs, ht⟩)
  | absent _ hoptional _ ih ihrest =>
      exact .absent (ih fun t ht => hx t ⟨_, List.mem_cons_self, ht⟩) hoptional
        (ihrest fun t ⟨s, hs, ht⟩ => hx t ⟨s, List.mem_cons_of_mem _ hs, ht⟩)
  | failed _ hoptional ih =>
      exact .failed (ih fun t ht => hx t ⟨_, List.mem_cons_self, ht⟩) hoptional
  | unseparated _ ih => exact .unseparated (ih fun t ht => hx t (Or.inr ht))
  | givenBack _ _ ih ihstep =>
      exact .givenBack (ih fun t ht => hx t (Or.inr ht)) (ihstep fun t ht => hx t (Or.inl ht))
  | stalled _ _ ih ihstep =>
      exact .stalled (ih fun t ht => hx t (Or.inr ht)) (ihstep fun t ht => hx t (Or.inl ht))
  | item _ _ hread _ ih ihstep ihmore =>
      exact .item (ih fun t ht => hx t (Or.inr ht)) (ihstep fun t ht => hx t (Or.inl ht)) hread
        (ihmore hx)
  | ended _ ih => exact .ended (ih hx)
  | idle _ ih => exact .idle (ih hx)
  | again _ hread _ ih ihmore => exact .again (ih hx) hread (ihmore hx)
  | sequence _ ih => exact .sequence (ih hx)
  | empty _ ih => exact .empty (ih fun t ht => hx t ⟨_, List.mem_cons_self, ht⟩)
  | unmatched _ ih => exact .unmatched (ih fun t ht => hx t ⟨_, List.mem_cons_self, ht⟩)
  | separated _ _ ih ihmore =>
      refine .separated (ih fun t ht => hx t ⟨_, List.mem_cons_self, ht⟩)
        (ihmore fun t ht => hx t ?_)
      rcases ht with ht | ht
      · exact ⟨_, List.mem_cons_self, ht⟩
      · exact ⟨_, List.mem_cons_of_mem _ List.mem_cons_self, ht⟩
  | cyclic _ ih => exact .cyclic (ih fun t ht => hx t ⟨_, List.mem_cons_self, ht⟩)

/-! ## Evaluations -/

variable {s : EvalState} {id : RuleId}

/-- An evaluation with a guard of its own comes to the same as another: to the same outcome, or to
the same fault after the same events. -/
def Coincides {β : Type} (guard : Array GuardEntry) (ended' : EStateM.Result Fault EvalState β) :
    EStateM.Result Fault EvalState β → Prop
  | .ok b t => ended' = .ok b (t.withGuard guard)
  | .error e t => ∃ t', ended' = .error e t' ∧ t'.events = t.events

theorem evaluate_alike (h : c.Alike c') (hc : c.Consistent) (hc' : c'.Consistent)
    (hid : id ∈ c.order) (hs : s.Ready c) {guard : Array GuardEntry}
    (hs' : (s.withGuard guard).Ready c') (limits : Limits) :
    Coincides guard (c'.evaluate limits id (s.withGuard guard)) (c.evaluate limits id s) := by
  obtain ⟨o, q, log, hrun, hfollows⟩ := evaluate_follows limits hc hid hs
  have hrun' := hrun.alike h fun t ht => by cases ht
  have hfollows' := hrun'.follows (s := s.withGuard guard) hc' (h.order_eq ▸ hid) hs' limits
  -- both replay the record from the same ledger
  cases hreplay : s.ledger.replay limits log with
  | error e =>
      obtain ⟨r, hfault⟩ := hfollows.of_replay_error hreplay
      obtain ⟨r', hfault'⟩ := hfollows'.of_replay_error hreplay
      rw [hfault]
      exact ⟨_, hfault', rfl⟩
  | ok l =>
      rw [hfollows.of_replay_ok hreplay]
      exact hfollows'.of_replay_ok hreplay

end

end Descent
