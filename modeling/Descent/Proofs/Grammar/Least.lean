import Descent.Proofs.Grammar.Settled

/-!
# The facts are the least ones

The facts that the rounds settle on are closed under every rule of the order (`Facts.closed_of`), so
all that follows is among them. Nothing else is: a rule is held for nullable exactly if it is in the
inductive sense (`Facts.null_of_iff`), and the same goes for its first set (`Facts.first_of_iff`). A
round reads both kinds of facts as they are at that moment, so that they are sound is shown for both
together.
-/

namespace Descent

namespace Facts

variable {α : Type} {g : Grammar α} {f : Facts} {order : List RuleId}

/-- The facts hold what is so, and perhaps not all of it. -/
structure Justified (g : Grammar α) (f : Facts) : Prop where
  null : ∀ id, f.Null id → g.Nullable id
  first : ∀ id t, (f.leafFirst (.rule id)).has t = true → g.First id t

theorem justified_initial : Justified g (initial g) := by
  refine ⟨fun id h => ?_, fun id t h => ?_⟩
  · by_cases hlt : id.index < g.ruleCount <;>
      simp [Null, leafNullable, initial, hlt] at h
  · by_cases hlt : id.index < g.ruleCount <;>
      simp [leafFirst, initial, hlt] at h

theorem Justified.add (h : Justified g f) (hf : f.Fits g) {id : RuleId} {r : Rule α}
    (hr : g.rule? id = some r) (hwf : r.WellFormed g) : Justified g (f.add id r.body) := by
  have hlt := Grammar.index_lt_of_rule? hr
  have hnull : ∀ q, (f.add id r.body).Null q → g.Nullable q := by
    intro q hq
    rcases (holds_add_zero (hf.nullable ▸ hlt)).mp (null_iff_holds.mp hq) with hq | ⟨hx, hb⟩
    · exact h.null q hq
    · cases RuleId.eq_of_index hx
      exact .rule hr h.null (bodyNullable_iff.mp hb)
  refine ⟨hnull, fun q t hq => ?_⟩
  rcases (holds_add_succ (hf.first ▸ hlt)).mp hq with hq | ⟨hx, hb⟩
  · exact h.first q t hq
  · cases RuleId.eq_of_index hx
    -- the first sets are read with the nullable rules that the round has just added
    obtain ⟨s, hs, l, hl, ht⟩ := has_bodyFirst.mp hb
    have hleads : r.body.Leads g.Nullable s := hs.mono fun p _ => hnull p
    cases l with
    | terminal x =>
        have hknown := (hwf.steps s hs.mem_steps).contains hl
        exact .terminal hr hleads hl ((hf.addNullable.leafFirst_terminal hknown).mp ht)
    | rule p => exact .rule hr hleads hl (h.first p t ht)

theorem Justified.round (hs : Sound g order) (hf : f.Fits g) (h : Justified g f) :
    Justified g (Facts.round g order f) := by
  have hboth := round_induction (P := fun f => f.Fits g ∧ Justified g f) hs
    (fun f id r hr hwf hf => ⟨hf.1.add hr hwf, hf.2.add hf.1 hr hwf⟩) ⟨hf, h⟩
  exact hboth.2

theorem justified_of (hs : Sound g order) : Justified g (Facts.of g order) := by
  have hboth : (Facts.of g order).Fits g ∧ Justified g (Facts.of g order) :=
    settle_induction (P := fun f => f.Fits g ∧ Justified g f) ⟨fits_initial, justified_initial⟩
      fun f h => ⟨h.1.round hs, h.2.round hs h.1⟩
  exact hboth.2

section Order

variable (hs : Sound g order) (hclosed : ∀ id ∈ order, ∀ q, g.Refers id q → q ∈ order)

include hs hclosed

/-- The facts settled on hold exactly the nullable rules for nullable. -/
theorem null_of_iff {id : RuleId} (hid : id ∈ order) :
    (Facts.of g order).Null id ↔ g.Nullable id := by
  refine ⟨(justified_of hs).null id, fun h => ?_⟩
  induction h with
  | @rule id r N hr hN hbody ih =>
      refine (closed_of hs).null id hid r hr (hbody.mono fun q hq hNq => ?_)
      exact ih q hNq (hclosed id hid q ⟨r, hr, hq⟩)

/-- By the facts settled on a body can begin to read in a step if it can. -/
theorem leads_of_iff {id : RuleId} {r : Rule α} {s : Step} (hid : id ∈ order)
    (hr : g.rule? id = some r) :
    r.body.Leads (Facts.of g order).Null s ↔ r.body.Leads g.Nullable s :=
  Body.leads_congr fun q hq => null_of_iff hs hclosed (hclosed id hid q ⟨r, hr, hq⟩)

/-- The facts settled on hold exactly the first sets. -/
theorem first_of_iff {id : RuleId} (hid : id ∈ order) {t : TerminalId} :
    ((Facts.of g order).leafFirst (.rule id)).has t = true ↔ g.First id t := by
  refine ⟨(justified_of hs).first id t, fun h => ?_⟩
  induction h with
  | @terminal id r s x t hr hlead hl haccepts =>
      have hlead' := (leads_of_iff hs hclosed hid hr).mpr hlead
      obtain ⟨r', hr', hwf⟩ := hs id hid
      cases hr.symm.trans hr'
      have hknown := (hwf.steps s hlead.mem_steps).contains hl
      have hx := ((fits_of hs).leafFirst_terminal hknown).mpr haccepts
      exact (closed_of hs).first id hid r hr t (has_bodyFirst.mpr ⟨s, hlead', _, hl, hx⟩)
  | @rule id r s q t hr hlead hl _ ih =>
      have hlead' := (leads_of_iff hs hclosed hid hr).mpr hlead
      have hq : g.Refers id q :=
        ⟨r, hr, Body.mem_rules.mpr ⟨s, hlead.mem_steps, Step.mem_rules.mpr hl⟩⟩
      have hx := ih (hclosed id hid q hq)
      exact (closed_of hs).first id hid r hr t (has_bodyFirst.mpr ⟨s, hlead', _, hl, hx⟩)

end Order

end Facts

end Descent
