import Descent.Proofs.Compiled.Consistent

/-!
# Exact compiled grammars

`Consistent` says that the marks of a compiled grammar miss nothing. They do not promise too much
either (`exact_of_compile`): a rule is marked as nullable only if its body passes, and its first set
holds only what a step begins that the body can come to without reading. Every step has an
alternative, so each alternative passes or begins with some terminal (`Exact.passes_or_begins`); the
induction is on the rank of the rule, which falls along left edges.
-/

namespace Descent

open Relation

/-- A step without an empty choice has an alternative. -/
theorem Step.WellFormed.exists_leaf {terminals : TerminalTable} {s : Step}
    (h : s.WellFormed terminals) : ∃ l, l ∈ s.leaves := by
  induction h with
  | terminal => exact ⟨_, List.mem_singleton_self _⟩
  | rule => exact ⟨_, List.mem_singleton_self _⟩
  | @choice alternatives some _ ih =>
      obtain ⟨s, hs⟩ := List.exists_mem_of_ne_nil alternatives some
      obtain ⟨l, hl⟩ := ih s hs
      exact ⟨l, Step.mem_leavesOfAll.mpr ⟨s, hs, hl⟩⟩

namespace CompiledGrammar

/-- What the rules are marked with is what their bodies give. -/
structure Exact (c : CompiledGrammar) : Prop where
  passes : ∀ id r, c.rule? id = some r → r.nullable = true → c.BodyPasses r.body
  begins : ∀ id r, c.rule? id = some r → ∀ t ∈ r.first, ∃ s, c.BodyLeads r.body s ∧ c.StepBegins t s
  branches : ∀ id r, c.rule? id = some r → ∀ s ∈ r.body.steps, ∃ l, l ∈ s.branches

variable {c : CompiledGrammar}

theorem accepts_self (c : CompiledGrammar) (id : TerminalId) : c.accepts id id = true := by
  simp [accepts]

/-- A sequence passes, or it comes to a step that has to be read. -/
theorem skips_or_leads (c : CompiledGrammar) (steps : List CompiledStep) :
    (∀ s ∈ steps, c.Skips s) ∨ ∃ s, c.Leads steps s ∧ ¬ c.StepPasses s := by
  induction steps with
  | nil => exact Or.inl (by simp)
  | cons x steps ih =>
      by_cases hx : c.Skips x
      · rcases ih with hall | ⟨s, hlead, hs⟩
        · exact Or.inl (List.forall_mem_cons.mpr ⟨hx, hall⟩)
        · exact Or.inr ⟨s, Or.inr ⟨hx, hlead⟩, hs⟩
      · exact Or.inr ⟨x, Or.inl rfl, fun hpass => hx (Or.inr hpass)⟩

theorem bodyPasses_or_leads (c : CompiledGrammar) (b : CompiledBody) :
    c.BodyPasses b ∨ ∃ s, c.BodyLeads b s ∧ ¬ c.StepPasses s := by
  cases b with
  | sequence steps => exact c.skips_or_leads steps
  | separated item separator allowEmpty =>
      by_cases hitem : c.StepPasses item
      · exact Or.inl (Or.inr hitem)
      · exact Or.inr ⟨item, Or.inl rfl, hitem⟩
  | cyclic step => exact Or.inl trivial

namespace Exact

variable {id : RuleId} {r : CompiledRule}

/-- A rule that the grammar has can match nothing, or it can begin with some terminal. -/
theorem rule_passes_or_begins (h : c.Exact) (hc : c.Consistent) (hid : id ∈ c.order) :
    c.LeafPasses (.rule id) ∨ ∃ t, c.LeafBegins t (.rule id) := by
  generalize hrank : c.rank id = n
  induction n using Nat.strong_induction_on generalizing id with
  | h n ih =>
  obtain ⟨r, hr⟩ := hc.isSome hid
  have hfirst : ∀ s t, c.BodyLeads r.body s → c.StepBegins t s → c.LeafBegins t (.rule id) := by
    intro s t hlead hbegins
    refine ⟨r.first, ?_, hc.begins id r hr s t hlead hbegins⟩
    rw [first?, hr, Option.map_some]
  rcases c.bodyPasses_or_leads r.body with hpass | ⟨s, hlead, hmust⟩
  · refine Or.inl ?_
    show c.isNullable? id = some true
    rw [isNullable?, hr, Option.map_some, hc.passes id r hr hpass]
  · refine Or.inr ?_
    obtain ⟨l, hl⟩ := h.branches id r hr s hlead.mem_steps
    rcases l with t | q
    · exact ⟨t, hfirst s t hlead ⟨_, hl, accepts_self c t⟩⟩
    · have hedge : c.LeftEdge id q := ⟨r, s, hr, hlead, hl⟩
      rcases ih _ (hrank ▸ hc.rank_lt_of_leftEdge hedge) (hedge.mem_order hc).2 rfl with
        hpass | ⟨t, hbegins⟩
      · exact absurd ⟨_, hl, hpass⟩ hmust
      · exact ⟨t, hfirst s t hlead ⟨_, hl, hbegins⟩⟩

/-- So can every alternative of a step. -/
theorem passes_or_begins (h : c.Exact) (hc : c.Consistent) (hr : c.rule? id = some r)
    {s : CompiledStep} (hs : s ∈ r.body.steps) {l : Leaf} (hl : l ∈ s.branches) :
    c.LeafPasses l ∨ ∃ t, c.LeafBegins t l := by
  cases l with
  | terminal t => exact Or.inr ⟨t, accepts_self c t⟩
  | rule q => exact h.rule_passes_or_begins hc (hc.known id r hr s hs q hl)

theorem bodyPasses (h : c.Exact) (hr : c.rule? id = some r)
    (hpass : c.LeafPasses (.rule id)) : c.BodyPasses r.body := by
  have hpass : c.isNullable? id = some true := hpass
  rw [isNullable?, hr, Option.map_some, Option.some.injEq] at hpass
  exact h.passes id r hr hpass

theorem bodyBegins (h : c.Exact) (hr : c.rule? id = some r) {t : TerminalId}
    (hbegins : c.LeafBegins t (.rule id)) : ∃ s, c.BodyLeads r.body s ∧ c.StepBegins t s := by
  obtain ⟨first, hfirst, ht⟩ := hbegins
  rw [first?, hr, Option.map_some, Option.some.injEq] at hfirst
  exact h.begins id r hr t (hfirst ▸ ht)

end Exact

end CompiledGrammar

/-! ## Compiling is exact -/

namespace Facts

variable {α : Type} {g : Grammar α} {order : List RuleId}

section

variable (hs : Sound g order) (hclosed : ∀ id ∈ order, ∀ q, g.Refers id q → q ∈ order)

include hs hclosed

theorem bodyNullable_of_null {id : RuleId} {r : Rule α} (hid : id ∈ order)
    (hr : g.rule? id = some r) (h : (Facts.of g order).Null id) :
    (Facts.of g order).bodyNullable r.body = true := by
  cases (null_of_iff hs hclosed hid).mp h with
  | @rule _ r' N hr' hN hbody =>
      cases hr.symm.trans hr'
      refine bodyNullable_iff.mpr (hbody.mono fun q hq hNq => ?_)
      exact (null_of_iff hs hclosed (hclosed id hid q ⟨r, hr, hq⟩)).mpr (hN q hNq)

theorem bodyFirst_of_first {id : RuleId} {r : Rule α} (hid : id ∈ order)
    (hr : g.rule? id = some r) {t : TerminalId}
    (h : ((Facts.of g order).leafFirst (.rule id)).has t = true) :
    ((Facts.of g order).bodyFirst r.body).has t = true := by
  rw [has_bodyFirst]
  have hwf : r.WellFormed g := by
    obtain ⟨x, hx, hwf⟩ := hs id hid
    cases hr.symm.trans hx
    exact hwf
  cases (first_of_iff hs hclosed hid).mp h with
  | @terminal _ r' s x _ hr' hleads hleaf haccepts =>
      cases hr.symm.trans hr'
      refine ⟨s, (leads_of_iff hs hclosed hid hr).mpr hleads, _, hleaf, ?_⟩
      have hknown := (hwf.steps s hleads.mem_steps).contains hleaf
      exact ((fits_of hs).leafFirst_terminal hknown).mpr haccepts
  | @rule _ r' s q _ hr' hleads hleaf hfirst =>
      cases hr.symm.trans hr'
      refine ⟨s, (leads_of_iff hs hclosed hid hr).mpr hleads, _, hleaf, ?_⟩
      have hq : g.Refers id q :=
        ⟨r, hr, Body.mem_rules.mpr ⟨s, hleads.mem_steps, Step.mem_rules.mpr hleaf⟩⟩
      exact (first_of_iff hs hclosed (hclosed id hid q hq)).mpr hfirst

end

end Facts

namespace Grammar

variable {α : Type} {g : Grammar α} {root : RuleId} {order : List RuleId} {f : Facts}

section Build

variable (hs : Facts.Sound g order) {b : Body}
  (hb : ∀ s ∈ b.steps, ∀ l ∈ s.leaves, g.LeafKnown order l)

include hs hb

theorem bodyPasses_of_bodyNullable (h : f.bodyNullable b = true) :
    (g.build root order f).BodyPasses (f.compileBody b) := by
  cases b with
  | undefined => cases h
  | sequence slots =>
      rw [Facts.bodyNullable, List.all_eq_true] at h
      intro x hx
      obtain ⟨slot, hslot, rfl⟩ := List.mem_map.mp hx
      have hnull := h slot hslot
      rw [Facts.slotNullable, Bool.or_eq_true] at hnull
      exact hnull.imp_right (stepPasses_build hs (hb _ (List.mem_map_of_mem hslot))).mpr
  | separated item separator allowEmpty =>
      rw [Facts.bodyNullable, Bool.or_eq_true] at h
      exact Or.imp_right (stepPasses_build hs (hb item (by simp [Body.steps]))).mpr h
  | cyclic alternatives => trivial

omit hb in
theorem leads_of_leading {slots : List Slot} {slot : Slot}
    (hslots : ∀ slot ∈ slots, ∀ l ∈ slot.step.leaves, g.LeafKnown order l)
    (h : slot ∈ f.leading slots) :
    (g.build root order f).Leads (slots.map fun slot => f.compileStep slot.step slot.optional)
      (f.compileStep slot.step slot.optional) := by
  induction slots with
  | nil => cases h
  | cons first slots ih =>
      obtain ⟨hfirst, hslots⟩ := List.forall_mem_cons.mp hslots
      rw [Facts.leading] at h
      split at h
      · next hnull =>
          rcases List.mem_cons.mp h with rfl | h
          · exact Or.inl rfl
          · rw [Facts.slotNullable, Bool.or_eq_true] at hnull
            exact Or.inr ⟨hnull.imp_right (stepPasses_build hs hfirst).mpr, ih hslots h⟩
      · cases List.mem_singleton.mp h
        exact Or.inl rfl

/-- A compiled body can begin to read where the body can. -/
theorem bodyLeads_of_leadingSteps {s : Step} {l : Leaf} (h : s ∈ f.leadingSteps b)
    (hl : l ∈ s.leaves) :
    ∃ x, (g.build root order f).BodyLeads (f.compileBody b) x ∧ l ∈ x.branches := by
  cases b with
  | undefined => cases h
  | sequence slots =>
      obtain ⟨slot, hslot, rfl⟩ := List.mem_map.mp h
      exact ⟨_, leads_of_leading hs (fun slot hslot => hb _ (List.mem_map_of_mem hslot)) hslot,
        mem_branches_compileStep.mpr hl⟩
  | separated item separator allowEmpty =>
      rw [Facts.leadingSteps] at h
      split at h
      · next hnull =>
          rcases List.mem_cons.mp h with rfl | h
          · exact ⟨_, Or.inl rfl, mem_branches_compileStep.mpr hl⟩
          · cases List.mem_singleton.mp h
            refine ⟨_, Or.inr ⟨rfl, ?_⟩, mem_branches_compileStep.mpr hl⟩
            exact (stepPasses_build hs (hb item (by simp [Body.steps]))).mpr hnull
      · cases List.mem_singleton.mp h
        exact ⟨_, Or.inl rfl, mem_branches_compileStep.mpr hl⟩
  | cyclic alternatives =>
      exact ⟨_, rfl, mem_branches_compileStep.mpr (Step.mem_leavesOfAll.mpr ⟨s, h, hl⟩)⟩

end Build

/-- The steps of a compiled body are compiled from the steps of the body. -/
theorem exists_whole_of_mem {b : Body} {x : CompiledStep} (hx : x ∈ (f.compileBody b).steps) :
    ∃ s ∈ b.whole, ∃ optional, x = f.compileStep s optional := by
  cases b with
  | undefined => cases hx
  | sequence slots =>
      obtain ⟨slot, hslot, rfl⟩ := List.mem_map.mp hx
      exact ⟨slot.step, List.mem_map_of_mem hslot, slot.optional, rfl⟩
  | separated item separator allowEmpty =>
      have hx : x = f.compileStep item false ∨ x = f.compileStep separator false := by
        simpa [Facts.compileBody, CompiledBody.steps] using hx
      rcases hx with rfl | rfl
      · exact ⟨item, by simp [Body.whole], false, rfl⟩
      · exact ⟨separator, by simp [Body.whole], false, rfl⟩
  | cyclic alternatives =>
      exact ⟨_, List.mem_singleton_self _, false, List.mem_singleton.mp hx⟩

theorem wellFormed_of_mem_whole {b : Body} (hsteps : ∀ s ∈ b.steps, s.WellFormed g.terminals)
    (hsome : b ≠ .cyclic []) {s : Step} (hs : s ∈ b.whole) : s.WellFormed g.terminals := by
  cases b with
  | undefined => cases hs
  | sequence slots => exact hsteps s hs
  | separated item separator allowEmpty => exact hsteps s hs
  | cyclic alternatives =>
      cases List.mem_singleton.mp hs
      exact .choice (fun h => hsome (congrArg Body.cyclic h)) hsteps

theorem exact_of_compile {c : CompiledGrammar} (h : g.compile root = .ok c) : c.Exact := by
  obtain ⟨_, order, hreach, _, rfl⟩ := compile_eq_ok_iff.mp h
  obtain ⟨_, _, hmem, hs⟩ := reachable_spec hreach
  have hclosed := closed_of_reachable hmem
  have hfits := Facts.fits_of hs
  have hknown : ∀ id r, (g.build root order (Facts.of g order)).rule? id = some r →
      ∃ x, id ∈ order ∧ g.rule? id = some x ∧ x.WellFormed g ∧
        r = compileRule (Facts.of g order) id x ∧
        ∀ s ∈ x.body.steps, ∀ l ∈ s.leaves, g.LeafKnown order l := by
    intro id r hr
    obtain ⟨hid, x, hx, rfl⟩ := rule?_build_eq_some hr
    obtain ⟨x', hx', hwf⟩ := hs id hid
    cases hx.symm.trans hx'
    exact ⟨x, hid, hx, hwf, rfl, leafKnown_of_mem hclosed hid hx hwf⟩
  refine ⟨?_, ?_, ?_⟩
  · intro id r hr hnull
    obtain ⟨x, hid, hx, _, rfl, hleaves⟩ := hknown id r hr
    exact bodyPasses_of_bodyNullable hs hleaves (Facts.bodyNullable_of_null hs hclosed hid hx hnull)
  · intro id r hr t ht
    obtain ⟨x, hid, hx, _, rfl, hleaves⟩ := hknown id r hr
    have hfirst := Facts.bodyFirst_of_first hs hclosed hid hx (TerminalSet.mem_toList.mp ht)
    obtain ⟨s, hlead, l, hl, hhas⟩ := Facts.has_bodyFirst.mp hfirst
    have hknown := hleaves s hlead.mem_steps l hl
    obtain ⟨y, hlead, hl⟩ : ∃ y, (g.build root order (Facts.of g order)).BodyLeads
        ((Facts.of g order).compileBody x.body) y ∧ l ∈ y.branches :=
      bodyLeads_of_leadingSteps hs hleaves (Facts.mem_leadingSteps.mpr hlead) hl
    exact ⟨y, hlead, l, hl, (leafBegins_build hs hfits hknown).mpr hhas⟩
  · intro id r hr s hstep
    obtain ⟨x, _, _, hwf, rfl, _⟩ := hknown id r hr
    obtain ⟨s, hs, _, rfl⟩ := exists_whole_of_mem hstep
    obtain ⟨l, hl⟩ := (wellFormed_of_mem_whole hwf.steps hwf.alternatives hs).exists_leaf
    exact ⟨l, mem_branches_compileStep.mpr hl⟩

end Grammar

end Descent
