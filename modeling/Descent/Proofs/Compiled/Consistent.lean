import Descent.Proofs.Compiled.Accepted

/-!
# Consistent compiled grammars

What a match of a step can begin with, and whether it can read nothing, is read off the compiled
grammar alone: a rule passes if it is marked as nullable, and begins with the terminals of its first
set. `Consistent` says that the marks are closed under the bodies of the rules and that no rule can
enter itself before it has read anything. Compiling gives a consistent grammar
(`consistent_of_compile`).

Every entry of a rule has a height, which falls whenever a rule enters another: with each symbol
that has been read, and where none has, along a left edge. It is what evaluation descends on.
-/

namespace Descent

open Relation

def CompiledBody.steps : CompiledBody → List CompiledStep
  | sequence steps => steps
  | separated item separator _ => [item, separator]
  | cyclic step => [step]

namespace CompiledGrammar

/-! ## Passing and beginning -/

section

variable (c : CompiledGrammar)

/-- A match of the alternative may read nothing. -/
def LeafPasses : Leaf → Prop
  | .terminal _ => False
  | .rule id => c.isNullable? id = some true

/-- A match of the alternative may begin with a symbol of the terminal. -/
def LeafBegins (t : TerminalId) : Leaf → Prop
  | .terminal id => c.accepts id t = true
  | .rule id => ∃ first, c.first? id = some first ∧ t ∈ first

def StepPasses (s : CompiledStep) : Prop := ∃ l ∈ s.branches, c.LeafPasses l

def StepBegins (t : TerminalId) (s : CompiledStep) : Prop := ∃ l ∈ s.branches, c.LeafBegins t l

/-- A sequence can go past the step without reading. -/
def Skips (s : CompiledStep) : Prop := s.optional = true ∨ c.StepPasses s

/-- The sequence can begin to read in the step. -/
def Leads : List CompiledStep → CompiledStep → Prop
  | [], _ => False
  | x :: xs, s => s = x ∨ (c.Skips x ∧ Leads xs s)

def BodyPasses : CompiledBody → Prop
  | .sequence steps => ∀ s ∈ steps, c.Skips s
  | .separated item _ allowEmpty => allowEmpty = true ∨ c.StepPasses item
  | .cyclic _ => True

def BodyLeads : CompiledBody → CompiledStep → Prop
  | .sequence steps, s => c.Leads steps s
  | .separated item separator _, s => s = item ∨ (s = separator ∧ c.StepPasses item)
  | .cyclic step, s => s = step

/-- The rule `a` can enter the rule `b` before it has read anything. -/
def LeftEdge (a b : RuleId) : Prop :=
  ∃ r s, c.rule? a = some r ∧ c.BodyLeads r.body s ∧ .rule b ∈ s.branches

/-- What the rules are marked with agrees with their bodies. -/
structure Consistent : Prop where
  nodup : c.order.Nodup
  bounded : ∀ id ∈ c.order, id.index < c.rules.size
  mem_order : ∀ id, id ∈ c.order ↔ ∃ r, c.rule? id = some r
  known : ∀ a r, c.rule? a = some r → ∀ s ∈ r.body.steps, ∀ b, .rule b ∈ s.branches → b ∈ c.order
  passes : ∀ id r, c.rule? id = some r → c.BodyPasses r.body → r.nullable = true
  begins : ∀ id r, c.rule? id = some r → ∀ s t, c.BodyLeads r.body s → c.StepBegins t s →
    t ∈ r.first
  acyclic : ∀ id, ¬ TransGen c.LeftEdge id id

end

variable {c : CompiledGrammar}

theorem Leads.mem {xs : List CompiledStep} {s : CompiledStep} (h : c.Leads xs s) : s ∈ xs := by
  induction xs with
  | nil => exact h.elim
  | cons x xs ih =>
      rcases h with rfl | ⟨_, h⟩
      · exact List.mem_cons_self
      · exact List.mem_cons_of_mem x (ih h)

theorem BodyLeads.mem_steps {b : CompiledBody} {s : CompiledStep} (h : c.BodyLeads b s) :
    s ∈ b.steps := by
  cases b with
  | sequence steps => exact Leads.mem h
  | separated item separator allowEmpty =>
      rcases h with rfl | ⟨rfl, _⟩ <;> simp [CompiledBody.steps]
  | cyclic step => exact List.mem_singleton.mpr h

theorem Consistent.isSome (h : c.Consistent) {id : RuleId} (hid : id ∈ c.order) :
    ∃ r, c.rule? id = some r :=
  (h.mem_order id).mp hid

theorem LeftEdge.mem_order (h : c.Consistent) {a b : RuleId} (hab : c.LeftEdge a b) :
    a ∈ c.order ∧ b ∈ c.order := by
  obtain ⟨r, s, hr, hs, hb⟩ := hab
  exact ⟨(h.mem_order a).mpr ⟨r, hr⟩, h.known a r hr s hs.mem_steps b hb⟩

theorem Consistent.length_order_le (h : c.Consistent) : c.order.length ≤ c.rules.size := by
  have hsub : c.order.toFinset.image RuleId.index ⊆ Finset.range c.rules.size := by
    intro i hi
    obtain ⟨id, hid, rfl⟩ := Finset.mem_image.mp hi
    exact Finset.mem_range.mpr (h.bounded id (List.mem_toFinset.mp hid))
  have hcard := Finset.card_le_card hsub
  rw [Finset.card_range, Finset.card_image_of_injective _ fun _ _ => RuleId.eq_of_index,
    List.toFinset_card_of_nodup h.nodup] at hcard
  exact hcard

/-! ## Height -/

open Classical in
/-- The number of rules that the rule can come to before it has read anything. -/
noncomputable def rank (c : CompiledGrammar) (id : RuleId) : Nat :=
  (c.order.toFinset.filter fun q => TransGen c.LeftEdge id q).card

/-- The height of entering a rule at a position among `n` symbols. -/
noncomputable def height (c : CompiledGrammar) (n : Nat) (id : RuleId) (position : Nat) : Nat :=
  c.rank id + c.order.length * (n - position)

theorem Consistent.rank_lt_of_leftEdge (h : c.Consistent) {a b : RuleId} (hab : c.LeftEdge a b) :
    c.rank b < c.rank a := by
  classical
  have hb := (hab.mem_order h).2
  unfold rank
  apply Finset.card_lt_card
  rw [Finset.ssubset_iff_of_subset]
  · -- `b` itself is below `a` but not below `b`
    refine ⟨b, ?_, ?_⟩
    · exact Finset.mem_filter.mpr ⟨List.mem_toFinset.mpr hb, .single hab⟩
    · intro hmem
      exact h.acyclic b (Finset.mem_filter.mp hmem).2
  · intro q hq
    rw [Finset.mem_filter] at hq ⊢
    exact ⟨hq.1, .head hab hq.2⟩

theorem Consistent.rank_lt_length (h : c.Consistent) {id : RuleId} (hid : id ∈ c.order) :
    c.rank id < c.order.length := by
  classical
  rw [← List.toFinset_card_of_nodup h.nodup]
  unfold rank
  apply Finset.card_lt_card
  rw [Finset.ssubset_iff_of_subset (Finset.filter_subset _ _)]
  refine ⟨id, List.mem_toFinset.mpr hid, fun hmem => ?_⟩
  exact h.acyclic id (Finset.mem_filter.mp hmem).2

section

variable {n p q : Nat} {a b : RuleId}

theorem Consistent.height_lt_of_leftEdge (h : c.Consistent) (hab : c.LeftEdge a b) :
    c.height n b p < c.height n a p :=
  Nat.add_lt_add_right (h.rank_lt_of_leftEdge hab) _

theorem Consistent.height_lt_of_later (h : c.Consistent) (hb : b ∈ c.order) (hpq : p < q)
    (hq : q ≤ n) : c.height n b q < c.height n a p := by
  have hrank := h.rank_lt_length hb
  have hmul : c.order.length * (n - q + 1) ≤ c.order.length * (n - p) :=
    Nat.mul_le_mul_left _ (by omega)
  rw [Nat.mul_succ] at hmul
  show c.rank b + c.order.length * (n - q) < c.rank a + c.order.length * (n - p)
  omega

theorem Consistent.height_lt (h : c.Consistent) (ha : a ∈ c.order) :
    c.height n a p < c.order.length * (n + 1) := by
  have hrank := h.rank_lt_length ha
  have hmul : c.order.length * (n - p) ≤ c.order.length * n := Nat.mul_le_mul_left _ (by omega)
  rw [Nat.mul_succ]
  show c.rank a + c.order.length * (n - p) < _
  omega

end

end CompiledGrammar

/-! ## Compiling is consistent -/

namespace TerminalTable

/-- A reference accepts its own terminal. -/
theorem mem_accepted_self {table : TerminalTable} {id : TerminalId} : id ∈ table.accepted id := by
  refine accepted_induction (P := fun found => id ∈ found) (List.mem_singleton_self id) ?_
  exact fun found s hfound _ => TerminalId.mem_merge.mpr (.inl hfound)

end TerminalTable

theorem Facts.numbers_congr {leaves : List Leaf} {keep keep' : Leaf → Bool}
    (h : ∀ l ∈ leaves, keep l = keep' l) :
    numbers leaves keep = numbers leaves keep' := by
  unfold numbers
  rw [List.filter_congr fun l hl => h l.1 (List.fst_mem_of_mem_zipIdx hl)]

/-- The steps of a body that become one compiled step each. -/
def Body.whole : Body → List Step
  | undefined => []
  | sequence slots => slots.map (·.step)
  | separated item separator _ => [item, separator]
  | cyclic alternatives => [.choice alternatives]

namespace Grammar

variable {α : Type} {g : Grammar α} {root : RuleId} {order : List RuleId}

/-- The alternative is a registered terminal or a rule of the order. -/
def LeafKnown (g : Grammar α) (order : List RuleId) : Leaf → Prop
  | .terminal id => g.terminals.contains id = true
  | .rule id => id ∈ order

section Build

variable {f : Facts} (hs : Facts.Sound g order) (hf : f.Fits g)

include hs in
theorem rule?_build_of_mem (root : RuleId) (f : Facts) {id : RuleId} (hid : id ∈ order) :
    ∃ r : Rule α, (g.build root order f).rule? id = some (compileRule f id r) := by
  obtain ⟨r, hr, _⟩ := hs id hid
  refine ⟨r, ?_⟩
  rw [rule?_build, if_pos hid, hr, Option.map_some]

theorem rule?_build_eq_some {id : RuleId} {r : CompiledRule}
    (h : (g.build root order f).rule? id = some r) :
    id ∈ order ∧ ∃ x, g.rule? id = some x ∧ r = compileRule f id x := by
  rw [rule?_build] at h
  split at h
  · next hid =>
      obtain ⟨x, hx, rfl⟩ := Option.map_eq_some_iff.mp h
      exact ⟨hid, x, hx, rfl⟩
  · cases h

include hs in
theorem leafPasses_build {l : Leaf} (hl : g.LeafKnown order l) :
    (g.build root order f).LeafPasses l ↔ f.leafNullable l = true := by
  cases l with
  | terminal id => simp [CompiledGrammar.LeafPasses, Facts.leafNullable]
  | rule id =>
      obtain ⟨r, hr⟩ := rule?_build_of_mem hs root f hl
      show ((g.build root order f).rule? id).map (·.nullable) = some true ↔
        f.nullable[id.index]?.getD false = true
      rw [hr, Option.map_some, Option.some.injEq]
      rfl

include hs hf in
theorem leafBegins_build {l : Leaf} (hl : g.LeafKnown order l) {t : TerminalId} :
    (g.build root order f).LeafBegins t l ↔ (f.leafFirst l).has t = true := by
  cases l with
  | terminal id =>
      have haccepts : ∀ s, f.accepts[id.index]? = some s → s.has id = true := by
        intro s hs
        have hself : (f.accepts[id.index]?.getD (.single id)).has id = true :=
          (hf.leafFirst_terminal hl).mpr TerminalTable.mem_accepted_self
        rwa [hs] at hself
      show (decide (id = t) || f.accepts[id.index]?.any (·.has t)) = true ↔
        (f.accepts[id.index]?.getD (.single id)).has t = true
      cases hget : f.accepts[id.index]? with
      | none => simp
      | some s =>
          simp only [Option.any_some, Option.getD_some, Bool.or_eq_true, decide_eq_true_eq,
            or_iff_right_iff_imp]
          rintro rfl
          exact haccepts s hget
  | rule id =>
      obtain ⟨r, hr⟩ := rule?_build_of_mem hs root f hl
      show (∃ first, ((g.build root order f).rule? id).map (·.first) = some first ∧ t ∈ first) ↔
        (f.first[id.index]?.getD ∅).has t = true
      rw [hr]
      simp [compileRule]

theorem mem_branches_compileStep {s : Step} {optional : Bool} {l : Leaf} :
    l ∈ (f.compileStep s optional).branches ↔ l ∈ s.leaves := by
  simp [Facts.compileStep]

include hs in
theorem stepPasses_build {s : Step} {optional : Bool} (h : ∀ l ∈ s.leaves, g.LeafKnown order l) :
    (g.build root order f).StepPasses (f.compileStep s optional) ↔ f.stepNullable s = true := by
  unfold CompiledGrammar.StepPasses Facts.stepNullable
  simp only [mem_branches_compileStep, List.any_eq_true]
  exact exists_congr fun l => and_congr_right fun hl => leafPasses_build hs (h l hl)

/-- The compiled steps of a body have the alternatives of its steps. -/
theorem mem_branches_compileBody {b : Body} {x : CompiledStep} {l : Leaf}
    (hx : x ∈ (f.compileBody b).steps) (hl : l ∈ x.branches) : ∃ s ∈ b.steps, l ∈ s.leaves := by
  cases b with
  | undefined => cases hx
  | sequence slots =>
      obtain ⟨slot, hslot, rfl⟩ := List.mem_map.mp hx
      exact ⟨slot.step, List.mem_map_of_mem hslot, mem_branches_compileStep.mp hl⟩
  | separated item separator allowEmpty =>
      simp only [Facts.compileBody, CompiledBody.steps, List.mem_cons, List.not_mem_nil,
        or_false] at hx
      rcases hx with rfl | rfl
      · exact ⟨item, by simp [Body.steps], mem_branches_compileStep.mp hl⟩
      · exact ⟨separator, by simp [Body.steps], mem_branches_compileStep.mp hl⟩
  | cyclic alternatives =>
      cases List.mem_singleton.mp hx
      exact Step.mem_leavesOfAll.mp (mem_branches_compileStep.mp hl)

variable {b : Body} (hb : ∀ s ∈ b.steps, ∀ l ∈ s.leaves, g.LeafKnown order l)

include hs hb in
theorem bodyPasses_build (hdefined : b ≠ .undefined)
    (h : (g.build root order f).BodyPasses (f.compileBody b)) : f.bodyNullable b = true := by
  cases b with
  | undefined => exact absurd rfl hdefined
  | sequence slots =>
      rw [Facts.bodyNullable, List.all_eq_true]
      intro slot hslot
      have hpass := h _ (List.mem_map_of_mem hslot)
      rw [Facts.slotNullable, Bool.or_eq_true]
      exact hpass.imp_right (stepPasses_build hs (hb _ (List.mem_map_of_mem hslot))).mp
  | separated item separator allowEmpty =>
      rw [Facts.bodyNullable, Bool.or_eq_true]
      exact Or.imp_right (stepPasses_build hs (hb item (by simp [Body.steps]))).mp h
  | cyclic alternatives => rfl

include hs in
theorem leads_build {slots : List Slot} {x : CompiledStep}
    (hslots : ∀ slot ∈ slots, ∀ l ∈ slot.step.leaves, g.LeafKnown order l)
    (h : (g.build root order f).Leads
      (slots.map fun slot => f.compileStep slot.step slot.optional) x) :
    ∃ slot ∈ f.leading slots, x = f.compileStep slot.step slot.optional := by
  induction slots with
  | nil => exact h.elim
  | cons slot slots ih =>
      obtain ⟨hslot, hslots⟩ := List.forall_mem_cons.mp hslots
      rw [Facts.leading]
      rcases h with rfl | ⟨hpass, h⟩
      · refine ⟨slot, ?_, rfl⟩
        split <;> exact List.mem_cons_self
      · have hnull : f.slotNullable slot = true := by
          rw [Facts.slotNullable, Bool.or_eq_true]
          exact hpass.imp_right (stepPasses_build hs hslot).mp
        obtain ⟨found, hfound, rfl⟩ := ih hslots h
        rw [if_pos hnull]
        exact ⟨found, List.mem_cons_of_mem _ hfound, rfl⟩

include hs hb in
/-- A step that a compiled body can begin to read in has the alternatives of such a step of the
body. -/
theorem bodyLeads_build {x : CompiledStep} {l : Leaf}
    (h : (g.build root order f).BodyLeads (f.compileBody b) x) (hl : l ∈ x.branches) :
    ∃ s, b.Leads f.Null s ∧ l ∈ s.leaves := by
  cases b with
  | undefined => exact h.elim
  | sequence slots =>
      obtain ⟨slot, hslot, rfl⟩ :=
        leads_build hs (fun slot hslot => hb _ (List.mem_map_of_mem hslot)) h
      refine ⟨slot.step, ?_, mem_branches_compileStep.mp hl⟩
      exact Facts.mem_leadingSteps.mp (List.mem_map_of_mem hslot)
  | separated item separator allowEmpty =>
      rcases h with rfl | ⟨rfl, hitem⟩
      · exact ⟨item, Or.inl rfl, mem_branches_compileStep.mp hl⟩
      · have hnull := (stepPasses_build hs (hb item (by simp [Body.steps]))).mp hitem
        refine ⟨separator, Or.inr ⟨rfl, ?_⟩, mem_branches_compileStep.mp hl⟩
        exact Facts.stepNullable_iff.mp hnull
  | cyclic alternatives =>
      cases h
      obtain ⟨s, hs, hl⟩ := Step.mem_leavesOfAll.mp (mem_branches_compileStep.mp hl)
      exact ⟨s, hs, hl⟩

end Build

theorem leafKnown_of_mem (hclosed : ∀ id ∈ order, ∀ q, g.Refers id q → q ∈ order) {id : RuleId}
    {r : Rule α} (hid : id ∈ order) (hr : g.rule? id = some r) (hwf : r.WellFormed g) :
    ∀ s ∈ r.body.steps, ∀ l ∈ s.leaves, g.LeafKnown order l := by
  intro s hs l hl
  cases l with
  | terminal t => exact (hwf.steps s hs).contains hl
  | rule q =>
      exact hclosed id hid q ⟨r, hr, Body.mem_rules.mpr ⟨s, hs, Step.mem_rules.mpr hl⟩⟩

theorem mem_whole_leaves {b : Body} {l : Leaf} (h : ∃ s ∈ b.whole, l ∈ s.leaves) :
    ∃ s ∈ b.steps, l ∈ s.leaves := by
  obtain ⟨s, hs, hl⟩ := h
  cases b with
  | cyclic alternatives =>
      cases List.mem_singleton.mp hs
      exact Step.mem_leavesOfAll.mp hl
  | undefined | sequence | separated => exact ⟨s, hs, hl⟩

/-- The rules that can be reached refer to what is known only. -/
theorem leafKnown_of_reachable {order : List RuleId} (hreach : g.reachable root = .ok order) :
    ∀ id ∈ order, ∀ r, g.rule? id = some r → ∀ s ∈ r.body.whole, ∀ l ∈ s.leaves,
      g.LeafKnown order l := by
  obtain ⟨_, _, hreachable, hsound⟩ := reachable_spec hreach
  intro id hid r hr s hs l hl
  obtain ⟨x, hx, hwf⟩ := hsound id hid
  cases hr.symm.trans hx
  obtain ⟨s', hs', hl⟩ := mem_whole_leaves ⟨s, hs, hl⟩
  exact leafKnown_of_mem (closed_of_reachable hreachable) hid hr hwf s' hs' l hl

variable {c : CompiledGrammar}

theorem consistent_of_compile (h : g.compile root = .ok c) : c.Consistent := by
  obtain ⟨_, order, hreach, hleft, rfl⟩ := compile_eq_ok_iff.mp h
  obtain ⟨hnodup, _, hmem, hs⟩ := reachable_spec hreach
  have hclosed := closed_of_reachable hmem
  have hacyclic := (leftRecursion?_eq_none_iff hs hclosed).mp hleft
  have hfits := Facts.fits_of hs
  have hsettled := Facts.closed_of hs
  have hknown : ∀ id r, (g.build root order (Facts.of g order)).rule? id = some r →
      ∃ x, id ∈ order ∧ g.rule? id = some x ∧ x.WellFormed g ∧
        r = compileRule (Facts.of g order) id x ∧
        ∀ s ∈ x.body.steps, ∀ l ∈ s.leaves, g.LeafKnown order l := by
    intro id r hr
    obtain ⟨hid, x, hx, rfl⟩ := rule?_build_eq_some hr
    obtain ⟨x', hx', hwf⟩ := hs id hid
    cases hx.symm.trans hx'
    exact ⟨x, hid, hx, hwf, rfl, leafKnown_of_mem hclosed hid hx hwf⟩
  have hedge : ∀ a b, (g.build root order (Facts.of g order)).LeftEdge a b →
      a ∈ order ∧ g.LeftEdge a b := by
    rintro a b ⟨r, s, hr, hlead, hb⟩
    obtain ⟨x, ha, hx, _, rfl, hleaves⟩ := hknown a r hr
    obtain ⟨s, hlead, hb⟩ := bodyLeads_build hs hleaves hlead hb
    refine ⟨ha, (mem_leftEdges_of_iff hs hclosed ha).mp ?_⟩
    exact mem_leftEdges.mpr ⟨x, s, hx, hlead, Step.mem_rules.mpr hb⟩
  refine ⟨hnodup, ?_, ?_, ?_, ?_, ?_, ?_⟩
  · intro id hid
    obtain ⟨r, hr, _⟩ := hs id hid
    simpa [build, ruleCount] using index_lt_of_rule? hr
  · intro id
    constructor
    · intro hid
      obtain ⟨r, hr⟩ := rule?_build_of_mem hs root (Facts.of g order) hid
      exact ⟨_, hr⟩
    · rintro ⟨r, hr⟩
      exact (rule?_build_eq_some hr).1
  · intro a r hr s hstep b hb
    obtain ⟨x, _, _, _, rfl, hleaves⟩ := hknown a r hr
    obtain ⟨s, hstep, hb⟩ := mem_branches_compileBody hstep hb
    exact hleaves s hstep _ hb
  · intro id r hr hpass
    obtain ⟨x, hid, hx, hwf, rfl, hleaves⟩ := hknown id r hr
    refine hsettled.null id hid x hx (Facts.bodyNullable_iff.mp ?_)
    exact bodyPasses_build hs hleaves hwf.defined hpass
  · rintro id r hr s t hlead ⟨l, hl, hbegins⟩
    obtain ⟨x, hid, hx, _, rfl, hleaves⟩ := hknown id r hr
    obtain ⟨s, hlead, hl⟩ := bodyLeads_build hs hleaves hlead hl
    have hfirst := (leafBegins_build hs hfits (hleaves s hlead.mem_steps l hl)).mp hbegins
    exact TerminalSet.mem_toList.mpr
      (hsettled.first id hid x hx t (Facts.has_bodyFirst.mpr ⟨s, hlead, l, hl, hfirst⟩))
  · intro id hcycle
    have hid : id ∈ order := by
      rcases TransGen.head'_iff.mp hcycle with ⟨b, hab, _⟩
      exact (hedge id b hab).1
    exact hacyclic id hid (TransGen.mono (fun a b hab => (hedge a b hab).2) _ _ hcycle)

end Grammar

end Descent
