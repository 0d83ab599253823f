import Descent.Grammar.First
import Descent.Proofs.Grammar.Reachable
import Mathlib.Data.Finset.Prod
import Mathlib.Data.Finset.Range

/-!
# Nullable rules, leading steps and first sets

`Grammar.Nullable` is nullability in the inductive sense, `Body.Leads` says which steps a body can
begin to read in, and `Grammar.First` is the first set of a rule in the inductive sense. All are
stated without the fixpoint, and then what the facts say of steps and bodies is put in these words.
-/

namespace Descent

/-! ## The inductive sense -/

/-- The step can be passed without reading, given the rules that can. -/
def Step.NullableIn (N : RuleId → Prop) (s : Step) : Prop := ∃ id ∈ s.rules, N id

/-- The slot can be passed without reading, given the rules that can. -/
def Slot.NullableIn (N : RuleId → Prop) (slot : Slot) : Prop :=
  slot.optional = true ∨ slot.step.NullableIn N

namespace Body

def NullableIn (N : RuleId → Prop) : Body → Prop
  | undefined => False
  | sequence slots => ∀ slot ∈ slots, slot.NullableIn N
  | separated item _ allowEmpty => allowEmpty = true ∨ item.NullableIn N
  | cyclic _ => True

/-- The body can begin to read in the step: nothing before it has to be read. -/
def Leads (N : RuleId → Prop) : Body → Step → Prop
  | undefined, _ => False
  | sequence slots, s =>
      ∃ before slot after, slots = before ++ slot :: after ∧ slot.step = s ∧
        ∀ x ∈ before, x.NullableIn N
  | separated item separator _, s => s = item ∨ (s = separator ∧ item.NullableIn N)
  | cyclic alternatives, s => s ∈ alternatives

end Body

namespace Grammar

variable {α : Type}

/-- The least set of rules that holds each rule whose body is nullable by the others. -/
inductive Nullable (g : Grammar α) : RuleId → Prop where
  | rule {id : RuleId} {r : Rule α} {N : RuleId → Prop} (hr : g.rule? id = some r)
      (hN : ∀ q, N q → Nullable g q) (body : r.body.NullableIn N) : Nullable g id

/-- The rule `a` can enter the rule `b` before it has read anything. -/
def LeftEdge (g : Grammar α) (a b : RuleId) : Prop :=
  ∃ r s, g.rule? a = some r ∧ r.body.Leads g.Nullable s ∧ b ∈ s.rules

/-- The least relation by which a rule can begin with whatever an alternative accepts that its body
can begin to read in. -/
inductive First (g : Grammar α) : RuleId → TerminalId → Prop where
  | terminal {id r s x t} (hr : g.rule? id = some r) (leads : r.body.Leads g.Nullable s)
      (leaf : .terminal x ∈ s.leaves) (accepts : t ∈ g.terminals.accepted x) : First g id t
  | rule {id r s q t} (hr : g.rule? id = some r) (leads : r.body.Leads g.Nullable s)
      (leaf : .rule q ∈ s.leaves) (first : First g q t) : First g id t

end Grammar

/-- The rules a step refers to are its alternatives that are rules. -/
theorem Step.mem_rules {s : Step} {id : RuleId} : id ∈ s.rules ↔ .rule id ∈ s.leaves := by
  unfold rules
  rw [List.mem_filterMap]
  constructor
  · rintro ⟨l, hl, heq⟩
    cases l with
    | terminal t => cases heq
    | rule q =>
        cases heq
        exact hl
  · intro h
    exact ⟨_, h, rfl⟩

theorem Step.NullableIn.mono {N M : RuleId → Prop} {s : Step} (h : s.NullableIn N)
    (hsub : ∀ id ∈ s.rules, N id → M id) : s.NullableIn M := by
  obtain ⟨id, hid, hN⟩ := h
  exact ⟨id, hid, hsub id hid hN⟩

namespace Body

variable {N M : RuleId → Prop}

theorem mem_rules {b : Body} {id : RuleId} : id ∈ b.rules ↔ ∃ s ∈ b.steps, id ∈ s.rules := by
  unfold rules
  exact List.mem_flatMap

theorem Leads.mem_steps {b : Body} {s : Step} (h : b.Leads N s) : s ∈ b.steps := by
  cases b with
  | undefined => exact h.elim
  | sequence slots =>
      obtain ⟨before, slot, after, rfl, rfl, _⟩ := h
      simp [steps]
  | separated item separator allowEmpty =>
      rcases h with rfl | ⟨rfl, _⟩ <;> simp [steps]
  | cyclic alternatives => exact h

theorem NullableIn.mono {b : Body} (h : b.NullableIn N) (hsub : ∀ id ∈ b.rules, N id → M id) :
    b.NullableIn M := by
  cases b with
  | undefined => exact h
  | sequence slots =>
      intro slot hslot
      refine (h slot hslot).imp_right fun hstep => hstep.mono fun id hid => ?_
      exact hsub id (mem_rules.mpr ⟨slot.step, List.mem_map_of_mem hslot, hid⟩)
  | separated item separator allowEmpty =>
      refine Or.imp_right (fun hstep => Step.NullableIn.mono hstep fun id hid => ?_) h
      exact hsub id (mem_rules.mpr ⟨item, by simp [steps], hid⟩)
  | cyclic alternatives => exact h

theorem Leads.mono {b : Body} {s : Step} (h : b.Leads N s) (hsub : ∀ id ∈ b.rules, N id → M id) :
    b.Leads M s := by
  cases b with
  | undefined => exact h
  | sequence slots =>
      obtain ⟨before, slot, after, rfl, hs, hall⟩ := h
      refine ⟨before, slot, after, rfl, hs, fun x hx => ?_⟩
      refine (hall x hx).imp_right fun hstep => hstep.mono fun id hid => hsub id ?_
      exact mem_rules.mpr ⟨x.step, List.mem_map_of_mem (List.mem_append_left _ hx), hid⟩
  | separated item separator allowEmpty =>
      refine Or.imp_right (And.imp_right fun hitem => hitem.mono fun id hid => ?_) h
      exact hsub id (mem_rules.mpr ⟨item, by simp [steps], hid⟩)
  | cyclic alternatives => exact h

/-- Only the rules that the body refers to count. -/
theorem leads_congr {b : Body} {s : Step} (h : ∀ id ∈ b.rules, (N id ↔ M id)) :
    b.Leads N s ↔ b.Leads M s :=
  ⟨fun hl => hl.mono fun id hid => (h id hid).mp, fun hl => hl.mono fun id hid => (h id hid).mpr⟩

end Body

/-! ## What the facts say of steps and bodies -/

namespace Facts

/-- The facts hold the rule for nullable. -/
def Null (f : Facts) (id : RuleId) : Prop := f.leafNullable (.rule id) = true

theorem stepNullable_iff {f : Facts} {s : Step} :
    f.stepNullable s = true ↔ s.NullableIn f.Null := by
  unfold stepNullable Step.NullableIn
  rw [List.any_eq_true]
  constructor
  · rintro ⟨l, hl, h⟩
    cases l with
    | terminal id => simp [leafNullable] at h
    | rule id => exact ⟨id, Step.mem_rules.mpr hl, h⟩
  · rintro ⟨id, hid, h⟩
    exact ⟨_, Step.mem_rules.mp hid, h⟩

theorem slotNullable_iff {f : Facts} {slot : Slot} :
    f.slotNullable slot = true ↔ slot.NullableIn f.Null := by
  unfold slotNullable Slot.NullableIn
  rw [Bool.or_eq_true, stepNullable_iff]

theorem bodyNullable_iff {f : Facts} {b : Body} :
    f.bodyNullable b = true ↔ b.NullableIn f.Null := by
  cases b with
  | undefined => simp [bodyNullable, Body.NullableIn]
  | sequence slots =>
      simp only [bodyNullable, Body.NullableIn, List.all_eq_true, slotNullable_iff]
  | separated item separator allowEmpty =>
      simp only [bodyNullable, Body.NullableIn, Bool.or_eq_true, stepNullable_iff]
  | cyclic alternatives => simp [bodyNullable, Body.NullableIn]

theorem mem_leading {f : Facts} {slots : List Slot} {slot : Slot} :
    slot ∈ f.leading slots ↔
      ∃ before after, slots = before ++ slot :: after ∧ ∀ x ∈ before, x.NullableIn f.Null := by
  induction slots with
  | nil => simp [leading]
  | cons x slots ih =>
      rw [leading]
      constructor
      · intro h
        split at h
        · next hx =>
            rcases List.mem_cons.mp h with rfl | h
            · exact ⟨[], slots, rfl, by simp⟩
            · obtain ⟨before, after, rfl, hall⟩ := ih.mp h
              exact ⟨x :: before, after, rfl,
                List.forall_mem_cons.mpr ⟨slotNullable_iff.mp hx, hall⟩⟩
        · rw [List.mem_singleton] at h
          subst h
          exact ⟨[], slots, rfl, by simp⟩
      · rintro ⟨before, after, heq, hall⟩
        cases before with
        | nil =>
            cases heq
            split <;> simp
        | cons y before =>
            cases heq
            obtain ⟨hx, hall⟩ := List.forall_mem_cons.mp hall
            rw [if_pos (slotNullable_iff.mpr hx)]
            exact List.mem_cons_of_mem _ (ih.mpr ⟨before, after, rfl, hall⟩)

theorem mem_leadingSteps {f : Facts} {b : Body} {s : Step} :
    s ∈ f.leadingSteps b ↔ b.Leads f.Null s := by
  cases b with
  | undefined => simp [leadingSteps, Body.Leads]
  | sequence slots =>
      simp only [leadingSteps, Body.Leads, List.mem_map, mem_leading]
      constructor
      · rintro ⟨slot, ⟨before, after, heq, hall⟩, hs⟩
        exact ⟨before, slot, after, heq, hs, hall⟩
      · rintro ⟨before, slot, after, heq, hs, hall⟩
        exact ⟨slot, ⟨before, after, heq, hall⟩, hs⟩
  | separated item separator allowEmpty =>
      rw [leadingSteps, Body.Leads, ← stepNullable_iff]
      split
      · next h => simp [h]
      · next h => simp [h]
  | cyclic alternatives => exact Iff.rfl

end Facts

end Descent
