import Descent.Grammar.Reach
import Mathlib.Logic.Relation
import Mathlib.Data.List.Nodup
import Mathlib.Data.Finset.Card

/-!
# Reachable rules

`Reachable` is reachability through references, and `Rule.WellFormed` says what a reachable rule has
to satisfy. The walk over the rules ends without an error exactly when every reachable rule is well
formed (`reachable_ok_iff`), and then it has visited each of them once (`reachable_spec`).

The walk marks a rule when it is met and not when it is visited. Its invariant therefore speaks of
both lists together: the marked rules are those that wait and those that are visited.
-/

namespace Descent

open Relation

theorem RuleId.eq_of_index {a b : RuleId} (h : a.index = b.index) : a = b := by
  cases a
  cases b
  exact congrArg RuleId.mk h

theorem RuleId.index_ne {a b : RuleId} (h : a ≠ b) : b.index ≠ a.index :=
  fun he => h (eq_of_index he.symm)

/-! ## Well-formed rules -/

/-- Every choice in the step, at any depth, has an alternative, and every terminal is registered. -/
inductive Step.WellFormed (terminals : TerminalTable) : Step → Prop where
  | terminal {id : TerminalId} (h : terminals.contains id = true) :
      WellFormed terminals (.terminal id)
  | rule {id : RuleId} : WellFormed terminals (.rule id)
  | choice {alternatives : List Step} (some : alternatives ≠ [])
      (all : ∀ s ∈ alternatives, WellFormed terminals s) :
      WellFormed terminals (.choice alternatives)

namespace Grammar

variable {α : Type}

/-- The rule is declared and its body refers to the other. -/
def Refers (g : Grammar α) (a b : RuleId) : Prop :=
  ∃ r, g.rule? a = some r ∧ b ∈ r.body.rules

/-- The rules that can be met from the root through references. -/
def Reachable (g : Grammar α) (root id : RuleId) : Prop :=
  ReflTransGen g.Refers root id

end Grammar

/-- What a reachable rule has to satisfy. -/
structure Rule.WellFormed {α : Type} (g : Grammar α) (r : Rule α) : Prop where
  defined : r.body ≠ .undefined
  /-- A repeated choice has an alternative. -/
  alternatives : r.body ≠ .cyclic []
  steps : ∀ s ∈ r.body.steps, s.WellFormed g.terminals
  known : ∀ id ∈ r.body.rules, id.index < g.ruleCount
  /-- A sequence with several choices has an action to tell them apart. -/
  action : ∀ slots, r.body = .sequence slots → 1 < slots.countP (·.step.isChoice) →
    r.action.isSome = true

mutual
theorem Step.fault?_eq_none_iff (t : TerminalTable) (name : String) :
    ∀ s : Step, s.fault? t name = none ↔ s.WellFormed t
  | .terminal id => by
      rw [Step.fault?]
      constructor
      · intro h
        split at h
        · exact .terminal ‹_›
        · cases h
      · rintro ⟨h⟩
        rw [if_pos h]
  | .rule id => by
      rw [Step.fault?]
      exact ⟨fun _ => .rule, fun _ => rfl⟩
  | .choice [] => by
      rw [Step.fault?]
      constructor
      · intro h
        cases h
      · rintro (_ | _ | ⟨hne, _⟩)
        exact absurd rfl hne
  | .choice (s :: ss) => by
      rw [Step.fault?, Option.or_eq_none_iff, Step.fault?_eq_none_iff t name s,
        Step.faultOfAll?_eq_none_iff t name ss]
      constructor
      · rintro ⟨hs, hss⟩
        exact .choice (List.cons_ne_nil s ss) (List.forall_mem_cons.mpr ⟨hs, hss⟩)
      · rintro (_ | _ | ⟨_, hall⟩)
        exact List.forall_mem_cons.mp hall

theorem Step.faultOfAll?_eq_none_iff (t : TerminalTable) (name : String) :
    ∀ ss : List Step, Step.faultOfAll? t name ss = none ↔ ∀ s ∈ ss, s.WellFormed t
  | [] => by simp [Step.faultOfAll?]
  | s :: ss => by
      rw [Step.faultOfAll?, Option.or_eq_none_iff, Step.fault?_eq_none_iff t name s,
        Step.faultOfAll?_eq_none_iff t name ss, List.forall_mem_cons]
end

namespace Rule

variable {α : Type} {g : Grammar α} {r : Rule α}

theorem shapeFault?_eq_none_iff : r.shapeFault? = none ↔
    r.body ≠ .undefined ∧ r.body ≠ .cyclic [] ∧
      ∀ slots, r.body = .sequence slots → 1 < slots.countP (·.step.isChoice) →
        r.action.isSome = true := by
  unfold shapeFault?
  cases hb : r.body with
  | undefined => simp
  | sequence slots =>
      have hsome : r.action.isSome = true ↔ ¬ r.action.isNone = true := by
        cases r.action <;> simp
      simp only [ne_eq, reduceCtorEq, not_false_eq_true, true_and, Body.sequence.injEq, forall_eq']
      rw [hsome]
      split
      · next h =>
          simp only [gt_iff_lt, Bool.and_eq_true, decide_eq_true_eq] at h
          simp only [reduceCtorEq, false_iff]
          exact fun hall => hall h.1 h.2
      · next h =>
          simp only [gt_iff_lt, Bool.and_eq_true, decide_eq_true_eq, not_and] at h
          exact ⟨fun _ => h, fun _ => rfl⟩
  | separated => simp
  | cyclic alternatives => cases alternatives <;> simp

/-- A rule without a fault is well formed, its references aside. -/
theorem wellFormed_iff : r.WellFormed g ↔
    r.fault? g.terminals = none ∧ ∀ id ∈ r.body.rules, id.index < g.ruleCount := by
  rw [fault?, Option.or_eq_none_iff, shapeFault?_eq_none_iff, Step.faultOfAll?_eq_none_iff]
  constructor
  · rintro ⟨hdef, halt, hsteps, hknown, haction⟩
    exact ⟨⟨⟨hdef, halt, haction⟩, hsteps⟩, hknown⟩
  · rintro ⟨⟨⟨hdef, halt, haction⟩, hsteps⟩, hknown⟩
    exact ⟨hdef, halt, hsteps, hknown, haction⟩

end Rule

/-! ## The walk -/

namespace Grammar

variable {α : Type} {g : Grammar α} {root : RuleId}

/-- The identities of the declared rules. -/
def ruleIds (g : Grammar α) : List RuleId := (List.range g.ruleCount).map RuleId.mk

theorem mem_ruleIds {id : RuleId} : id ∈ g.ruleIds ↔ id.index < g.ruleCount := by
  unfold ruleIds
  rw [List.mem_map]
  constructor
  · rintro ⟨i, hi, rfl⟩
    exact List.mem_range.mp hi
  · intro h
    exact ⟨id.index, List.mem_range.mpr h, rfl⟩

theorem exists_rule {id : RuleId} (h : id.index < g.ruleCount) : ∃ r, g.rule? id = some r :=
  ⟨g.rules[id.index], Array.getElem?_eq_getElem h⟩

theorem index_lt_of_rule? {id : RuleId} {r : Rule α} (h : g.rule? id = some r) :
    id.index < g.ruleCount :=
  (Array.getElem?_eq_some_iff.mp h).1

theorem length_le_ruleCount {ids : List RuleId} (hnd : ids.Nodup)
    (h : ∀ id ∈ ids, id.index < g.ruleCount) : ids.length ≤ g.ruleCount := by
  have hsub : ids ⊆ g.ruleIds := fun id hid => mem_ruleIds.mpr (h id hid)
  have hle := (hnd.subperm hsub).length_le
  rwa [ruleIds, List.length_map, List.length_range] at hle

/-- What holds of the marks and the two lists at all times. -/
structure Marked (g : Grammar α) (root : RuleId) (w : Walk) : Prop where
  size : w.seen.size = g.ruleCount
  seen : ∀ id : RuleId, w.seen[id.index]? = some true ↔ id ∈ w.waiting ++ w.visited
  nodup : (w.waiting ++ w.visited).Nodup
  reachable : ∀ id ∈ w.waiting ++ w.visited, g.Reachable root id

namespace Marked

variable {w w' : Walk} {name : String} {id : RuleId}

theorem index_lt (h : Marked g root w) (hid : id ∈ w.waiting ++ w.visited) :
    id.index < g.ruleCount := by
  have hseen := (h.seen id).mpr hid
  rw [← h.size]
  exact (Array.getElem?_eq_some_iff.mp hseen).1

theorem meet (h : Marked g root w) (hid : g.Reachable root id) (hm : w.meet name id = .ok w') :
    Marked g root w' ∧ w'.visited = w.visited ∧
      ∀ q, q ∈ w'.waiting ++ w'.visited ↔ q = id ∨ q ∈ w.waiting ++ w.visited := by
  unfold Walk.meet at hm
  split at hm
  · cases hm
  · next hs =>
      cases hm
      have hmem := (h.seen id).mp hs
      refine ⟨h, rfl, fun q => ⟨Or.inr, ?_⟩⟩
      rintro (rfl | hq)
      · exact hmem
      · exact hq
  · next hs =>
      cases hm
      have hlt : id.index < w.seen.size := (Array.getElem?_eq_some_iff.mp hs).1
      have hnew : id ∉ w.waiting ++ w.visited := by
        intro hmem
        have hseen := (h.seen id).mpr hmem
        rw [hs] at hseen
        cases hseen
      refine ⟨⟨?_, ?_, ?_, ?_⟩, rfl, fun q => by simp⟩
      · simpa using h.size
      · intro q
        by_cases hq : q = id
        · subst hq
          simp [hlt]
        · rw [Array.getElem?_setIfInBounds_ne (RuleId.index_ne hq), h.seen q]
          simp [hq]
      · exact List.nodup_cons.mpr ⟨hnew, h.nodup⟩
      · intro q hq
        rcases List.mem_cons.mp hq with rfl | hq
        · exact hid
        · exact h.reachable q hq

theorem of_meet_error (h : Marked g root w) {e : GrammarError} (hm : w.meet name id = .error e) :
    g.ruleCount ≤ id.index := by
  unfold Walk.meet at hm
  split at hm
  · next hs =>
      rw [← h.size]
      exact Array.getElem?_eq_none_iff.mp hs
  · cases hm
  · cases hm

/-- Meeting some rules marks exactly those. -/
theorem meetAll {ids : List RuleId} (h : Marked g root w) (hids : ∀ q ∈ ids, g.Reachable root q)
    (hm : ids.foldlM (Walk.meet name) w = .ok w') :
    Marked g root w' ∧ w'.visited = w.visited ∧
      ∀ q, q ∈ w'.waiting ++ w'.visited ↔ q ∈ ids ∨ q ∈ w.waiting ++ w.visited := by
  induction ids generalizing w with
  | nil =>
      cases hm
      exact ⟨h, rfl, fun q => by simp⟩
  | cons id ids ih =>
      rw [List.foldlM_cons] at hm
      cases h1 : w.meet name id with
      | error e => rw [h1] at hm; cases hm
      | ok w1 =>
          rw [h1] at hm
          obtain ⟨hid, hids⟩ := List.forall_mem_cons.mp hids
          obtain ⟨hw1, hvis1, hmem1⟩ := h.meet hid h1
          obtain ⟨hw', hvis', hmem'⟩ := ih hw1 hids hm
          refine ⟨hw', hvis'.trans hvis1, fun q => ?_⟩
          rw [hmem', hmem1, List.mem_cons]
          tauto

theorem of_meetAll_error {ids : List RuleId} {e : GrammarError} (h : Marked g root w)
    (hids : ∀ q ∈ ids, g.Reachable root q) (hm : ids.foldlM (Walk.meet name) w = .error e) :
    ∃ q ∈ ids, g.ruleCount ≤ q.index := by
  induction ids generalizing w with
  | nil => cases hm
  | cons id ids ih =>
      rw [List.foldlM_cons] at hm
      cases h1 : w.meet name id with
      | error e =>
          exact ⟨id, List.mem_cons_self, h.of_meet_error h1⟩
      | ok w1 =>
          rw [h1] at hm
          obtain ⟨hid, hids⟩ := List.forall_mem_cons.mp hids
          obtain ⟨q, hq, hle⟩ := ih (h.meet hid h1).1 hids hm
          exact ⟨q, List.mem_cons_of_mem _ hq, hle⟩

/-- A rule that is visited stays marked. -/
theorem visited {waiting : List RuleId} (h : Marked g root w) (hw : w.waiting = id :: waiting) :
    Marked g root { w with waiting, visited := id :: w.visited } ∧
      ∀ q, q ∈ waiting ++ id :: w.visited ↔ q ∈ w.waiting ++ w.visited := by
  have hperm : (waiting ++ id :: w.visited).Perm (w.waiting ++ w.visited) := by
    rw [hw]
    exact List.perm_middle
  exact ⟨⟨h.size, fun q => (h.seen q).trans hperm.mem_iff.symm, hperm.nodup_iff.mpr h.nodup,
    fun q hq => h.reachable q (hperm.mem_iff.mp hq)⟩, fun q => hperm.mem_iff⟩

end Marked

theorem walk_cons {fuel : Nat} {w : Walk} {id : RuleId} {waiting : List RuleId}
    (hw : w.waiting = id :: waiting) :
    g.walk (fuel + 1) w = (g.visit w id waiting).bind (g.walk fuel) := by
  rw [Grammar.walk, hw]
  rfl

/-- What holds of a walk between two visits: visited rules are well formed, and what they refer to
is marked. -/
structure Visiting (g : Grammar α) (root : RuleId) (w : Walk) : Prop extends Marked g root w where
  wellFormed : ∀ id ∈ w.visited, ∀ r, g.rule? id = some r → r.WellFormed g
  closed : ∀ id ∈ w.visited, ∀ q, g.Refers id q → q ∈ w.waiting ++ w.visited
  /-- The root is the first rule visited. -/
  first : w.visited = [] ∧ w.waiting = [root] ∨ w.visited.getLast? = some root

namespace Visiting

variable {w w' : Walk} {id : RuleId} {waiting : List RuleId}

theorem visit (h : Visiting g root w) (hw : w.waiting = id :: waiting)
    (hv : g.visit w id waiting = .ok w') :
    Visiting g root w' ∧ w'.visited = id :: w.visited := by
  have hid : id ∈ w.waiting ++ w.visited := by simp [hw]
  obtain ⟨r, hr⟩ := exists_rule (h.index_lt hid)
  simp only [Grammar.visit, hr] at hv
  cases hf : r.fault? g.terminals with
  | some e => rw [hf] at hv; cases hv
  | none =>
      rw [hf] at hv
      obtain ⟨hmarked, hsame⟩ := h.visited hw
      have hrefers : ∀ q ∈ r.body.rules.reverse, g.Reachable root q := fun q hq =>
        (h.reachable id hid).tail ⟨r, hr, List.mem_reverse.mp hq⟩
      obtain ⟨hw', hvis, hmem⟩ := hmarked.meetAll hrefers hv
      simp only [hsame, List.mem_reverse] at hmem
      refine ⟨⟨hw', ?_, ?_, ?_⟩, hvis⟩
      · intro q hq s hs
        rw [hvis] at hq
        rcases List.mem_cons.mp hq with rfl | hq
        · rw [hr] at hs
          cases hs
          exact Rule.wellFormed_iff.mpr ⟨hf, fun p hp => hw'.index_lt ((hmem p).mpr (Or.inl hp))⟩
        · exact h.wellFormed q hq s hs
      · intro q hq p hp
        rw [hvis] at hq
        rcases List.mem_cons.mp hq with rfl | hq
        · obtain ⟨s, hs, hps⟩ := hp
          rw [hr] at hs
          cases hs
          exact (hmem p).mpr (Or.inl hps)
        · exact (hmem p).mpr (Or.inr (h.closed q hq p hp))
      · right
        rw [hvis]
        rcases h.first with ⟨hnil, hroot⟩ | hlast
        · rw [hw] at hroot
          cases hroot
          rw [hnil, List.getLast?_singleton]
        · rw [List.getLast?_cons, hlast]
          rfl

theorem of_visit_error (h : Visiting g root w) (hw : w.waiting = id :: waiting) {e : GrammarError}
    (hv : g.visit w id waiting = .error e) : ∃ r, g.rule? id = some r ∧ ¬ r.WellFormed g := by
  have hid : id ∈ w.waiting ++ w.visited := by simp [hw]
  obtain ⟨r, hr⟩ := exists_rule (h.index_lt hid)
  refine ⟨r, hr, fun hwf => ?_⟩
  obtain ⟨hf, hknown⟩ := Rule.wellFormed_iff.mp hwf
  simp only [Grammar.visit, hr, hf] at hv
  have hrefers : ∀ q ∈ r.body.rules.reverse, g.Reachable root q := fun q hq =>
    (h.reachable id hid).tail ⟨r, hr, List.mem_reverse.mp hq⟩
  obtain ⟨q, hq, hle⟩ := (h.visited hw).1.of_meetAll_error hrefers hv
  have hlt := hknown q (List.mem_reverse.mp hq)
  omega

/-- Marked rules are distinct, so once as many are visited as there are, none can be waiting. -/
theorem waiting_eq_nil (h : Visiting g root w) (hfuel : g.ruleCount ≤ w.visited.length) :
    w.waiting = [] := by
  have hle := length_le_ruleCount h.nodup fun q hq => h.index_lt hq
  rw [List.length_append] at hle
  exact List.length_eq_zero_iff.mp (by omega)

theorem walk {fuel : Nat} (h : Visiting g root w) (hfuel : g.ruleCount ≤ w.visited.length + fuel)
    (hw : g.walk fuel w = .ok w') : Visiting g root w' ∧ w'.waiting = [] := by
  induction fuel generalizing w with
  | zero =>
      cases hw
      exact ⟨h, h.waiting_eq_nil hfuel⟩
  | succ fuel ih =>
      cases hwait : w.waiting with
      | nil =>
          rw [Grammar.walk, hwait] at hw
          cases hw
          exact ⟨h, hwait⟩
      | cons id waiting =>
          rw [walk_cons hwait] at hw
          cases hv : g.visit w id waiting with
          | error e => rw [hv] at hw; cases hw
          | ok w1 =>
              rw [hv] at hw
              obtain ⟨h1, hvis⟩ := h.visit hwait hv
              refine ih h1 ?_ hw
              rw [hvis, List.length_cons]
              omega

theorem of_walk_error {fuel : Nat} {e : GrammarError} (h : Visiting g root w)
    (hw : g.walk fuel w = .error e) :
    ∃ id r, g.Reachable root id ∧ g.rule? id = some r ∧ ¬ r.WellFormed g := by
  induction fuel generalizing w with
  | zero => cases hw
  | succ fuel ih =>
      cases hwait : w.waiting with
      | nil => rw [Grammar.walk, hwait] at hw; cases hw
      | cons id waiting =>
          rw [walk_cons hwait] at hw
          cases hv : g.visit w id waiting with
          | error e =>
              obtain ⟨r, hr, hnot⟩ := h.of_visit_error hwait hv
              exact ⟨id, r, h.reachable id (by simp [hwait]), hr, hnot⟩
          | ok w1 =>
              rw [hv] at hw
              exact ih (h.visit hwait hv).1 hw

end Visiting

/-- The walk before its first visit. -/
def walkStart (g : Grammar α) (root : RuleId) : Walk :=
  ⟨(Array.replicate g.ruleCount false).setIfInBounds root.index true, [root], []⟩

theorem reachable_eq (h : root.index < g.ruleCount) :
    g.reachable root = (g.walk g.ruleCount (g.walkStart root)).map fun w => w.visited.reverse := by
  unfold reachable
  rw [if_pos h]
  rfl

theorem visiting_start (h : root.index < g.ruleCount) : Visiting g root (g.walkStart root) := by
  unfold walkStart
  refine ⟨⟨by simp, ?_, by simp, ?_⟩, by simp, by simp, Or.inl ⟨rfl, rfl⟩⟩
  · intro id
    by_cases hid : id = root
    · subst hid
      simp [h]
    · rw [Array.getElem?_setIfInBounds_ne (RuleId.index_ne hid)]
      simp [hid, Array.getElem?_replicate]
  · intro id hid
    rw [List.append_nil, List.mem_singleton] at hid
    subst hid
    exact .refl

/-- The rules in the answer of the walk are the reachable ones, each of them once, and the root is
the first. All are well formed. -/
theorem reachable_spec {order : List RuleId} (h : g.reachable root = .ok order) :
    order.Nodup ∧ order.head? = some root ∧ (∀ id, id ∈ order ↔ g.Reachable root id) ∧
      ∀ id ∈ order, ∃ r, g.rule? id = some r ∧ r.WellFormed g := by
  by_cases hroot : root.index < g.ruleCount
  · rw [reachable_eq hroot] at h
    cases hw : g.walk g.ruleCount (g.walkStart root) with
    | error e => rw [hw] at h; cases h
    | ok w =>
        rw [hw] at h
        cases h
        obtain ⟨hv, hwait⟩ := (visiting_start hroot).walk (Nat.le_add_left _ _) hw
        have hlast : w.visited.getLast? = some root := by
          rcases hv.first with ⟨_, hwaiting⟩ | hlast
          · rw [hwait] at hwaiting
            cases hwaiting
          · exact hlast
        have hmem : ∀ id, id ∈ w.waiting ++ w.visited ↔ id ∈ w.visited := by simp [hwait]
        refine ⟨?_, ?_, ?_, ?_⟩
        · have hnd := hv.nodup
          rw [hwait, List.nil_append] at hnd
          exact List.nodup_reverse.mpr hnd
        · rw [List.head?_reverse]
          exact hlast
        · intro id
          rw [List.mem_reverse]
          constructor
          · intro hid
            exact hv.reachable id ((hmem id).mpr hid)
          · intro hid
            induction hid with
            | refl => exact List.mem_of_getLast? hlast
            | tail _ hrefers ih => exact (hmem _).mp (hv.closed _ ih _ hrefers)
        · intro id hid
          have hid := List.mem_reverse.mp hid
          obtain ⟨r, hr⟩ := exists_rule (hv.index_lt ((hmem id).mpr hid))
          exact ⟨r, hr, hv.wellFormed id hid r hr⟩
  · rw [reachable, if_neg hroot] at h
    cases h

/-- The walk ends without an error exactly when the root is declared and every reachable rule is
well formed. -/
theorem reachable_ok_iff : (∃ order, g.reachable root = .ok order) ↔
    root.index < g.ruleCount ∧
      ∀ id r, g.Reachable root id → g.rule? id = some r → r.WellFormed g := by
  constructor
  · rintro ⟨order, h⟩
    obtain ⟨_, hhead, hmem, hwf⟩ := reachable_spec h
    have hroot : root ∈ order := List.mem_of_mem_head? hhead
    refine ⟨?_, fun id r hid hr => ?_⟩
    · obtain ⟨r, hr, _⟩ := hwf root hroot
      exact index_lt_of_rule? hr
    · obtain ⟨s, hs, hwf⟩ := hwf id ((hmem id).mpr hid)
      rw [hr] at hs
      cases hs
      exact hwf
  · rintro ⟨hroot, hwf⟩
    rw [reachable_eq hroot]
    cases hw : g.walk g.ruleCount (g.walkStart root) with
    | ok w => exact ⟨w.visited.reverse, rfl⟩
    | error e =>
        obtain ⟨id, r, hid, hr, hnot⟩ := (visiting_start hroot).of_walk_error hw
        exact absurd (hwf id r hid hr) hnot

end Grammar

end Descent
