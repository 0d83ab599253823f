import Descent.Proofs.Compiled.Accepted
import Descent.Proofs.Grammar.Solution
import Descent.Proofs.Terminal.Layered

/-!
# Left recursion is named

An error that speaks of left recursion comes from the search for a cycle and from nowhere else: the
building calls and the walk over the rules fail for other reasons. The edges that are searched are
the left edges in the inductive sense, because the facts are. So the rules that such an error lists
form a cycle of left edges among the reachable rules, and it is raised exactly for the grammars that
have one and are otherwise well formed (`left_recursion_named`).
-/

namespace Descent

open Relation

def GrammarError.isLeftRecursion : GrammarError → Bool
  | leftRecursion _ => true
  | _ => false

/-! ## Other errors -/

mutual

theorem Step.isLeftRecursion_of_fault? {t : TerminalTable} {name : String} {e : GrammarError} :
    ∀ s : Step, s.fault? t name = some e → e.isLeftRecursion = false
  | .terminal id, h => by
      rw [Step.fault?] at h
      split at h
      · cases h
      · cases h
        rfl
  | .rule id, h => by cases h
  | .choice [], h => by
      cases h
      rfl
  | .choice (s :: ss), h => by
      rw [Step.fault?, Option.or_eq_some_iff] at h
      rcases h with h | ⟨_, h⟩
      · exact Step.isLeftRecursion_of_fault? s h
      · exact Step.isLeftRecursion_of_faultOfAll? ss h

theorem Step.isLeftRecursion_of_faultOfAll? {t : TerminalTable} {name : String}
    {e : GrammarError} :
    ∀ ss : List Step, Step.faultOfAll? t name ss = some e → e.isLeftRecursion = false
  | [], h => by cases h
  | s :: ss, h => by
      rw [Step.faultOfAll?, Option.or_eq_some_iff] at h
      rcases h with h | ⟨_, h⟩
      · exact Step.isLeftRecursion_of_fault? s h
      · exact Step.isLeftRecursion_of_faultOfAll? ss h

end

section

variable {α : Type} {g : Grammar α} {root : RuleId} {e : GrammarError}

theorem Rule.isLeftRecursion_of_fault? {r : Rule α} {t : TerminalTable}
    (h : r.fault? t = some e) : e.isLeftRecursion = false := by
  rw [Rule.fault?, Option.or_eq_some_iff] at h
  rcases h with h | ⟨_, h⟩
  · unfold Rule.shapeFault? at h
    split at h
    · cases h
      rfl
    · dsimp only at h
      split at h
      · cases h
        rfl
      · cases h
    · cases h
    · split at h
      · cases h
        rfl
      · cases h
  · exact Step.isLeftRecursion_of_faultOfAll? _ h

theorem Rule.isLeftRecursion_of_extend {r : Rule α} {clause : Clause α}
    (h : r.extend clause = .error e) : e.isLeftRecursion = false := by
  have hslot : ∀ slot, Rule.extend.addSlot r slot = .error e → e.isLeftRecursion = false := by
    intro slot h
    unfold Rule.extend.addSlot at h
    split at h
    · cases h
    · cases h
    · cases h
      rfl
  cases clause with
  | step s => exact hslot _ h
  | optional s => exact hslot _ h
  | separated | cyclic | action =>
      unfold Rule.extend at h
      dsimp only at h
      split at h <;> cases h
      rfl

theorem Walk.isLeftRecursion_of_meet {w : Walk} {name : String} {id : RuleId}
    (h : w.meet name id = .error e) : e.isLeftRecursion = false := by
  unfold Walk.meet at h
  split at h <;> cases h
  rfl

theorem Walk.isLeftRecursion_of_meetAll {w : Walk} {name : String} {ids : List RuleId}
    (h : ids.foldlM (Walk.meet name) w = .error e) : e.isLeftRecursion = false := by
  induction ids generalizing w with
  | nil => cases h
  | cons id ids ih =>
      rw [List.foldlM_cons] at h
      cases hm : w.meet name id with
      | error e' =>
          rw [hm] at h
          cases h
          exact Walk.isLeftRecursion_of_meet hm
      | ok w' =>
          rw [hm] at h
          exact ih h

namespace Grammar

theorem isLeftRecursion_of_visit {w : Walk} {id : RuleId} {waiting : List RuleId}
    (h : g.visit w id waiting = .error e) : e.isLeftRecursion = false := by
  unfold visit at h
  dsimp only at h
  split at h
  · cases h
  · split at h
    · next hfault =>
        cases h
        exact Rule.isLeftRecursion_of_fault? hfault
    · exact Walk.isLeftRecursion_of_meetAll h

theorem isLeftRecursion_of_walk {fuel : Nat} {w : Walk} (h : g.walk fuel w = .error e) :
    e.isLeftRecursion = false := by
  induction fuel generalizing w with
  | zero => cases h
  | succ fuel ih =>
      cases hwait : w.waiting with
      | nil =>
          rw [walk, hwait] at h
          cases h
      | cons id waiting =>
          rw [walk_cons hwait] at h
          cases hv : g.visit w id waiting with
          | error e' =>
              rw [hv] at h
              cases h
              exact isLeftRecursion_of_visit hv
          | ok w' =>
              rw [hv] at h
              exact ih h

theorem isLeftRecursion_of_reachable (h : g.reachable root = .error e) :
    e.isLeftRecursion = false := by
  by_cases hroot : root.index < g.ruleCount
  · rw [reachable_eq hroot] at h
    cases hw : g.walk g.ruleCount (g.walkStart root) with
    | error e' =>
        rw [hw] at h
        cases h
        exact isLeftRecursion_of_walk hw
    | ok w =>
        rw [hw] at h
        cases h
  · rw [reachable, if_neg hroot] at h
    cases h
    rfl

/-- No building call records left recursion. -/
theorem Built.isLeftRecursion_of_mem (h : g.Built) : ∀ e ∈ g.errors, e.isLeftRecursion = false := by
  have hrecord : ∀ {g : Grammar α} {new : GrammarError}, new.isLeftRecursion = false →
      (∀ e ∈ g.errors, e.isLeftRecursion = false) →
      ∀ e ∈ (g.record new).errors, e.isLeftRecursion = false := by
    intro g new hnew hg e he
    rcases List.mem_append.mp he with he | he
    · exact hg e he
    · cases List.mem_singleton.mp he
      exact hnew
  have hclause : ∀ {g : Grammar α} (id : RuleId) (clause : Clause α),
      (∀ e ∈ g.errors, e.isLeftRecursion = false) →
      ∀ e ∈ (g.addClause id clause).errors, e.isLeftRecursion = false := by
    intro g id clause hg
    unfold addClause
    split
    · exact hg
    · split
      · exact hg
      · next hextend => exact hrecord (Rule.isLeftRecursion_of_extend hextend) hg
  induction h with
  | empty => simp
  | @addTerminal g _ t ih =>
      intro e he
      rcases List.mem_append.mp he with he | he
      · exact ih e he
      · rcases List.mem_append.mp he with he | he
        · split at he
          · cases List.mem_singleton.mp he
            rfl
          · cases he
        · rw [Option.mem_toList, Option.map_eq_some_iff] at he
          obtain ⟨m, _, rfl⟩ := he
          rfl
  | setTransform _ id build ih =>
      unfold Grammar.setTransform
      split
      · exact ih
      · exact hrecord rfl ih
  | addRule _ name ih => exact ih
  | define _ id clauses ih =>
      unfold Grammar.define
      dsimp only
      refine List.foldlRecOn (motive := fun g : Grammar α =>
        ∀ e ∈ g.errors, e.isLeftRecursion = false) clauses _ ?_
        fun g hg clause _ => hclause id clause hg
      split
      · exact ih
      · exact hrecord rfl ih

/-! ## The cycle -/

variable {order : List RuleId} {names : List String}

/-- What is named are the rules along a cycle of left edges. -/
theorem exists_isCycle_of_leftRecursion? (hs : Facts.Sound g order)
    (hclosed : ∀ id ∈ order, ∀ q, g.Refers id q → q ∈ order)
    (h : g.leftRecursion? order (Facts.of g order) = some names) :
    ∃ cycle, LeftRecursion.IsCycle g.LeftEdge cycle ∧ cycle ⊆ order ∧
      names.map some = cycle.map g.ruleName? := by
  obtain ⟨cycle, hcycle, rfl⟩ := Option.map_eq_some_iff.mp h
  have hedge : ∀ a ∈ order, ∀ b, b ∈ g.leftEdges (Facts.of g order) a ↔ g.LeftEdge a b :=
    fun a ha b => mem_leftEdges_of_iff hs hclosed ha
  have hstay : ∀ a ∈ order, ∀ b ∈ g.leftEdges (Facts.of g order) a, b ∈ order := fun a ha b hb =>
    hclosed a ha b ((hedge a ha b).mp hb).refers
  obtain ⟨hc, hsub⟩ := LeftRecursion.isCycle_of_cycle? hstay hcycle
  refine ⟨cycle, ⟨hc.two_le, hc.closed, hc.nodup, ?_⟩, hsub, ?_⟩
  · exact hc.edges.imp_of_mem_imp fun a b ha _ hab => (hedge a (hsub ha) b).mp hab
  · rw [List.map_map]
    apply List.map_congr_left
    intro id hid
    obtain ⟨r, hr, _⟩ := hs id (hsub hid)
    simp [ruleName?, hr]

theorem compile_leftRecursion_iff (h : g.Built) :
    g.compile root = .error (.leftRecursion names) ↔ g.errors = [] ∧
      ∃ order, g.reachable root = .ok order ∧
        g.leftRecursion? order (Facts.of g order) = some names := by
  have hrecorded := h.isLeftRecursion_of_mem
  unfold compile
  cases herrors : g.errors with
  | cons e es =>
      constructor
      · intro heq
        cases heq
        cases hrecorded _ (by rw [herrors]; exact List.mem_cons_self)
      · rintro ⟨hnil, _⟩
        cases hnil
  | nil =>
      cases hreach : g.reachable root with
      | error e =>
          constructor
          · intro heq
            cases heq
            cases isLeftRecursion_of_reachable hreach
          · rintro ⟨_, order, hok, _⟩
            cases hok
      | ok order =>
          dsimp only [bind, Except.bind]
          cases hleft : g.leftRecursion? order (Facts.of g order) with
          | none =>
              constructor
              · intro heq
                cases heq
              · rintro ⟨_, order', hok, hsome⟩
                cases hok
                cases hleft.symm.trans hsome
          | some cycle =>
              constructor
              · intro heq
                cases heq
                exact ⟨rfl, order, rfl, hleft⟩
              · rintro ⟨_, order', hok, hsome⟩
                cases hok
                cases hleft.symm.trans hsome
                rfl

/-- The search answers no path exactly if the graph has no cycle, and any path it answers is a
cycle that repeats nothing but its first node. For a grammar, left recursion is reported exactly if
nothing else is wrong with it and a reachable rule can be entered again before anything is read; and
the names reported are those of the rules along a cycle of left edges among the reachable rules. -/
theorem left_recursion_named :
    (∀ (nodes : List RuleId) (edges : RuleId → List RuleId),
      (∀ a ∈ nodes, ∀ b ∈ edges a, b ∈ nodes) →
      (LeftRecursion.cycle? nodes edges = none ↔
        ∀ a ∈ nodes, ¬ TransGen (LeftRecursion.Edge edges) a a) ∧
      ∀ cycle, LeftRecursion.cycle? nodes edges = some cycle →
        LeftRecursion.IsCycle (LeftRecursion.Edge edges) cycle ∧ cycle ⊆ nodes) ∧
    ∀ (g : Grammar α) (root : RuleId), g.Built →
      (∀ names, g.compile root = .error (.leftRecursion names) →
        ∃ cycle, LeftRecursion.IsCycle g.LeftEdge cycle ∧ (∀ id ∈ cycle, g.Reachable root id) ∧
          names.map some = cycle.map g.ruleName?) ∧
      ((∃ names, g.compile root = .error (.leftRecursion names)) ↔
        g.errors = [] ∧ (∃ order, g.reachable root = .ok order) ∧
          ∃ id, g.Reachable root id ∧ TransGen g.LeftEdge id id) := by
  constructor
  · intro nodes edges hclosed
    exact ⟨LeftRecursion.cycle?_eq_none_iff hclosed, fun _ =>
      LeftRecursion.isCycle_of_cycle? hclosed⟩
  · intro g root hbuilt
    refine ⟨?_, ?_⟩
    · intro names hnames
      obtain ⟨_, order, hreach, hleft⟩ := (compile_leftRecursion_iff hbuilt).mp hnames
      obtain ⟨_, _, hmem, hs⟩ := reachable_spec hreach
      obtain ⟨cycle, hcycle, hsub, heq⟩ :=
        exists_isCycle_of_leftRecursion? hs (closed_of_reachable hmem) hleft
      exact ⟨cycle, hcycle, fun id hid => (hmem id).mp (hsub hid), heq⟩
    · have hiff : ∀ order, g.reachable root = .ok order →
          ((∃ names, g.leftRecursion? order (Facts.of g order) = some names) ↔
            ∃ id, g.Reachable root id ∧ TransGen g.LeftEdge id id) := by
        intro order hreach
        obtain ⟨_, _, hmem, hs⟩ := reachable_spec hreach
        rw [← Option.isSome_iff_exists, ← Option.ne_none_iff_isSome, ne_eq,
          leftRecursion?_eq_none_iff hs (closed_of_reachable hmem)]
        push Not
        simp only [hmem]
      simp only [compile_leftRecursion_iff hbuilt]
      constructor
      · rintro ⟨names, herrors, order, hreach, hleft⟩
        exact ⟨herrors, ⟨order, hreach⟩, (hiff order hreach).mp ⟨names, hleft⟩⟩
      · rintro ⟨herrors, ⟨order, hreach⟩, hcycle⟩
        obtain ⟨names, hleft⟩ := (hiff order hreach).mpr hcycle
        exact ⟨names, herrors, order, hreach, hleft⟩

end Grammar

end

/-! ## A cycle behind a dead end -/

namespace LeftRecursion

/-- From the first rule to the second, where the search turns back, and to the third, which forms a
cycle with the fourth. -/
def detour (id : RuleId) : List RuleId :=
  match id.index with
  | 0 => [⟨1⟩, ⟨2⟩]
  | 2 => [⟨3⟩]
  | 3 => [⟨1⟩, ⟨2⟩]
  | _ => []

end LeftRecursion

namespace Grammar

theorem built_knot : knot.Built :=
  .define (.define (.define (.addRule (.addRule (.addRule (.addTerminal (.addTerminal (.addTerminal
    (.addTerminal .empty _) _) _) _) _) _) _) _ _) _ _) _ _

theorem left_recursion_named_knot :
    (∀ a ∈ [(⟨0⟩ : RuleId), ⟨1⟩, ⟨2⟩, ⟨3⟩], ∀ b ∈ LeftRecursion.detour a,
      b ∈ [(⟨0⟩ : RuleId), ⟨1⟩, ⟨2⟩, ⟨3⟩]) ∧
    LeftRecursion.cycle? [⟨0⟩, ⟨1⟩, ⟨2⟩, ⟨3⟩] LeftRecursion.detour = some [⟨2⟩, ⟨3⟩, ⟨2⟩] ∧
    LeftRecursion.IsCycle (LeftRecursion.Edge LeftRecursion.detour) [⟨2⟩, ⟨3⟩, ⟨2⟩] ∧
    knot.Built ∧
    knot.compile ⟨0⟩ = .error (.leftRecursion ["outer", "middle", "close", "outer"]) ∧
    (∃ cycle, LeftRecursion.IsCycle knot.LeftEdge cycle ∧
      [some "outer", some "middle", some "close", some "outer"] = cycle.map knot.ruleName?) ∧
    ∃ id, knot.Reachable ⟨0⟩ id ∧ TransGen knot.LeftEdge id id := by
  have hstay : ∀ a ∈ [(⟨0⟩ : RuleId), ⟨1⟩, ⟨2⟩, ⟨3⟩], ∀ b ∈ LeftRecursion.detour a,
      b ∈ [(⟨0⟩ : RuleId), ⟨1⟩, ⟨2⟩, ⟨3⟩] := by decide
  have hfound : LeftRecursion.cycle? [⟨0⟩, ⟨1⟩, ⟨2⟩, ⟨3⟩] LeftRecursion.detour =
      some [⟨2⟩, ⟨3⟩, ⟨2⟩] := by decide
  have hnames : knot.compile ⟨0⟩ =
      .error (.leftRecursion ["outer", "middle", "close", "outer"]) := by cbv
  obtain ⟨hgraph, hgrammar⟩ := @left_recursion_named Nat
  obtain ⟨hgenuine, hexact⟩ := hgrammar knot ⟨0⟩ built_knot
  obtain ⟨cycle, hcycle, _, heq⟩ := hgenuine _ hnames
  exact ⟨hstay, hfound, ((hgraph _ _ hstay).2 _ hfound).1, built_knot, hnames,
    ⟨cycle, hcycle, heq⟩, (hexact.mp ⟨_, hnames⟩).2.2⟩

end Grammar

end Descent
