import Mathlib
import Descent.Proofs.Grammar.Least

/-!
# What the rounds settle on

A round reads facts that it has itself just added, so the order of the rules decides how many rounds
there are. It does not decide what they end with. There are no more rounds that add something than
there are facts (`Facts.exists_settles`); the facts of the rules in the order are the least ones
(`Facts.null_of_iff`, `Facts.first_of_iff`), and no others are ever added (`Facts.not_holds_of`). So
the answer is the same for any two orders of the same rules (`Facts.of_congr`).
-/

namespace Descent

theorem TerminalSet.toList_increasing (s : TerminalSet) :
    s.toList.Pairwise (·.index < ·.index) := by
  unfold toList
  refine List.Pairwise.filter _ ?_
  rw [List.pairwise_map]
  exact List.pairwise_lt_range

namespace Facts

variable {α : Type} {g : Grammar α} {f f' : Facts} {order order' : List RuleId}

/-! ## The rounds end -/

/-- From the first facts, `n` rounds each add something, and one more adds nothing to the second. -/
inductive Settles (g : Grammar α) (order : List RuleId) : Nat → Facts → Facts → Prop where
  | done {f : Facts} (h : round g order f = f) : Settles g order 0 f f
  | again {n : Nat} {f f' : Facts} (h : round g order f ≠ f)
      (rest : Settles g order n (round g order f) f') : Settles g order (n + 1) f f'

/-- The fuel outlasts the rounds: each that is not the last adds one of so many facts. -/
theorem exists_settles (hs : Sound g order) (h : f.Fits g) {fuel : Nat}
    (hfuel : g.ruleCount * (g.terminals.size + 1) < (known g f).card + fuel) :
    ∃ n, (known g f).card + n ≤ g.ruleCount * (g.terminals.size + 1) ∧
      Settles g order n f (settle g order fuel f) := by
  induction fuel generalizing f with
  | zero => exact absurd card_known_le (Nat.not_le.mpr hfuel)
  | succ fuel ih =>
      rw [settle]
      split
      · next heq => exact ⟨0, card_known_le, .done heq⟩
      · next hne =>
          have hlt := card_known_lt hs h hne
          obtain ⟨n, hn, hrest⟩ := ih (h.round hs) (by omega)
          exact ⟨n + 1, by omega, .again hne hrest⟩

theorem exists_settles_of (hs : Sound g order) :
    ∃ n ≤ g.ruleCount * (g.terminals.size + 1),
      Settles g order n (initial g) (Facts.of g order) := by
  have hfuel : g.ruleCount * (g.terminals.size + 1) <
      (known g (initial g)).card + (g.ruleCount * (g.terminals.size + 1) + 1) := by omega
  obtain ⟨n, hn, hsettles⟩ := exists_settles hs fits_initial hfuel
  exact ⟨n, by omega, hsettles⟩

/-! ## Rules outside the order -/

theorem holds_add_of_ne {id : RuleId} {b : Body} {i : Nat} (hi : id.index ≠ i) (k : Nat) :
    (f.add id b).holds i k = f.holds i k := by
  cases k <;> simp [holds, add, Array.getElem?_modify, hi]

/-- A round adds facts about the rules of the order only. -/
theorem holds_round_of_not_mem (hs : Sound g order) {i : Nat} (hi : ∀ id ∈ order, id.index ≠ i)
    (k : Nat) : (round g order f).holds i k = f.holds i k := by
  induction order generalizing f with
  | nil => rfl
  | cons id order ih =>
      obtain ⟨⟨r, hr, _⟩, hs⟩ := List.forall_mem_cons.mp hs
      obtain ⟨hne, hi⟩ := List.forall_mem_cons.mp hi
      rw [round_cons hr, ih hs hi, holds_add_of_ne hne]

theorem not_holds_of (hs : Sound g order) {i : Nat} (hi : ∀ id ∈ order, id.index ≠ i) (k : Nat) :
    (Facts.of g order).holds i k = false := by
  refine settle_induction (P := fun f => f.holds i k = false) ?_ fun f hf => ?_
  · by_cases hlt : i < g.ruleCount <;> cases k <;> simp [holds, initial, hlt]
  · rw [holds_round_of_not_mem hs hi, hf]

/-! ## The order does not matter -/

section Order

variable (hs : Sound g order) (hclosed : ∀ id ∈ order, ∀ q, g.Refers id q → q ∈ order)

include hs hclosed

theorem of_le_of_subset (hs' : Sound g order')
    (hclosed' : ∀ id ∈ order', ∀ q, g.Refers id q → q ∈ order') (hsub : order ⊆ order') :
    (Facts.of g order).Le (Facts.of g order') := by
  intro i k hk
  obtain ⟨id, hid, rfl⟩ : ∃ id ∈ order, id.index = i := by
    by_contra hnone
    push Not at hnone
    rw [not_holds_of hs hnone] at hk
    cases hk
  cases k with
  | zero => exact (null_of_iff hs' hclosed' (hsub hid)).mpr ((null_of_iff hs hclosed hid).mp hk)
  | succ t =>
      have hfirst : g.First id ⟨t⟩ := (first_of_iff hs hclosed hid).mp hk
      exact (first_of_iff hs' hclosed' (hsub hid)).mpr hfirst

theorem of_congr (hmem : ∀ id, id ∈ order' ↔ id ∈ order) :
    Facts.of g order' = Facts.of g order := by
  have hs' : Sound g order' := fun id hid => hs id ((hmem id).mp hid)
  have hclosed' : ∀ id ∈ order', ∀ q, g.Refers id q → q ∈ order' := fun id hid q hq =>
    (hmem q).mpr (hclosed id ((hmem id).mp hid) q hq)
  exact (fits_of hs').eq_of_le (fits_of hs)
    (of_le_of_subset hs' hclosed' hs hclosed fun id => (hmem id).mp)
    (of_le_of_subset hs hclosed hs' hclosed' fun id => (hmem id).mpr)

end Order

/-- Whatever the order in which the reachable rules of a valid grammar are gone over, the rounds
end, with exactly the nullable rules and exactly the first sets in the inductive sense, and with the
same facts as in any other order. -/
theorem of_least_any_order {root : RuleId} {reached : List RuleId}
    (hreach : g.reachable root = .ok reached) (horder : order.Perm reached) :
    (∃ n ≤ g.ruleCount * (g.terminals.size + 1),
      Settles g order n (initial g) (Facts.of g order)) ∧
    (∀ id, g.Reachable root id →
      ((Facts.of g order).leafNullable (.rule id) = true ↔ g.Nullable id) ∧
      (∀ t, t ∈ ((Facts.of g order).leafFirst (.rule id)).toList ↔ g.First id t) ∧
      ((Facts.of g order).leafFirst (.rule id)).toList.Pairwise (·.index < ·.index)) ∧
    ∀ order', order'.Perm reached → Facts.of g order' = Facts.of g order := by
  obtain ⟨_, _, hmem, hs⟩ := Grammar.reachable_spec hreach
  have hmem : ∀ id, id ∈ order ↔ g.Reachable root id := fun id => horder.mem_iff.trans (hmem id)
  have hs : Sound g order := fun id hid => hs id (horder.mem_iff.mp hid)
  have hclosed : ∀ id ∈ order, ∀ q, g.Refers id q → q ∈ order := fun id hid q hq =>
    (hmem q).mpr (((hmem id).mp hid).tail hq)
  refine ⟨exists_settles_of hs, fun id hid => ?_, fun order' horder' => ?_⟩
  · have hid := (hmem id).mpr hid
    refine ⟨null_of_iff hs hclosed hid, fun t => ?_, TerminalSet.toList_increasing _⟩
    rw [TerminalSet.mem_toList, first_of_iff hs hclosed hid]
  · exact of_congr hs hclosed fun id => horder'.mem_iff.trans horder.mem_iff.symm

end Facts

namespace Grammar

/-- Rules that begin with each other. That `close` is nullable shows first, then `middle`, so that
in the order of reference the first set of `outer` fills round by round. -/
def knot : Grammar Nat :=
  let g : Grammar Nat := {}
  let (letter, g) := g.addTerminal { matcher := .char 'a' }
  let (mark, g) := g.addTerminal { matcher := .char '!' }
  let (either, g) := g.addTerminal { matcher := .oneOf [letter, mark] }
  let (comma, g) := g.addTerminal { matcher := .char ',' }
  let (outer, g) := g.addRule "outer"
  let (middle, g) := g.addRule "middle"
  let (close, g) := g.addRule "close"
  let g := g.define outer [.step (.rule middle), .step (.terminal either)]
  let g := g.define middle [.optional (.terminal comma), .step (.rule close)]
  g.define close [.cyclic [.rule outer]]

end Grammar

/-- Forwards it takes four rounds that add something, backwards two. -/
theorem Facts.of_least_any_order_knot :
    Grammar.knot.reachable ⟨0⟩ = .ok [⟨0⟩, ⟨1⟩, ⟨2⟩] ∧
    [⟨2⟩, ⟨1⟩, ⟨0⟩].Perm [(⟨0⟩ : RuleId), ⟨1⟩, ⟨2⟩] ∧
    (∃ n ≤ 15, Settles Grammar.knot [⟨2⟩, ⟨1⟩, ⟨0⟩] n (initial Grammar.knot)
      (Facts.of Grammar.knot [⟨2⟩, ⟨1⟩, ⟨0⟩])) ∧
    Grammar.knot.Nullable ⟨1⟩ ∧ ¬ Grammar.knot.Nullable ⟨0⟩ ∧
    (∀ t, t ∈ [(⟨0⟩ : TerminalId), ⟨1⟩, ⟨2⟩, ⟨3⟩] ↔ Grammar.knot.First ⟨2⟩ t) ∧
    Facts.of Grammar.knot [⟨0⟩, ⟨1⟩, ⟨2⟩] = Facts.of Grammar.knot [⟨2⟩, ⟨1⟩, ⟨0⟩] := by
  have hreach : Grammar.knot.reachable ⟨0⟩ = .ok [⟨0⟩, ⟨1⟩, ⟨2⟩] := by cbv
  have hperm : [⟨2⟩, ⟨1⟩, ⟨0⟩].Perm [(⟨0⟩ : RuleId), ⟨1⟩, ⟨2⟩] := by decide
  have hmem : ∀ id ∈ [(⟨0⟩ : RuleId), ⟨1⟩, ⟨2⟩], Grammar.knot.Reachable ⟨0⟩ id := fun id =>
    ((Grammar.reachable_spec hreach).2.2.1 id).mp
  have hfacts : Facts.of Grammar.knot [⟨2⟩, ⟨1⟩, ⟨0⟩] =
      ⟨#[false, true, true], #[⟨15⟩, ⟨15⟩, ⟨15⟩], #[⟨1⟩, ⟨2⟩, ⟨7⟩, ⟨8⟩]⟩ := by cbv
  obtain ⟨hends, hleast, hsame⟩ := of_least_any_order hreach hperm
  refine ⟨hreach, hperm, hends, ?_, ?_, ?_, hsame _ (.refl _)⟩
  · rw [← (hleast ⟨1⟩ (hmem _ (by decide))).1, hfacts]
    rfl
  · rw [← (hleast ⟨0⟩ (hmem _ (by decide))).1, hfacts]
    exact Bool.false_ne_true
  · intro t
    rw [← (hleast ⟨2⟩ (hmem _ (by decide))).2.1, hfacts]
    exact Iff.rfl

end Descent
