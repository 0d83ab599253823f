import Mathlib.Logic.Relation
import Descent.Grammar.Basic

/-!
# Tables in layers

Grammars are built call by call (`Grammar.Built`). As long as no misuse is recorded, the sets in
their tables name terminals before them only, and each entry holds the length that its definition
has in the table (`TerminalTable.Layered`). So whatever a set contains, by way of other sets or not,
was registered before it, and if the set is literal so is what it contains, and no shorter
(`TerminalTable.Layered.below`).
-/

namespace Descent

open Relation

namespace TerminalTable

/-- The terminal `s` is a set that names `m`. -/
def HasMember (t : TerminalTable) (s m : TerminalId) : Prop :=
  ∃ terminal, t.get? s = some terminal ∧ m ∈ terminal.matcher.members

/-- The terminal `s` is a set that contains `m`, by way of other sets or not. -/
abbrev Contains (t : TerminalTable) : TerminalId → TerminalId → Prop := TransGen t.HasMember

/-- Sets stand above their members, and every entry knows the length of its text. -/
structure Layered (t : TerminalTable) : Prop where
  member_lt : ∀ s m, t.HasMember s m → m.index < s.index
  literalLength_eq : ∀ s terminal, t.get? s = some terminal →
    t.literalLength s = t.lengthOf terminal.matcher

variable {t : TerminalTable} {terminal : Terminal} {s m : TerminalId}

/-! ## Registration -/

theorem get?_push : (t.push terminal).get? s =
    if s.index = t.size then some terminal else t.get? s := by
  unfold push get? size
  rw [Array.getElem?_push]
  split <;> rfl

theorem literalLength_push : (t.push terminal).literalLength s =
    if s.index = t.size then t.lengthOf terminal.matcher else t.literalLength s := by
  unfold push literalLength size
  rw [Array.getElem?_push]
  split <;> rfl

theorem contains_of_get? (h : t.get? s = some terminal) : t.contains s = true := by
  unfold get? at h
  obtain ⟨e, he, _⟩ := Option.map_eq_some_iff.mp h
  exact decide_eq_true (Array.getElem?_eq_some_iff.mp he).choose

theorem leastLength_push {ids : List TerminalId} (h : ∀ id ∈ ids, t.contains id = true) :
    (t.push terminal).leastLength ids = t.leastLength ids := by
  have hsame : ∀ id, t.contains id = true →
      (t.push terminal).literalLength id = t.literalLength id := by
    intro id hid
    rw [literalLength_push, if_neg (Nat.ne_of_lt (of_decide_eq_true hid))]
  induction ids with
  | nil => rfl
  | cons id ids ih =>
      obtain ⟨hid, hids⟩ := List.forall_mem_cons.mp h
      cases ids with
      | nil => exact hsame id hid
      | cons id' ids =>
          unfold leastLength
          rw [hsame id hid, ih hids]

/-- A terminal keeps its length when others are registered after it. -/
theorem lengthOf_push {matcher : Matcher} (h : ∀ id ∈ matcher.members, t.contains id = true) :
    (t.push terminal).lengthOf matcher = t.lengthOf matcher := by
  cases matcher with
  | oneOf members => exact leastLength_push h
  | char | literal | scan | pattern => rfl

theorem contains_of_unknownMember?_eq_none (h : t.unknownMember? terminal = none) :
    ∀ id ∈ terminal.matcher.members, t.contains id = true := by
  intro id hid
  have hknown := List.find?_eq_none.mp h id hid
  simpa using hknown

/-- The least length of some terminals is no more than the length of each. -/
theorem exists_literalLength_of_leastLength {ids : List TerminalId} {k : Nat}
    (h : t.leastLength ids = some k) (hm : m ∈ ids) :
    ∃ j, t.literalLength m = some j ∧ k ≤ j := by
  induction ids generalizing k with
  | nil => cases hm
  | cons id ids ih =>
      cases ids with
      | nil =>
          cases List.mem_singleton.mp hm
          exact ⟨k, h, Nat.le_refl k⟩
      | cons id' ids =>
          unfold leastLength at h
          obtain ⟨first, hfirst, h⟩ := Option.bind_eq_some_iff.mp h
          obtain ⟨others, hothers, h⟩ := Option.bind_eq_some_iff.mp h
          cases h
          rcases List.mem_cons.mp hm with rfl | hm
          · exact ⟨first, hfirst, Nat.min_le_left _ _⟩
          · obtain ⟨j, hj, hle⟩ := ih hothers hm
            exact ⟨j, hj, Nat.le_trans (Nat.min_le_right _ _) hle⟩

namespace Layered

theorem empty : Layered {} where
  member_lt s m h := by
    obtain ⟨terminal, hget, _⟩ := h
    cases hget
  literalLength_eq s terminal hget := by cases hget

/-- Registering a terminal that names registered ones only keeps the layers. -/
theorem push (h : t.Layered) (hknown : t.unknownMember? terminal = none) :
    (t.push terminal).Layered where
  member_lt s m hm := by
    obtain ⟨x, hget, hmem⟩ := hm
    rw [get?_push] at hget
    split at hget
    · next heq =>
        cases hget
        rw [heq]
        exact of_decide_eq_true (contains_of_unknownMember?_eq_none hknown m hmem)
    · exact h.member_lt s m ⟨x, hget, hmem⟩
  literalLength_eq s x hget := by
    rw [get?_push] at hget
    rw [literalLength_push]
    split at hget
    · next heq =>
        cases hget
        rw [if_pos heq, lengthOf_push (contains_of_unknownMember?_eq_none hknown)]
    · next hne =>
        have hsize : s.index < t.size := of_decide_eq_true (contains_of_get? hget)
        rw [if_neg hne, h.literalLength_eq s x hget, lengthOf_push]
        intro m hmem
        exact decide_eq_true (Nat.lt_trans (h.member_lt s m ⟨x, hget, hmem⟩) hsize)

/-- What a set names has no shorter text, if the set is literal. -/
theorem exists_literalLength (h : t.Layered) (hm : t.HasMember s m) {k : Nat}
    (hk : t.literalLength s = some k) : ∃ j, t.literalLength m = some j ∧ k ≤ j := by
  obtain ⟨terminal, hget, hmem⟩ := hm
  rw [h.literalLength_eq s terminal hget] at hk
  cases hmatcher : terminal.matcher with
  | oneOf members =>
      rw [hmatcher] at hk hmem
      exact exists_literalLength_of_leastLength hk hmem
  | char | literal | scan | pattern =>
      rw [hmatcher] at hmem
      cases hmem

/-- What a set contains stands before it, and is literal and no shorter if the set is literal. -/
theorem below (h : t.Layered) (hm : t.Contains s m) : m.index < s.index ∧
    ∀ k, t.literalLength s = some k → ∃ j, t.literalLength m = some j ∧ k ≤ j := by
  induction hm with
  | single hm => exact ⟨h.member_lt _ _ hm, fun k => h.exists_literalLength hm⟩
  | tail _ hm ih =>
      refine ⟨Nat.lt_trans (h.member_lt _ _ hm) ih.1, ?_⟩
      intro k hk
      obtain ⟨i, hi, hki⟩ := ih.2 k hk
      obtain ⟨j, hj, hij⟩ := h.exists_literalLength hm hi
      exact ⟨j, hj, Nat.le_trans hki hij⟩

end Layered

end TerminalTable

/-! ## Building calls -/

namespace Grammar

variable {α : Type}

/-- The grammar comes from the empty one by building calls. -/
inductive Built : Grammar α → Prop where
  | empty : Built {}
  | addTerminal {g} (h : Built g) (t : Terminal) : Built (g.addTerminal t).2
  | setTransform {g} (h : Built g) (id : TerminalId) (build : Token → α) :
      Built (g.setTransform id build)
  | addRule {g} (h : Built g) (name : String) : Built (g.addRule name).2
  | define {g} (h : Built g) (id : RuleId) (clauses : List (Clause α)) :
      Built (g.define id clauses)

variable {g : Grammar α}

/-- A clause changes rules only, and misuse is recorded behind what was recorded before. -/
theorem addClause_keeps (id : RuleId) (clause : Clause α) :
    (g.addClause id clause).terminals = g.terminals ∧
      g.errors <+: (g.addClause id clause).errors := by
  unfold addClause
  cases g.rule? id with
  | none => exact ⟨rfl, List.prefix_rfl⟩
  | some r =>
      dsimp only
      cases r.extend clause with
      | ok r => exact ⟨rfl, List.prefix_rfl⟩
      | error e => exact ⟨rfl, List.prefix_append _ _⟩

theorem foldl_addClause_keeps (id : RuleId) (clauses : List (Clause α)) :
    (clauses.foldl (fun g c => g.addClause id c) g).terminals = g.terminals ∧
      g.errors <+: (clauses.foldl (fun g c => g.addClause id c) g).errors := by
  induction clauses generalizing g with
  | nil => exact ⟨rfl, List.prefix_rfl⟩
  | cons clause clauses ih =>
      obtain ⟨hterminals, herrors⟩ := addClause_keeps (g := g) id clause
      obtain ⟨hterminals', herrors'⟩ := ih (g := g.addClause id clause)
      exact ⟨hterminals'.trans hterminals, herrors.trans herrors'⟩

theorem define_keeps (id : RuleId) (clauses : List (Clause α)) :
    (g.define id clauses).terminals = g.terminals ∧
      g.errors <+: (g.define id clauses).errors := by
  unfold define
  dsimp only
  split
  · exact foldl_addClause_keeps id clauses
  · obtain ⟨hterminals, herrors⟩ := foldl_addClause_keeps (g := g.record _) id clauses
    exact ⟨hterminals, (List.prefix_append _ _).trans herrors⟩

/-- As long as no misuse is recorded, the table stays in layers. -/
theorem Built.layered (h : g.Built) (herrors : g.errors = []) : g.terminals.Layered := by
  induction h with
  | empty => exact .empty
  | @addTerminal g _ t ih =>
      have hboth : g.errors ++ g.terminalErrors t = [] := herrors
      obtain ⟨hbefore, hnow⟩ := List.append_eq_nil_iff.mp hboth
      have hknown : g.terminals.unknownMember? t = none := by
        have hmember := (List.append_eq_nil_iff.mp hnow).2
        simpa using hmember
      exact (ih hbefore).push hknown
  | @setTransform g _ id build ih =>
      unfold Grammar.setTransform at herrors ⊢
      split at herrors
      · next hlt =>
          rw [if_pos hlt]
          exact ih herrors
      · exact absurd (List.append_eq_nil_iff.mp herrors).2 (List.cons_ne_nil _ _)
  | addRule _ name ih => exact ih herrors
  | define _ id clauses ih =>
      obtain ⟨hterminals, hprefix⟩ := define_keeps id clauses
      rw [hterminals]
      exact ih (List.prefix_nil.mp (herrors ▸ hprefix))

end Grammar

end Descent
