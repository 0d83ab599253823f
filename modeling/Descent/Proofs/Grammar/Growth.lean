import Descent.Proofs.Grammar.Settled
import Descent.Proofs.Terminal.Layered
import Mathlib.Data.List.Basic

/-!
# Grammars that grow

A grammar grows by building calls that say nothing more of what it has: they register terminals that
are not ignored, declare rules, define these, and attach transforms to those terminals
(`Grammar.GrowsTo`). All that a table says of a terminal is read off entries at or before it, so
what was registered before accepts, matches and is called the same as before
(`TerminalTable.GrowsTo`), and rules and transforms stay as they are (`Grammar.Keeps`).
-/

namespace Descent

open Descent.Text

theorem findSome?_congr {β γ : Type} {f f' : β → Option γ} {xs : List β}
    (h : ∀ x ∈ xs, f' x = f x) : xs.findSome? f' = xs.findSome? f := by
  induction xs with
  | nil => rfl
  | cons x xs ih =>
      obtain ⟨hx, hxs⟩ := List.forall_mem_cons.mp h
      rw [List.findSome?_cons, List.findSome?_cons, hx, ih hxs]

namespace TerminalTable

/-- The second table holds the terminals of the first, and others that are not ignored. -/
structure GrowsTo (t t' : TerminalTable) : Prop where
  size_le : t.size ≤ t'.size
  get?_eq : ∀ id, t.contains id = true → t'.get? id = t.get? id
  literalLength_eq : ∀ id, t.contains id = true → t'.literalLength id = t.literalLength id
  kept : ∀ id, t.contains id = false → t'.isIgnored id = false

/-- What comes before a terminal of the table is in it. -/
theorem contains_of_le {t : TerminalTable} {id m : TerminalId} (hid : t.contains id = true)
    (hle : m.index ≤ id.index) : t.contains m = true :=
  decide_eq_true (Nat.lt_of_le_of_lt hle (of_decide_eq_true hid))

namespace GrowsTo

variable {t t' : TerminalTable} {id : TerminalId}

theorem refl (t : TerminalTable) : t.GrowsTo t := by
  refine ⟨Nat.le_refl _, fun _ _ => rfl, fun _ _ => rfl, fun id hid => ?_⟩
  have hnone : t.get? id = none := by
    cases hget : t.get? id with
    | none => rfl
    | some terminal =>
        rw [contains_of_get? hget] at hid
        cases hid
  rw [isIgnored, hnone]
  rfl

theorem push (h : t.GrowsTo t') {terminal : Terminal} (hkept : terminal.ignored = false) :
    t.GrowsTo (t'.push terminal) := by
  have hne : ∀ id, t.contains id = true → id.index ≠ t'.size := fun id hid =>
    Nat.ne_of_lt (Nat.lt_of_lt_of_le (of_decide_eq_true hid) h.size_le)
  refine ⟨?_, fun id hid => ?_, fun id hid => ?_, fun id hid => ?_⟩
  · show t.entries.size ≤ (t'.entries.push _).size
    rw [Array.size_push]
    exact Nat.le_succ_of_le h.size_le
  · rw [get?_push, if_neg (hne id hid), h.get?_eq id hid]
  · rw [literalLength_push, if_neg (hne id hid), h.literalLength_eq id hid]
  · rw [isIgnored, get?_push]
    split
    · exact hkept
    · exact h.kept id hid

section

variable (h : t.GrowsTo t')

include h

theorem contains (hid : t.contains id = true) : t'.contains id = true :=
  decide_eq_true (Nat.lt_of_lt_of_le (of_decide_eq_true hid) h.size_le)

theorem isIgnored_eq (hid : t.contains id = true) : t'.isIgnored id = t.isIgnored id := by
  unfold isIgnored
  rw [h.get?_eq id hid]

theorem isLiteral_eq (hid : t.contains id = true) : t'.isLiteral id = t.isLiteral id := by
  unfold isLiteral
  rw [h.literalLength_eq id hid]

/-- Terminals that are picked only if they are old are the same of either table. -/
theorem filter_ids {p p' : TerminalId → Bool} (hold : ∀ id, t.contains id = true → p' id = p id)
    (hnew : ∀ id, t.contains id = false → p' id = false) :
    t'.ids.filter p' = t.ids.filter p := by
  obtain ⟨k, hk⟩ := Nat.exists_eq_add_of_le h.size_le
  have hids : t'.ids = t.ids ++ ((List.range k).map (t.size + ·)).map TerminalId.mk := by
    unfold ids
    rw [hk, List.range_add, List.map_append]
  have hrest : (((List.range k).map (t.size + ·)).map TerminalId.mk).filter p' = [] := by
    rw [List.filter_eq_nil_iff]
    intro id hid
    obtain ⟨i, hi, rfl⟩ := List.mem_map.mp hid
    obtain ⟨j, _, rfl⟩ := List.mem_map.mp hi
    rw [hnew _ (decide_eq_false (Nat.not_lt.mpr (Nat.le_add_right _ _)))]
    exact Bool.false_ne_true
  rw [hids, List.filter_append, hrest, List.append_nil]
  refine List.filter_congr fun id hid => hold id ?_
  obtain ⟨i, hi, rfl⟩ := List.mem_map.mp hid
  exact decide_eq_true (List.mem_range.mp hi)

/-! ## Sets and their members -/

theorem membersOf_eq (hid : t.contains id = true) : t'.membersOf id = t.membersOf id := by
  unfold membersOf
  rw [h.get?_eq id hid]

theorem collect_eq (turns i : Nat) {found : List TerminalId}
    (hfound : ∀ s ∈ found, t.contains s = true) :
    t'.collect turns i found = t.collect turns i found := by
  induction turns generalizing i found with
  | zero => rfl
  | succ turns ih =>
      unfold collect
      split
      · rfl
      · next s hs =>
          have hold : t.contains s = true := hfound s (List.mem_of_getElem? hs)
          rw [h.membersOf_eq hold]
          refine ih (i + 1) fun m hm => ?_
          rcases TerminalId.mem_merge.mp hm with hm | hm
          · exact hfound m hm
          · exact contains_of_le hold (Nat.le_of_lt (index_lt_of_mem_membersOf hm))

theorem accepted_eq (hid : t.contains id = true) : t'.accepted id = t.accepted id :=
  h.collect_eq _ _ fun _ hs => List.mem_singleton.mp hs ▸ hid

theorem matchWithin_eq (spot : Spot) (depth : Nat) (hid : t.contains id = true) :
    t'.matchWithin spot depth id = t.matchWithin spot depth id := by
  induction depth generalizing id with
  | zero => rfl
  | succ depth ih =>
      have hmembers : ∀ m ∈ t.membersOf id,
          (t'.matchWithin spot depth m).map (fun r => (r.text, r.skipped ++ r.rest)) =
            (t.matchWithin spot depth m).map fun r => (r.text, r.skipped ++ r.rest) := by
        intro m hm
        rw [ih (contains_of_le hid (Nat.le_of_lt (index_lt_of_mem_membersOf hm)))]
      unfold matchWithin
      rw [h.get?_eq id hid, h.membersOf_eq hid, findSome?_congr hmembers]

theorem matchAt_eq (spot : Spot) (hid : t.contains id = true) :
    t'.matchAt id spot = t.matchAt id spot :=
  h.matchWithin_eq spot _ hid

theorem nameWithin_eq (depth : Nat) (hid : t.contains id = true) :
    t'.nameWithin depth id = t.nameWithin depth id := by
  induction depth generalizing id with
  | zero => rfl
  | succ depth ih =>
      have hmember : ∀ m : TerminalId,
          (if m.index < id.index then t'.nameWithin depth m else m.label) =
            if m.index < id.index then t.nameWithin depth m else m.label := by
        intro m
        split
        · next hlt => exact ih (contains_of_le hid (Nat.le_of_lt hlt))
        · rfl
      unfold nameWithin
      simp only [h.get?_eq id hid, hmember]

theorem displayName_eq (hid : t.contains id = true) : t'.displayName id = t.displayName id :=
  h.nameWithin_eq _ hid

end

end GrowsTo

end TerminalTable

theorem Step.WellFormed.grow {t t' : TerminalTable} (h : t.GrowsTo t') {s : Step}
    (hs : s.WellFormed t) : s.WellFormed t' := by
  induction hs with
  | terminal hid => exact .terminal (h.contains hid)
  | rule => exact .rule
  | choice hsome _ ih => exact .choice hsome ih

namespace Grammar

variable {α : Type}

/-- The second grammar comes from the first by building calls that say nothing more of what the
first has. Whatever else they do, the terminals they register are not ignored. -/
inductive GrowsTo (g : Grammar α) : Grammar α → Prop where
  | refl : GrowsTo g g
  | addTerminal {h} (grows : GrowsTo g h) (t : Terminal) (kept : t.ignored = false) :
      GrowsTo g (h.addTerminal t).2
  | setTransform {h} (grows : GrowsTo g h) (id : TerminalId) (new : g.terminals.size ≤ id.index)
      (build : Token → α) : GrowsTo g (h.setTransform id build)
  | addRule {h} (grows : GrowsTo g h) (name : String) : GrowsTo g (h.addRule name).2
  | define {h} (grows : GrowsTo g h) (id : RuleId) (new : g.ruleCount ≤ id.index)
      (clauses : List (Clause α)) : GrowsTo g (h.define id clauses)

/-- The second grammar has the terminals, rules and transforms of the first. -/
structure Keeps (g g' : Grammar α) : Prop where
  terminals : g.terminals.GrowsTo g'.terminals
  ruleCount_le : g.ruleCount ≤ g'.ruleCount
  rule?_eq : ∀ id : RuleId, id.index < g.ruleCount → g'.rule? id = g.rule? id
  transform?_eq : ∀ id, g.terminals.contains id = true → g'.transform? id = g.transform? id

variable {g h : Grammar α}

theorem Keeps.refl (g : Grammar α) : g.Keeps g :=
  ⟨.refl _, Nat.le_refl _, fun _ _ => rfl, fun _ _ => rfl⟩

theorem Keeps.record (hk : g.Keeps h) (e : GrammarError) : g.Keeps (h.record e) :=
  ⟨hk.terminals, hk.ruleCount_le, hk.rule?_eq, hk.transform?_eq⟩

/-- A clause for another rule changes no rule but that. -/
theorem Keeps.addClause (hk : g.Keeps h) {id : RuleId} (hnew : g.ruleCount ≤ id.index)
    (clause : Clause α) : g.Keeps (h.addClause id clause) := by
  unfold Grammar.addClause
  cases h.rule? id with
  | none => exact hk
  | some r =>
      dsimp only
      cases r.extend clause with
      | error e => exact hk.record e
      | ok r =>
          refine ⟨hk.terminals, ?_, fun q hq => ?_, hk.transform?_eq⟩
          · show g.ruleCount ≤ (h.rules.setIfInBounds id.index r).size
            rw [Array.size_setIfInBounds]
            exact hk.ruleCount_le
          · show (h.rules.setIfInBounds id.index r)[q.index]? = _
            rw [Array.getElem?_setIfInBounds_ne (by omega)]
            exact hk.rule?_eq q hq

theorem Keeps.define (hk : g.Keeps h) {id : RuleId} (hnew : g.ruleCount ≤ id.index)
    (clauses : List (Clause α)) : g.Keeps (h.define id clauses) := by
  have hall : ∀ {h : Grammar α}, g.Keeps h →
      g.Keeps (clauses.foldl (fun g c => g.addClause id c) h) := fun hk =>
    List.foldlRecOn (motive := g.Keeps) _ _ hk fun _ hk clause _ => hk.addClause hnew clause
  unfold Grammar.define
  dsimp only
  split
  · exact hall hk
  · exact hall (hk.record _)

theorem Keeps.addRule (hk : g.Keeps h) (name : String) : g.Keeps (h.addRule name).2 := by
  refine ⟨hk.terminals, ?_, fun id hid => ?_, hk.transform?_eq⟩
  · show g.ruleCount ≤ (h.rules.push _).size
    rw [Array.size_push]
    exact Nat.le_succ_of_le hk.ruleCount_le
  · have hlt : id.index < h.rules.size := Nat.lt_of_lt_of_le hid hk.ruleCount_le
    show (h.rules.push _)[id.index]? = _
    rw [Array.getElem?_push_lt hlt, ← Array.getElem?_eq_getElem hlt]
    exact hk.rule?_eq id hid

theorem Keeps.setTransform (hk : g.Keeps h) {id : TerminalId}
    (hnew : g.terminals.size ≤ id.index) (build : Token → α) :
    g.Keeps (h.setTransform id build) := by
  unfold Grammar.setTransform
  split
  · refine ⟨hk.terminals, hk.ruleCount_le, hk.rule?_eq, fun t ht => ?_⟩
    have hlt : t.index < g.terminals.size := of_decide_eq_true ht
    show (h.transforms.setIfInBounds id.index (some build))[t.index]?.join = _
    rw [Array.getElem?_setIfInBounds_ne (by omega)]
    exact hk.transform?_eq t ht
  · exact hk.record _

/-- The new place for a transform is empty, so it makes no difference where it is. -/
theorem Keeps.addTerminal (hk : g.Keeps h) {t : Terminal} (hkept : t.ignored = false) :
    g.Keeps (h.addTerminal t).2 := by
  refine ⟨hk.terminals.push hkept, hk.ruleCount_le, hk.rule?_eq, fun id hid => ?_⟩
  have hpush : (h.transforms.push none)[id.index]?.join = h.transforms[id.index]?.join := by
    rw [Array.getElem?_push]
    split
    · next heq => simp [heq]
    · rfl
  exact hpush.trans (hk.transform?_eq id hid)

theorem GrowsTo.keeps {g' : Grammar α} (hg : g.GrowsTo g') : g.Keeps g' := by
  induction hg with
  | refl => exact .refl g
  | addTerminal _ t hkept ih => exact ih.addTerminal hkept
  | setTransform _ id hnew build ih => exact ih.setTransform hnew build
  | addRule _ name ih => exact ih.addRule name
  | define _ id hnew clauses ih => exact ih.define hnew clauses

end Grammar

end Descent
