import Descent.Match.Tree
import Descent.Proofs.Grammar.Nullable

/-!
# Plain matching

`Plain` is what a grammar means, read off the rules as they are written: nested choices are tried
one inside the other in the order they are declared, every alternative is tried whatever is ahead,
and no table or guard is involved. A repetition goes on as long as an iteration matches and reads
something. The outcome is unique (`Plain.functional`), and nested choices may be tried as one
(`Plain.step_of_leaves`).
-/

namespace Descent

/-- A part of a grammar that is matched. -/
inductive Part where
  | rule (id : RuleId)
  | step (s : Step)
  /-- The first of the steps that matches. -/
  | alternatives (ss : List Step)
  | slots (slots : List Slot)
  /-- A separator and an item, over and over. -/
  | more (item separator : Step)
  /-- The choice between the steps, over and over. -/
  | again (alternatives : List Step)
  | body (b : Body)

/-- Matching the part at `p` fails, or matches and leads to a position. -/
inductive Plain {α : Type} (g : Grammar α) (symbols : Array Symbol) :
    Part → Nat → Option (List MatchTree × Nat) → Prop where
  | took {p id x} (hx : symbols[p]? = some x) (h : x.terminal ∈ g.terminals.accepted id) :
      Plain g symbols (.step (.terminal id)) p (some ([.symbol p], p + 1))
  | missed {p id} (h : ∀ x, symbols[p]? = some x → x.terminal ∉ g.terminals.accepted id) :
      Plain g symbols (.step (.terminal id)) p none
  | reference {p id o} (rule : Plain g symbols (.rule id) p o) :
      Plain g symbols (.step (.rule id)) p o
  | choice {p ss o} (alternatives : Plain g symbols (.alternatives ss) p o) :
      Plain g symbols (.step (.choice ss)) p o
  | exhausted {p} : Plain g symbols (.alternatives []) p none
  | first {p s ss m} (step : Plain g symbols (.step s) p (some m)) :
      Plain g symbols (.alternatives (s :: ss)) p (some m)
  | next {p s ss o} (step : Plain g symbols (.step s) p none)
      (rest : Plain g symbols (.alternatives ss) p o) :
      Plain g symbols (.alternatives (s :: ss)) p o
  | rule {p id r o} (hr : g.rule? id = some r) (body : Plain g symbols (.body r.body) p o) :
      Plain g symbols (.rule id) p (o.map fun m => ([.rule id m.1], m.2))
  | done {p} : Plain g symbols (.slots []) p (some ([], p))
  | matched {p slot slots ts q o} (step : Plain g symbols (.step slot.step) p (some (ts, q)))
      (rest : Plain g symbols (.slots slots) q o) :
      Plain g symbols (.slots (slot :: slots)) p (o.map fun m => (ts ++ m.1, m.2))
  | absent {p slot slots o} (step : Plain g symbols (.step slot.step) p none)
      (hoptional : slot.optional = true) (rest : Plain g symbols (.slots slots) p o) :
      Plain g symbols (.slots (slot :: slots)) p (o.map fun m => (.absent :: m.1, m.2))
  | failed {p slot slots} (step : Plain g symbols (.step slot.step) p none)
      (hoptional : slot.optional = false) : Plain g symbols (.slots (slot :: slots)) p none
  | unseparated {p item separator} (sep : Plain g symbols (.step separator) p none) :
      Plain g symbols (.more item separator) p (some ([], p))
  | givenBack {p item separator us q} (sep : Plain g symbols (.step separator) p (some (us, q)))
      (step : Plain g symbols (.step item) q none) :
      Plain g symbols (.more item separator) p (some ([], p))
  | stalled {p item separator us ts q q'}
      (sep : Plain g symbols (.step separator) p (some (us, q)))
      (step : Plain g symbols (.step item) q (some (ts, q'))) (hread : q' ≤ p) :
      Plain g symbols (.more item separator) p (some ([], q'))
  | item {p item separator us ts rest q q' q''}
      (sep : Plain g symbols (.step separator) p (some (us, q)))
      (step : Plain g symbols (.step item) q (some (ts, q'))) (hread : p < q')
      (more : Plain g symbols (.more item separator) q' (some (rest, q''))) :
      Plain g symbols (.more item separator) p (some (ts ++ rest, q''))
  | ended {p ss} (step : Plain g symbols (.alternatives ss) p none) :
      Plain g symbols (.again ss) p (some ([], p))
  | idle {p ss ts q} (step : Plain g symbols (.alternatives ss) p (some (ts, q)))
      (hread : q ≤ p) : Plain g symbols (.again ss) p (some ([], q))
  | again {p ss ts rest q q'} (step : Plain g symbols (.alternatives ss) p (some (ts, q)))
      (hread : p < q) (more : Plain g symbols (.again ss) q (some (rest, q'))) :
      Plain g symbols (.again ss) p (some (ts ++ rest, q'))
  | sequence {p slots o} (steps : Plain g symbols (.slots slots) p o) :
      Plain g symbols (.body (.sequence slots)) p o
  | empty {p item separator} (step : Plain g symbols (.step item) p none) :
      Plain g symbols (.body (.separated item separator true)) p (some ([], p))
  | unmatched {p item separator} (step : Plain g symbols (.step item) p none) :
      Plain g symbols (.body (.separated item separator false)) p none
  | separated {p item separator allowEmpty ts rest q q'}
      (step : Plain g symbols (.step item) p (some (ts, q)))
      (more : Plain g symbols (.more item separator) q (some (rest, q'))) :
      Plain g symbols (.body (.separated item separator allowEmpty)) p (some (ts ++ rest, q'))
  | cyclic {p ss o} (more : Plain g symbols (.again ss) p o) :
      Plain g symbols (.body (.cyclic ss)) p o

namespace Plain

variable {α : Type} {g : Grammar α} {symbols : Array Symbol} {x : Part} {p : Nat}
  {o o' : Option (List MatchTree × Nat)}

/-- Matching has one outcome. -/
theorem functional (h : Plain g symbols x p o) (h' : Plain g symbols x p o') : o = o' := by
  induction h generalizing o' with
  | took hx haccepts =>
      cases h' with
      | took => rfl
      | missed h => exact absurd haccepts (h _ hx)
  | missed h =>
      cases h' with
      | took hx haccepts => exact absurd haccepts (h _ hx)
      | missed => rfl
  | reference _ ih =>
      cases h' with
      | reference h' => exact ih h'
  | choice _ ih =>
      cases h' with
      | choice h' => exact ih h'
  | exhausted =>
      cases h' with
      | exhausted => rfl
  | first _ ih =>
      cases h' with
      | first h' => exact ih h'
      | next h' => cases ih h'
  | next _ _ ih ihrest =>
      cases h' with
      | first h' => cases ih h'
      | next _ h' => exact ihrest h'
  | rule hr _ ih =>
      cases h' with
      | rule hr' h' =>
          cases hr.symm.trans hr'
          rw [ih h']
  | done =>
      cases h' with
      | done => rfl
  | matched _ _ ih ihrest =>
      cases h' with
      | matched h' hrest =>
          cases ih h'
          rw [ihrest hrest]
      | absent h' => cases ih h'
      | failed h' => cases ih h'
  | absent _ hoptional _ ih ihrest =>
      cases h' with
      | matched h' => cases ih h'
      | absent _ _ hrest => rw [ihrest hrest]
      | failed _ hoptional' => rw [hoptional] at hoptional'; cases hoptional'
  | failed _ hoptional ih =>
      cases h' with
      | matched h' => cases ih h'
      | absent _ hoptional' => rw [hoptional] at hoptional'; cases hoptional'
      | failed => rfl
  | unseparated _ ih =>
      cases h' with
      | unseparated => rfl
      | givenBack h' => cases ih h'
      | stalled h' => cases ih h'
      | item h' => cases ih h'
  | givenBack _ _ ih ihstep =>
      cases h' with
      | unseparated h' => cases ih h'
      | givenBack => rfl
      | stalled h' hstep => cases ih h'; cases ihstep hstep
      | item h' hstep => cases ih h'; cases ihstep hstep
  | stalled _ _ hread ih ihstep =>
      cases h' with
      | unseparated h' => cases ih h'
      | givenBack h' hstep => cases ih h'; cases ihstep hstep
      | stalled h' hstep =>
          cases ih h'
          cases ihstep hstep
          rfl
      | item h' hstep hread' =>
          cases ih h'
          cases ihstep hstep
          exact absurd hread' (Nat.not_lt.mpr hread)
  | item _ _ hread _ ih ihstep ihmore =>
      cases h' with
      | unseparated h' => cases ih h'
      | givenBack h' hstep => cases ih h'; cases ihstep hstep
      | stalled h' hstep hread' =>
          cases ih h'
          cases ihstep hstep
          exact absurd hread (Nat.not_lt.mpr hread')
      | item h' hstep _ hmore =>
          cases ih h'
          cases ihstep hstep
          cases ihmore hmore
          rfl
  | ended _ ih =>
      cases h' with
      | ended => rfl
      | idle h' => cases ih h'
      | again h' => cases ih h'
  | idle _ hread ih =>
      cases h' with
      | ended h' => cases ih h'
      | idle h' => cases ih h'; rfl
      | again h' hread' =>
          cases ih h'
          exact absurd hread' (Nat.not_lt.mpr hread)
  | again _ hread _ ih ihmore =>
      cases h' with
      | ended h' => cases ih h'
      | idle h' hread' =>
          cases ih h'
          exact absurd hread (Nat.not_lt.mpr hread')
      | again h' _ hmore =>
          cases ih h'
          cases ihmore hmore
          rfl
  | sequence _ ih =>
      cases h' with
      | sequence h' => exact ih h'
  | empty _ ih =>
      cases h' with
      | empty => rfl
      | separated h' => cases ih h'
  | unmatched _ ih =>
      cases h' with
      | unmatched => rfl
      | separated h' => cases ih h'
  | separated _ _ ih ihmore =>
      cases h' with
      | empty h' => cases ih h'
      | unmatched h' => cases ih h'
      | separated h' hmore =>
          cases ih h'
          cases ihmore hmore
          rfl
  | cyclic _ ih =>
      cases h' with
      | cyclic h' => exact ih h'

end Plain

/-! ## Nested choices -/

/-- The step that is only this alternative. -/
def Leaf.toStep : Leaf → Step
  | .terminal id => .terminal id
  | .rule id => .rule id

namespace Plain

variable {α : Type} {g : Grammar α} {symbols : Array Symbol} {p : Nat}
  {o : Option (List MatchTree × Nat)}

/-- A list of alternatives is a first part and, if that fails, the rest. -/
theorem of_append {xs ys : List Step} (h : Plain g symbols (.alternatives (xs ++ ys)) p o) :
    (∃ m, o = some m ∧ Plain g symbols (.alternatives xs) p (some m)) ∨
      (Plain g symbols (.alternatives xs) p none ∧ Plain g symbols (.alternatives ys) p o) := by
  induction xs with
  | nil => exact Or.inr ⟨.exhausted, h⟩
  | cons x xs ih =>
      cases h with
      | first h => exact Or.inl ⟨_, rfl, .first h⟩
      | next h hrest =>
          rcases ih hrest with ⟨m, rfl, hxs⟩ | ⟨hxs, hys⟩
          · exact Or.inl ⟨m, rfl, .next h hxs⟩
          · exact Or.inr ⟨.next h hxs, hys⟩

theorem of_singleton {s : Step} (h : Plain g symbols (.alternatives [s]) p o) :
    Plain g symbols (.step s) p o := by
  cases h with
  | first h => exact h
  | next h hrest =>
      cases hrest
      exact h

mutual
theorem step_of_leaves : ∀ (s : Step) {o : Option (List MatchTree × Nat)},
    Plain g symbols (.alternatives (s.leaves.map Leaf.toStep)) p o → Plain g symbols (.step s) p o
  | .terminal id, _, h => of_singleton (by rwa [Step.leaves] at h)
  | .rule id, _, h => of_singleton (by rwa [Step.leaves] at h)
  | .choice ss, _, h => .choice (alternatives_of_leaves ss (by rwa [Step.leaves] at h))

theorem alternatives_of_leaves : ∀ (ss : List Step) {o : Option (List MatchTree × Nat)},
    Plain g symbols (.alternatives ((Step.leavesOfAll ss).map Leaf.toStep)) p o →
      Plain g symbols (.alternatives ss) p o
  | [], _, h => by rwa [Step.leavesOfAll] at h
  | s :: ss, _, h => by
      rw [Step.leavesOfAll, List.map_append] at h
      rcases of_append h with ⟨m, rfl, hs⟩ | ⟨hs, hss⟩
      · exact .first (step_of_leaves s hs)
      · exact .next (step_of_leaves s hs) (alternatives_of_leaves ss hss)
end

/-- Alternatives that fail may be left out. -/
theorem of_filter {xs : List Leaf} {keep : Leaf → Bool}
    (hskip : ∀ l ∈ xs, keep l = false → Plain g symbols (.step l.toStep) p none)
    (h : Plain g symbols (.alternatives ((xs.filter keep).map Leaf.toStep)) p o) :
    Plain g symbols (.alternatives (xs.map Leaf.toStep)) p o := by
  induction xs with
  | nil => exact h
  | cons x xs ih =>
      obtain ⟨hx, hxs⟩ := List.forall_mem_cons.mp hskip
      cases hkeep : keep x with
      | false =>
          rw [List.filter_cons_of_neg (by simp [hkeep])] at h
          exact .next (hx hkeep) (ih hxs h)
      | true =>
          rw [List.filter_cons_of_pos hkeep] at h
          cases h with
          | first h => exact .first h
          | next h hrest => exact .next h (ih hxs hrest)

end Plain

end Descent
