import Mathlib
import Descent.Proofs.Compiled.Accepted

/-!
# The order of the reachable rules

Depth first (`DepthFirst`), a rule comes before everything that it leads to, and that before the
next reference. The walk over the rules does something else: a rule that is visited claims what it
refers to and nobody has claimed, and what is claimed keeps its turn even if it is met again before
(`Claimed`). So the order of a compiled grammar is that of the claims, last references first to
last, and it is depth first where no rule is met again while it waits (`MetOnce`).

`Claimed` is read off the walk by an induction on its visits. That it is depth first is an induction
on the claims: whatever is claimed but not visited yet was met by a rule visited before, so a rule
visited now does not refer to it.
-/

namespace Descent

open Relation

/-- Of the references those that are not claimed, in the order of their last mention. -/
def unclaimed (claimed references : List RuleId) : List RuleId :=
  (references.filter (· ∉ claimed)).dedup

/-- Followed depth first from some rules, one after the other, with those in `met` left out, the
rules come in the order. -/
inductive DepthFirst (next : RuleId → List RuleId) :
    List RuleId → List RuleId → List RuleId → Prop where
  | done {met} : DepthFirst next met [] []
  | again {met id ids order} (h : id ∈ met) (rest : DepthFirst next met ids order) :
      DepthFirst next met (id :: ids) order
  | enter {met id ids below rest} (h : id ∉ met)
      (inside : DepthFirst next (id :: met) (next id) below)
      (after : DepthFirst next (below ++ id :: met) ids rest) :
      DepthFirst next met (id :: ids) (id :: (below ++ rest))

/-- Followed from some claimed rules, one after the other, the rules come in the order, if each that
is visited claims its references and those are followed at once. -/
inductive Claimed (next : RuleId → List RuleId) :
    List RuleId → List RuleId → List RuleId → Prop where
  | done {claimed} : Claimed next claimed [] []
  | enter {claimed id ids below rest}
      (inside : Claimed next (unclaimed claimed (next id) ++ claimed) (unclaimed claimed (next id))
        below)
      (after : Claimed next (id :: below ++ claimed) ids rest) :
      Claimed next claimed (id :: ids) (id :: (below ++ rest))

/-- Where the rules `before` are followed by those of a list, no rule is met by two of them before
its turn comes, and the references of each to rules whose turn is to come have one order, whether
the first or the last mention counts. -/
def MetOnce (next : RuleId → List RuleId) : List RuleId → List RuleId → Prop
  | _, [] => True
  | before, id :: after =>
    (∀ x ∈ after, x ∈ next id → ∀ b ∈ before, x ∉ next b) ∧
    ((next id).filter (· ∈ after)).eraseDups = ((next id).filter (· ∈ after)).dedup ∧
    MetOnce next (before ++ [id]) after

instance MetOnce.decidable (next : RuleId → List RuleId) :
    ∀ before order, Decidable (MetOnce next before order)
  | _, [] => inferInstanceAs (Decidable True)
  | before, id :: after =>
    have := MetOnce.decidable next (before ++ [id]) after
    inferInstanceAs (Decidable (_ ∧ _ ∧ _))

variable {next : RuleId → List RuleId} {before after order ids ids' : List RuleId} {id x : RuleId}

/-! ## Depth-first order -/

namespace DepthFirst

variable {met met' seen order' : List RuleId}

/-- There is no other depth-first order. -/
theorem unique (h : DepthFirst next met ids order) (h' : DepthFirst next met ids order') :
    order = order' := by
  induction h generalizing order' with
  | done =>
      cases h'
      rfl
  | again hid _ ih =>
      cases h' with
      | again _ rest => exact ih rest
      | enter hnot _ _ => exact absurd hid hnot
  | enter hnot _ _ ih ih' =>
      cases h' with
      | again hid _ => exact absurd hid hnot
      | enter _ inside after =>
          cases ih inside
          cases ih' after
          rfl

theorem congr (h : DepthFirst next met ids order) (hmet : ∀ x, x ∈ met ↔ x ∈ met') :
    DepthFirst next met' ids order := by
  induction h generalizing met' with
  | done => exact .done
  | again hid _ ih => exact .again ((hmet _).mp hid) (ih hmet)
  | enter hid _ _ ih ih' =>
      refine .enter (fun hmem => hid ((hmet _).mpr hmem)) (ih fun x => ?_) (ih' fun x => ?_)
      · simp only [List.mem_cons, hmet]
      · simp only [List.mem_append, List.mem_cons, hmet]

/-- References that were met before or come again make no difference. -/
theorem of_eraseDups (hseen : seen ⊆ met)
    (h : DepthFirst next met (ids.filter (· ∉ seen)).eraseDups order) :
    DepthFirst next met ids order := by
  induction ids generalizing seen met order with
  | nil => exact h
  | cons id ids ih =>
      by_cases hid : id ∈ seen
      · rw [List.filter_cons_of_neg (by simpa using hid)] at h
        exact .again (hseen hid) (ih hseen h)
      · have hrest : (ids.filter (· ∉ seen)).filter (fun x => !x == id) =
            ids.filter (· ∉ id :: seen) := by
          rw [List.filter_filter]
          refine List.filter_congr fun x _ => ?_
          simp [beq_eq_decide]
        rw [List.filter_cons_of_pos (by simpa using hid), List.eraseDups_cons, hrest] at h
        cases h with
        | again hmet rest => exact .again hmet (ih (List.cons_subset.mpr ⟨hmet, hseen⟩) rest)
        | enter hmet inside rest =>
            refine .enter hmet inside (ih (fun x hx => List.mem_append_right _ ?_) rest)
            exact List.cons_subset_cons id hseen hx

theorem head?_eq (h : DepthFirst next met ids order) (hx : ids.find? (· ∉ met) = some x) :
    order.head? = some x := by
  induction h with
  | done => cases hx
  | again hid _ ih =>
      rw [List.find?_cons_of_neg (by simpa using hid)] at hx
      exact ih hx
  | enter hid _ _ =>
      rw [List.find?_cons_of_pos (by simpa using hid)] at hx
      exact hx

/-- A rule is followed by the first of its references that is new, if there is one. -/
theorem head?_after (h : DepthFirst next met ids order) (horder : order = before ++ id :: after)
    (hx : (next id).find? (· ∉ before ++ id :: met) = some x) : after.head? = some x := by
  induction h generalizing before after with
  | done => simp at horder
  | again _ _ ih => exact ih horder hx
  | @enter met id' ids below rest _ inside _ ih ih' =>
      cases before with
      | nil =>
          obtain ⟨rfl, rfl⟩ := List.cons.inj horder
          rw [List.head?_append, inside.head?_eq hx]
          rfl
      | cons b before =>
          obtain ⟨rfl, hsplit⟩ := List.cons.inj horder
          have hbehind : ∀ tail, before = below ++ tail → rest = tail ++ id :: after →
              after.head? = some x := by
            rintro tail rfl hrest
            refine ih' hrest (Eq.trans ?_ hx)
            congr 1
            funext y
            simp only [List.mem_append, List.mem_cons, List.cons_append, List.append_assoc]
            exact decide_eq_decide.mpr (not_congr (by tauto))
          rcases List.append_eq_append_iff.mp hsplit with ⟨tail, hbefore, hrest⟩ |
            ⟨_ | ⟨y, tail⟩, hbelow, hafter⟩
          · exact hbehind tail hbefore hrest
          · exact hbehind [] (by simp [hbelow]) (by simpa using hafter.symm)
          · obtain ⟨rfl, rfl⟩ := List.cons.inj hafter
            have hinside : tail.head? = some x := by
              refine ih hbelow (Eq.trans ?_ hx)
              congr 1
              funext y
              simp only [List.mem_append, List.mem_cons, List.cons_append]
              exact decide_eq_decide.mpr (not_congr (by tauto))
            show (tail ++ rest).head? = some x
            rw [List.head?_append, hinside]
            rfl

end DepthFirst

/-! ## The order of the claims -/

theorem unclaimed_congr {claimed claimed' : List RuleId} (h : ∀ x, x ∈ claimed ↔ x ∈ claimed')
    (ids : List RuleId) : unclaimed claimed ids = unclaimed claimed' ids := by
  unfold unclaimed
  rw [List.filter_congr fun x _ => decide_eq_decide.mpr (not_congr (h x))]

namespace Claimed

variable {claimed claimed' : List RuleId}

theorem congr (h : Claimed next claimed ids order) (hclaimed : ∀ x, x ∈ claimed ↔ x ∈ claimed') :
    Claimed next claimed' ids order := by
  induction h generalizing claimed' with
  | done => exact .done
  | @enter claimed id _ _ _ _ _ ih ih' =>
      refine .enter ?_ (ih' fun x => ?_)
      · rw [← unclaimed_congr hclaimed]
        exact ih fun x => by simp only [List.mem_append, hclaimed]
      · simp only [List.mem_append, hclaimed]

theorem subset (h : Claimed next claimed ids order) : ids ⊆ order := by
  induction h with
  | done => exact List.Subset.refl []
  | enter _ _ _ ih' =>
      exact List.cons_subset_cons _ (List.Subset.trans ih' (List.subset_append_right _ _))

/-- Of two lists the first is followed to its end before the second. -/
theorem append (h : Claimed next claimed (ids ++ ids') order) :
    ∃ below rest, order = below ++ rest ∧ Claimed next claimed ids below ∧
      Claimed next (below ++ claimed) ids' rest := by
  induction ids generalizing claimed order with
  | nil => exact ⟨[], order, rfl, .done, h⟩
  | cons id ids ih =>
      cases h with
      | @enter _ _ _ below _ inside after =>
          obtain ⟨below', rest', rfl, hids, hids'⟩ := ih after
          refine ⟨id :: (below ++ below'), rest', by simp, .enter inside hids, ?_⟩
          refine hids'.congr fun x => ?_
          simp only [List.mem_append, List.mem_cons]
          tauto

end Claimed

/-! ## Where the two orders agree -/

theorem MetOnce.split {front : List RuleId} (h : MetOnce next before order)
    (horder : order = front ++ id :: after) :
    (∀ x ∈ after, x ∈ next id → ∀ b ∈ before ++ front, x ∉ next b) ∧
      ((next id).filter (· ∈ after)).eraseDups = ((next id).filter (· ∈ after)).dedup := by
  induction front generalizing before order with
  | nil =>
      subst horder
      rw [List.append_nil]
      exact ⟨h.1, h.2.1⟩
  | cons a front ih =>
      subst horder
      have hrest := ih h.2.2 rfl
      rwa [List.append_assoc] at hrest

/-- What holds of the rules that are claimed and of those that come before, where a list is followed
from its head: what is claimed was met. -/
structure Met (next : RuleId → List RuleId) (full claimed before : List RuleId) : Prop where
  came : before ⊆ claimed
  met : ∀ x ∈ claimed, x ∈ before ∨ (∃ b ∈ before, x ∈ next b) ∨ full.head? = some x

namespace Met

variable {full claimed below : List RuleId}

theorem visit (h : Met next full claimed before) (hid : id ∈ claimed) :
    Met next full (unclaimed claimed (next id) ++ claimed) (before ++ [id]) := by
  refine ⟨List.append_subset.mpr ⟨?_, ?_⟩, fun x hx => ?_⟩
  · exact fun x hx => List.mem_append_right _ (h.came hx)
  · exact List.cons_subset.mpr ⟨List.mem_append_right _ hid, List.nil_subset _⟩
  · rcases List.mem_append.mp hx with hx | hx
    · have hxid : x ∈ next id := List.mem_of_mem_filter (List.mem_dedup.mp hx)
      exact .inr (.inl ⟨id, by simp, hxid⟩)
    · exact (h.met x hx).imp (List.mem_append_left _) <|
        .imp_left fun ⟨b, hb, hxb⟩ => ⟨b, List.mem_append_left _ hb, hxb⟩

theorem leave (h : Met next full claimed before) :
    Met next full (id :: below ++ claimed) (before ++ id :: below) := by
  refine ⟨List.append_subset.mpr ⟨?_, List.subset_append_left _ _⟩, fun x hx => ?_⟩
  · exact fun x hx => List.mem_append_right _ (h.came hx)
  · rcases List.mem_append.mp hx with hx | hx
    · exact .inl (List.mem_append_right _ hx)
    · exact (h.met x hx).imp (List.mem_append_left _) <|
        .imp_left fun ⟨b, hb, hxb⟩ => ⟨b, List.mem_append_left _ hb, hxb⟩

/-- No rule that is referred to now and whose turn is still to come is claimed. -/
theorem not_claimed (h : Met next full claimed before) (hfull : full = before ++ id :: after)
    (hnodup : full.Nodup) (honce : MetOnce next [] full) (hx : x ∈ after) (hxid : x ∈ next id) :
    x ∉ claimed := by
  have hfresh : x ∉ before ++ [id] := by
    rw [hfull, ← List.singleton_append, ← List.append_assoc] at hnodup
    exact fun hmem => (List.nodup_append.mp hnodup).2.2 x hmem x hx rfl
  intro hmem
  rcases h.met x hmem with hb | ⟨b, hb, hxb⟩ | hhead
  · exact hfresh (List.mem_append_left _ hb)
  · exact (honce.split hfull).1 x hx hxid b hb hxb
  · have hfront : (before ++ [id]).head? = some x := by
      rw [← hhead, hfull]
      cases before <;> rfl
    exact hfresh (List.mem_of_mem_head? hfront)

/-- So the references that nobody has claimed are those that have not come before. -/
theorem eraseDups_eq (h : Met next full claimed before) (hid : id ∈ claimed)
    (hfull : full = before ++ id :: after) (hnodup : full.Nodup) (honce : MetOnce next [] full)
    (hclosed : next id ⊆ full) :
    ((next id).filter (· ∉ id :: before)).eraseDups = unclaimed claimed (next id) := by
  have hcoming : ∀ x ∈ next id, x ∉ id :: before → x ∈ after := by
    intro x hx hnot
    have hmem := hclosed hx
    rw [hfull] at hmem
    simp only [List.mem_append, List.mem_cons] at hmem hnot
    tauto
  have hclaimed : id :: before ⊆ claimed := List.cons_subset.mpr ⟨hid, h.came⟩
  have hleft : ∀ x ∈ next id, (x ∉ id :: before ↔ x ∈ after) := fun x hx =>
    ⟨hcoming x hx, fun hlater hmem =>
      h.not_claimed hfull hnodup honce hlater hx (hclaimed hmem)⟩
  have hnew : ∀ x ∈ next id, (x ∉ claimed ↔ x ∈ after) := fun x hx =>
    ⟨fun hnot => hcoming x hx fun hmem => hnot (hclaimed hmem),
      fun hlater => h.not_claimed hfull hnodup honce hlater hx⟩
  unfold unclaimed
  rw [List.filter_congr fun x hx => decide_eq_decide.mpr (hleft x hx),
    List.filter_congr fun x hx => decide_eq_decide.mpr (hnew x hx)]
  exact (honce.split hfull).2

end Met

/-- Where no rule is met twice before its turn, the order of the claims is depth first. -/
theorem Claimed.depthFirst {claimed later full : List RuleId}
    (h : Claimed next claimed ids order) (hfull : full = before ++ order ++ later)
    (hnodup : full.Nodup) (hclosed : ∀ a ∈ full, next a ⊆ full) (honce : MetOnce next [] full)
    (hids : ids ⊆ claimed) (hmet : Met next full claimed before) :
    DepthFirst next before ids order := by
  induction h generalizing before later with
  | done => exact .done
  | @enter claimed id ids below rest _ _ ih ih' =>
      obtain ⟨hid, hids⟩ := List.cons_subset.mp hids
      have hsplit : full = before ++ id :: (below ++ rest ++ later) := by simp [hfull]
      have hnotid : id ∉ before := by
        rw [hsplit, List.nodup_middle, List.nodup_cons] at hnodup
        exact fun hmem => hnodup.1 (List.mem_append_left _ hmem)
      have hinner : full = before ++ [id] ++ below ++ (rest ++ later) := by simp [hfull]
      have houter : full = before ++ id :: below ++ rest ++ later := by simp [hfull]
      have hinside : DepthFirst next (before ++ [id]) (unclaimed claimed (next id)) below :=
        ih hinner (List.subset_append_left _ _) (hmet.visit hid)
      have hafter : DepthFirst next (before ++ id :: below) ids rest :=
        ih' houter (fun x hx => List.mem_append_right _ (hids hx)) hmet.leave
      refine .enter hnotid (.of_eraseDups (List.Subset.refl _) ?_) ?_
      · rw [hmet.eraseDups_eq hid hsplit hnodup honce (hclosed id (by simp [hsplit]))]
        exact hinside.congr fun x => by simp [or_comm]
      · exact hafter.congr fun x => by simp; tauto

/-! ## The walk -/

namespace Grammar

variable {α : Type} {g : Grammar α} {root : RuleId} {w w' : Walk}

/-- The rules that the body of a rule refers to, as often and in the order as it mentions them. -/
def references (g : Grammar α) (id : RuleId) : List RuleId :=
  ((g.rule? id).map (·.body.rules)).getD []

theorem mem_references {a b : RuleId} : b ∈ g.references a ↔ g.Refers a b := by
  unfold references Refers
  cases g.rule? a with
  | none => simp
  | some r => simp

theorem references_eq {r : Rule α} (h : g.rule? id = some r) : g.references id = r.body.rules := by
  rw [references, h]
  rfl

theorem Marked.waiting_meet {name : String} (h : Marked g root w) (hm : w.meet name id = .ok w') :
    w'.waiting = if id ∈ w.waiting ++ w.visited then w.waiting else id :: w.waiting := by
  have hseen := h.seen id
  unfold Walk.meet at hm
  split at hm
  · cases hm
  · next hs =>
      cases hm
      rw [if_pos (hseen.mp hs)]
  · next hs =>
      cases hm
      rw [if_neg fun hmem => by simp [hs] at hseen; simp [hseen] at hmem]

/-- References are met last to first, so that a rule gets the place of its last mention. -/
theorem Marked.waiting_meetAll {name : String} (h : Marked g root w)
    (hids : ∀ q ∈ ids, g.Reachable root q)
    (hm : ids.reverse.foldlM (Walk.meet name) w = .ok w') :
    w'.waiting = unclaimed (w.waiting ++ w.visited) ids ++ w.waiting := by
  induction ids generalizing w' with
  | nil =>
      cases hm
      rfl
  | cons id ids ih =>
      rw [List.reverse_cons, List.foldlM_append] at hm
      cases h1 : ids.reverse.foldlM (Walk.meet name) w with
      | error e => rw [h1] at hm; cases hm
      | ok w1 =>
          rw [h1] at hm
          have hm : w1.meet name id = .ok w' := by
            rw [← hm]
            exact (bind_pure (w1.meet name id)).symm
          obtain ⟨_, hids⟩ := List.forall_mem_cons.mp hids
          obtain ⟨hw1, hvis, hmem⟩ := h.meetAll (fun q hq => hids q (List.mem_reverse.mp hq)) h1
          have hold := ih hids h1
          simp only [List.mem_reverse] at hmem
          unfold unclaimed at hold ⊢
          rw [hw1.waiting_meet hm]
          by_cases hclaimed : id ∈ w.waiting ++ w.visited
          · rw [if_pos ((hmem id).mpr (.inr hclaimed)), hold,
              List.filter_cons_of_neg (by rwa [decide_eq_true_eq, not_not])]
          · rw [List.filter_cons_of_pos (by simpa using hclaimed)]
            by_cases hagain : id ∈ ids
            · rw [if_pos ((hmem id).mpr (.inl hagain)), hold, List.dedup_cons_of_mem]
              exact List.mem_filter.mpr ⟨hagain, by simpa using hclaimed⟩
            · rw [if_neg (by rw [hmem]; tauto), hold, List.dedup_cons_of_notMem, List.cons_append]
              exact fun hmem => hagain (List.mem_of_mem_filter hmem)

namespace Visiting

theorem waiting_visit {waiting : List RuleId} (h : Visiting g root w)
    (hw : w.waiting = id :: waiting) (hv : g.visit w id waiting = .ok w') :
    w'.waiting = unclaimed (w.waiting ++ w.visited) (g.references id) ++ waiting := by
  have hid : id ∈ w.waiting ++ w.visited := by simp [hw]
  obtain ⟨r, hr⟩ := exists_rule (h.index_lt hid)
  simp only [Grammar.visit, hr] at hv
  cases hf : r.fault? g.terminals with
  | some e => rw [hf] at hv; cases hv
  | none =>
      rw [hf] at hv
      obtain ⟨hmarked, hsame⟩ := h.visited hw
      rw [hmarked.waiting_meetAll (fun q hq => (h.reachable id hid).tail ⟨r, hr, hq⟩) hv,
        references_eq hr, unclaimed_congr hsame]

/-- What the walk visits from here on is in the order of the claims. -/
theorem claimed {fuel : Nat} (h : Visiting g root w)
    (hfuel : g.ruleCount ≤ w.visited.length + fuel) (hw : g.walk fuel w = .ok w') :
    ∃ order, w'.visited.reverse = w.visited.reverse ++ order ∧
      Claimed g.references (w.waiting ++ w.visited) w.waiting order := by
  induction fuel generalizing w with
  | zero =>
      cases hw
      refine ⟨[], (List.append_nil _).symm, ?_⟩
      rw [h.waiting_eq_nil hfuel]
      exact .done
  | succ fuel ih =>
      cases hwait : w.waiting with
      | nil =>
          rw [Grammar.walk, hwait] at hw
          cases hw
          exact ⟨[], (List.append_nil _).symm, .done⟩
      | cons id waiting =>
          rw [walk_cons hwait] at hw
          cases hv : g.visit w id waiting with
          | error e => rw [hv] at hw; cases hw
          | ok w1 =>
              rw [hv] at hw
              obtain ⟨h1, hvis⟩ := h.visit hwait hv
              obtain ⟨order, horder, hclaimed⟩ := ih h1 (by rw [hvis, List.length_cons]; omega) hw
              rw [h.waiting_visit hwait hv, hvis, hwait] at hclaimed
              obtain ⟨below, rest, rfl, hinside, hafter⟩ := hclaimed.append
              refine ⟨id :: (below ++ rest), by simp [horder, hvis], .enter ?_ ?_⟩
              · exact hinside.congr fun x => by simp; tauto
              · refine hafter.congr fun x => ?_
                have hbelow := hinside.subset (a := x)
                simp only [List.mem_append, List.mem_cons] at hbelow ⊢
                tauto

end Visiting

theorem claimed_of_reachable (h : g.reachable root = .ok order) :
    Claimed g.references [root] [root] order := by
  by_cases hroot : root.index < g.ruleCount
  · rw [reachable_eq hroot] at h
    cases hw : g.walk g.ruleCount (g.walkStart root) with
    | error e => rw [hw] at h; cases h
    | ok w =>
        rw [hw] at h
        cases h
        obtain ⟨order, horder, hclaimed⟩ :=
          (visiting_start hroot).claimed (Nat.le_add_left _ _) hw
        show Claimed _ _ _ w.visited.reverse
        rw [show w.visited.reverse = order from horder]
        exact hclaimed
  · rw [reachable, if_neg hroot] at h
    cases h

theorem reachable_of_compile {c : CompiledGrammar} (h : g.compile root = .ok c) :
    g.reachable root = .ok c.order := by
  obtain ⟨_, order, hreach, _, rfl⟩ := compile_eq_ok_iff.mp h
  exact hreach

/-- The rules of a compiled grammar are in the order of the claims. Where no rule is met twice
before its turn, that is the depth-first order, and a rule that refers to new rules is followed by
the first of them. -/
theorem compile_order {c : CompiledGrammar} (h : g.compile root = .ok c) :
    Claimed g.references [root] [root] c.order ∧
      (MetOnce g.references [] c.order →
        (∀ order, DepthFirst g.references [] [root] order ↔ order = c.order) ∧
          ∀ before id after x, c.order = before ++ id :: after →
            (g.references id).find? (· ∉ before ++ [id]) = some x → after.head? = some x) := by
  have hclaimed := claimed_of_reachable (reachable_of_compile h)
  refine ⟨hclaimed, fun honce => ?_⟩
  have hcovers := covers_of_compile h
  have hclosed : ∀ a ∈ c.order, g.references a ⊆ c.order := fun a ha b hb =>
    (hcovers.mem_order b).mpr (((hcovers.mem_order a).mp ha).tail (mem_references.mp hb))
  have hmet : Met g.references c.order [root] [] :=
    ⟨List.nil_subset _, fun x hx => .inr (.inr (List.mem_singleton.mp hx ▸ hcovers.head))⟩
  have hwhole : c.order = [] ++ c.order ++ [] := by simp
  have hfirst : DepthFirst g.references [] [root] c.order :=
    hclaimed.depthFirst hwhole hcovers.nodup hclosed honce (List.Subset.refl _) hmet
  refine ⟨fun order => ⟨fun h => h.unique hfirst, ?_⟩, fun before id after x horder hx => ?_⟩
  · rintro rfl
    exact hfirst
  · exact hfirst.head?_after horder hx

/-- Two groups and a mark, a group being the same in parentheses or nothing in them. -/
def marked : Grammar Nat :=
  let g : Grammar Nat := {}
  let (opening, g) := g.addTerminal { matcher := .char '(' }
  let (closing, g) := g.addTerminal { matcher := .char ')' }
  let (stroke, g) := g.addTerminal { matcher := .char '!' }
  let (pair, g) := g.addRule "pair"
  let (group, g) := g.addRule "group"
  let (mark, g) := g.addRule "mark"
  let g := g.define pair [.step (.rule group), .step (.rule group), .step (.rule mark)]
  let g := g.define group
    [.step (.terminal opening), .optional (.rule pair), .step (.terminal closing)]
  g.define mark [.step (.terminal stroke)]

theorem exists_compile_of_order {order : List RuleId}
    (h : (g.compile root).toOption.map (·.order) = some order) :
    ∃ c, g.compile root = .ok c ∧ c.order = order := by
  cases hc : g.compile root with
  | error e => rw [hc] at h; cases h
  | ok c =>
      rw [hc] at h
      exact ⟨c, rfl, Option.some.inj h⟩

section

set_option maxRecDepth 20000

theorem compile_order_marked : ∃ c, marked.compile ⟨0⟩ = .ok c ∧
    MetOnce marked.references [] c.order ∧
    DepthFirst marked.references [] [⟨0⟩] c.order ∧ c.order = [⟨0⟩, ⟨1⟩, ⟨2⟩] := by
  obtain ⟨c, hc, horder⟩ : ∃ c, marked.compile ⟨0⟩ = .ok c ∧ c.order = [⟨0⟩, ⟨1⟩, ⟨2⟩] :=
    exists_compile_of_order (by cbv)
  have honce : MetOnce marked.references [] c.order := by
    rw [horder]
    decide +kernel
  exact ⟨c, hc, honce, (((compile_order hc).2 honce).1 c.order).mpr rfl, horder⟩

/-- A rule that mentions one rule before and after another. -/
def framed : Grammar Nat :=
  let g : Grammar Nat := {}
  let (a, g) := g.addTerminal { matcher := .char 'a' }
  let (b, g) := g.addTerminal { matcher := .char 'b' }
  let (start, g) := g.addRule "start"
  let (left, g) := g.addRule "left"
  let (right, g) := g.addRule "right"
  let g := g.define start [.step (.rule left), .step (.rule right), .step (.rule left)]
  let g := g.define left [.step (.terminal a)]
  g.define right [.step (.terminal b)]

/-- Of the two the second is visited first. -/
theorem framed_not_depthFirst : ∃ c, framed.compile ⟨0⟩ = .ok c ∧
    c.order = [⟨0⟩, ⟨2⟩, ⟨1⟩] ∧ ¬ DepthFirst framed.references [] [⟨0⟩] c.order ∧
    (framed.references ⟨0⟩).find? (· ∉ [⟨0⟩]) = some ⟨1⟩ := by
  obtain ⟨c, hc, horder⟩ : ∃ c, framed.compile ⟨0⟩ = .ok c ∧ c.order = [⟨0⟩, ⟨2⟩, ⟨1⟩] :=
    exists_compile_of_order (by cbv)
  have hfind : (framed.references ⟨0⟩).find? (· ∉ [⟨0⟩]) = some ⟨1⟩ := by cbv
  refine ⟨c, hc, horder, fun h => ?_, hfind⟩
  have hsplit : c.order = [] ++ ⟨0⟩ :: [⟨2⟩, ⟨1⟩] := horder
  have hsecond : [⟨2⟩, ⟨1⟩].head? = some (⟨1⟩ : RuleId) := h.head?_after hsplit hfind
  exact absurd hsecond (by decide)

end

end Grammar

end Descent
