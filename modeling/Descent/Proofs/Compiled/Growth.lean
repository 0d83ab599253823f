import Descent.Proofs.Compiled.Consistent
import Descent.Proofs.Grammar.Growth

/-!
# Compiling a grammar that has grown

The walk over the rules meets the same rules in the same order, since it only looks at rules that it
has met (`Grammar.Keeps.reachable`). The facts are computed for all rules and terminals that there
are, but they are the least ones, and what is nullable or first of a rule follows from the rules
that can be reached from it (`Grammar.Alike`). So the compiled rules and the sorted terminals are
the same, and what else the compiled grammar holds agrees on what these refer to
(`CompiledGrammar.Alike`).
-/

namespace Descent

open Relation

/-! ## The walk -/

/-- The second walk stands where the first stands, with marks for more rules. -/
structure Walk.Alike (w w' : Walk) : Prop where
  seen : ∀ (i : Nat) (v : Bool), w.seen[i]? = some v → w'.seen[i]? = some v
  waiting : w'.waiting = w.waiting
  visited : w'.visited = w.visited

namespace Walk.Alike

variable {w w' u : Walk} {name : String}

theorem meet (h : w.Alike w') {id : RuleId} (hm : w.meet name id = .ok u) :
    ∃ u', w'.meet name id = .ok u' ∧ u.Alike u' := by
  unfold Walk.meet at hm ⊢
  split at hm
  · cases hm
  · next hs =>
      cases hm
      rw [h.seen _ _ hs]
      exact ⟨w', rfl, h⟩
  · next hs =>
      cases hm
      rw [h.seen _ _ hs]
      refine ⟨_, rfl, fun i v hi => ?_, congrArg (id :: ·) h.waiting, h.visited⟩
      have hlt : id.index < w.seen.size := (Array.getElem?_eq_some_iff.mp hs).1
      have hlt' : id.index < w'.seen.size := (Array.getElem?_eq_some_iff.mp (h.seen _ _ hs)).1
      by_cases heq : id.index = i
      · subst heq
        rw [Array.getElem?_setIfInBounds_self_of_lt hlt] at hi
        rw [Array.getElem?_setIfInBounds_self_of_lt hlt', hi]
      · rw [Array.getElem?_setIfInBounds_ne heq] at hi ⊢
        exact h.seen i v hi

theorem meetAll (h : w.Alike w') {ids : List RuleId}
    (hm : ids.foldlM (Walk.meet name) w = .ok u) :
    ∃ u', ids.foldlM (Walk.meet name) w' = .ok u' ∧ u.Alike u' := by
  induction ids generalizing w w' with
  | nil =>
      cases hm
      exact ⟨w', rfl, h⟩
  | cons id ids ih =>
      rw [List.foldlM_cons] at hm ⊢
      cases hfirst : w.meet name id with
      | error e =>
          rw [hfirst] at hm
          cases hm
      | ok v =>
          rw [hfirst] at hm
          obtain ⟨v', hfirst', hv⟩ := h.meet hfirst
          rw [hfirst']
          exact ih hv hm

end Walk.Alike

theorem Rule.fault?_eq_none_of_growsTo {α : Type} {r : Rule α} {t t' : TerminalTable}
    (h : t.GrowsTo t') (hr : r.fault? t = none) : r.fault? t' = none := by
  rw [fault?, Option.or_eq_none_iff, Step.faultOfAll?_eq_none_iff] at hr ⊢
  exact ⟨hr.1, fun s hs => (hr.2 s hs).grow h⟩

namespace Grammar

variable {α : Type} {g g' : Grammar α} {root : RuleId} {order : List RuleId} {w w' u : Walk}

theorem walk_of_waiting_eq_nil (hw : w.waiting = []) (fuel : Nat) : g.walk fuel w = .ok w := by
  cases fuel with
  | zero => rfl
  | succ fuel =>
      unfold walk
      rw [hw]

namespace Keeps

variable (hk : g.Keeps g')

include hk

theorem visit {id : RuleId} {waiting : List RuleId} (hlt : id.index < g.ruleCount)
    (h : w.Alike w') (hv : g.visit w id waiting = .ok u) :
    ∃ u', g'.visit w' id waiting = .ok u' ∧ u.Alike u' := by
  obtain ⟨r, hr⟩ := exists_rule hlt
  unfold Grammar.visit at hv ⊢
  rw [hk.rule?_eq id hlt]
  rw [hr] at hv ⊢
  dsimp only at hv ⊢
  cases hf : r.fault? g.terminals with
  | some e =>
      rw [hf] at hv
      cases hv
  | none =>
      rw [hf] at hv
      rw [Rule.fault?_eq_none_of_growsTo hk.terminals hf]
      have hnow : Walk.Alike { w with waiting, visited := id :: w.visited }
          { w' with waiting, visited := id :: w'.visited } :=
        ⟨h.seen, rfl, congrArg (id :: ·) h.visited⟩
      exact hnow.meetAll hv

/-- A walk that has come to its end is the same with more rules, and with more turns. -/
theorem walk {fuel fuel' : Nat} (hv : Visiting g root w) (h : w.Alike w')
    (hw : g.walk fuel w = .ok u) (hu : u.waiting = []) (hle : fuel ≤ fuel') :
    ∃ u', g'.walk fuel' w' = .ok u' ∧ u.Alike u' := by
  induction fuel generalizing w w' fuel' with
  | zero =>
      cases hw
      exact ⟨w', walk_of_waiting_eq_nil (h.waiting.trans hu) fuel', h⟩
  | succ fuel ih =>
      cases hwait : w.waiting with
      | nil =>
          rw [walk_of_waiting_eq_nil hwait] at hw
          cases hw
          exact ⟨w', walk_of_waiting_eq_nil (h.waiting.trans hu) fuel', h⟩
      | cons id waiting =>
          obtain ⟨fuel', rfl⟩ : ∃ k, fuel' = k + 1 := ⟨fuel' - 1, by omega⟩
          rw [walk_cons hwait] at hw
          rw [walk_cons (h.waiting.trans hwait)]
          cases hvisit : g.visit w id waiting with
          | error e =>
              rw [hvisit] at hw
              cases hw
          | ok v =>
              rw [hvisit] at hw
              have hlt : id.index < g.ruleCount := hv.index_lt (by simp [hwait])
              obtain ⟨v', hvisit', halike⟩ := hk.visit hlt h hvisit
              rw [hvisit']
              exact ih (hv.visit hwait hvisit).1 halike hw (Nat.le_of_succ_le_succ hle)

theorem walkStart (root : RuleId) : (g.walkStart root).Alike (g'.walkStart root) := by
  refine ⟨fun i v hi => ?_, rfl, rfl⟩
  have hle := hk.ruleCount_le
  unfold Grammar.walkStart at hi ⊢
  have hi' : i < g.ruleCount := by
    simpa using (Array.getElem?_eq_some_iff.mp hi).1
  by_cases heq : root.index = i
  · subst heq
    simpa [Nat.lt_of_lt_of_le hi' hle, hi'] using hi
  · rw [Array.getElem?_setIfInBounds_ne heq] at hi ⊢
    simpa [Array.getElem?_replicate, hi', Nat.lt_of_lt_of_le hi' hle] using hi

theorem reachable (h : g.reachable root = .ok order) : g'.reachable root = .ok order := by
  by_cases hroot : root.index < g.ruleCount
  · have hroot' : root.index < g'.ruleCount := Nat.lt_of_lt_of_le hroot hk.ruleCount_le
    rw [reachable_eq hroot] at h
    rw [reachable_eq hroot']
    cases hw : g.walk g.ruleCount (g.walkStart root) with
    | error e =>
        rw [hw] at h
        cases h
    | ok u =>
        rw [hw] at h
        cases h
        have hu := ((visiting_start hroot).walk (Nat.le_add_left _ _) hw).2
        obtain ⟨u', hw', halike⟩ :=
          hk.walk (visiting_start hroot) (hk.walkStart root) hw hu hk.ruleCount_le
        rw [hw']
        exact congrArg (fun visited => Except.ok visited.reverse) halike.visited
  · rw [Grammar.reachable, if_neg hroot] at h
    cases h

end Keeps

/-! ## What follows from the rules of an order -/

/-- The grammars have the same rules in the order, which refer to no other rules and to terminals
that accept the same. -/
structure Alike (order : List RuleId) (g g' : Grammar α) : Prop where
  rule?_eq : ∀ id ∈ order, g'.rule? id = g.rule? id
  closed : ∀ id ∈ order, ∀ q, g.Refers id q → q ∈ order
  accepted_eq : ∀ id ∈ order, ∀ r, g.rule? id = some r → ∀ s ∈ r.body.steps, ∀ x,
    .terminal x ∈ s.leaves → g'.terminals.accepted x = g.terminals.accepted x

namespace Alike

variable {id : RuleId} {r : Rule α} {s : Step} {t : TerminalId}

theorem symm (h : Alike order g g') : Alike order g' g := by
  have hrule : ∀ {id r}, id ∈ order → g'.rule? id = some r → g.rule? id = some r :=
    fun hid hr => (h.rule?_eq _ hid).symm.trans hr
  refine ⟨fun id hid => (h.rule?_eq id hid).symm, fun id hid q hq => ?_, ?_⟩
  · obtain ⟨r, hr, hq⟩ := hq
    exact h.closed id hid q ⟨r, hrule hid hr, hq⟩
  · exact fun id hid r hr s hs x hx => (h.accepted_eq id hid r (hrule hid hr) s hs x hx).symm

variable (h : Alike order g g')

include h

theorem mem_of_mem_rules (hid : id ∈ order) (hr : g.rule? id = some r) {q : RuleId}
    (hq : q ∈ r.body.rules) : q ∈ order :=
  h.closed id hid q ⟨r, hr, hq⟩

theorem mem_of_leaf (hid : id ∈ order) (hr : g.rule? id = some r) (hs : s ∈ r.body.steps)
    {q : RuleId} (hq : .rule q ∈ s.leaves) : q ∈ order :=
  h.mem_of_mem_rules hid hr (Body.mem_rules.mpr ⟨s, hs, Step.mem_rules.mpr hq⟩)

theorem nullable (hid : id ∈ order) (hn : g.Nullable id) : g'.Nullable id := by
  induction hn with
  | @rule id r N hr _ body ih =>
      refine .rule (N := fun q => q ∈ order ∧ N q) ((h.rule?_eq id hid).trans hr)
        (fun q hq => ih q hq.2 hq.1) (body.mono fun q hq hNq => ?_)
      exact ⟨h.mem_of_mem_rules hid hr hq, hNq⟩

theorem nullable_iff (hid : id ∈ order) : g'.Nullable id ↔ g.Nullable id :=
  ⟨h.symm.nullable hid, h.nullable hid⟩

theorem leads (hid : id ∈ order) (hr : g.rule? id = some r) (hl : r.body.Leads g.Nullable s) :
    r.body.Leads g'.Nullable s :=
  hl.mono fun _ hq => h.nullable (h.mem_of_mem_rules hid hr hq)

theorem first (hid : id ∈ order) (hf : g.First id t) : g'.First id t := by
  induction hf with
  | @terminal id r s x t hr hl hx ht =>
      rw [← h.accepted_eq id hid r hr s hl.mem_steps x hx] at ht
      exact .terminal ((h.rule?_eq id hid).trans hr) (h.leads hid hr hl) hx ht
  | @rule id r s q t hr hl hq _ ih =>
      exact .rule ((h.rule?_eq id hid).trans hr) (h.leads hid hr hl) hq
        (ih (h.mem_of_leaf hid hr hl.mem_steps hq))

theorem first_iff (hid : id ∈ order) : g'.First id t ↔ g.First id t :=
  ⟨h.symm.first hid, h.first hid⟩

theorem leftEdge {b : RuleId} (hid : id ∈ order) (he : g.LeftEdge id b) : g'.LeftEdge id b := by
  obtain ⟨r, s, hr, hl, hb⟩ := he
  exact ⟨r, s, (h.rule?_eq id hid).trans hr, h.leads hid hr hl, hb⟩

/-- Paths along left edges stay in the order. -/
theorem transGen {b : RuleId} (hid : id ∈ order) (hp : TransGen g.LeftEdge id b) :
    TransGen g'.LeftEdge id b ∧ b ∈ order :=
  transGen_of_closed (fun x y hx he => ⟨h.leftEdge hx he, h.closed x hx y he.refers⟩) hid hp

end Alike

/-! ## The facts -/

section Facts

variable (h : Alike order g g') (hs : Facts.Sound g order) (hs' : Facts.Sound g' order)
  {l : Leaf}

include h hs hs'

theorem Alike.leafNullable_eq (hl : g.LeafKnown order l) :
    (Facts.of g' order).leafNullable l = (Facts.of g order).leafNullable l := by
  cases l with
  | terminal x => rfl
  | rule id =>
      have hnull := Facts.null_of_iff hs h.closed hl
      have hnull' := Facts.null_of_iff hs' h.symm.closed hl
      exact Bool.eq_iff_iff.mpr (hnull'.trans ((h.nullable_iff hl).trans hnull.symm))

theorem Alike.leafFirst_eq (hk : g.Keeps g') (hl : g.LeafKnown order l) :
    (Facts.of g' order).leafFirst l = (Facts.of g order).leafFirst l := by
  refine TerminalSet.ext fun t => Bool.eq_iff_iff.mpr ?_
  cases l with
  | terminal x =>
      rw [(Facts.fits_of hs).leafFirst_terminal hl,
        (Facts.fits_of hs').leafFirst_terminal (hk.terminals.contains hl),
        hk.terminals.accepted_eq hl]
  | rule id =>
      exact (Facts.first_of_iff hs' h.symm.closed hl).trans
        ((h.first_iff hl).trans (Facts.first_of_iff hs h.closed hl).symm)

end Facts

end Grammar

/-! ## Compiled rules -/

namespace Facts

variable {f f' : Facts}

theorem compileStep_congr {s : Step} (hnull : ∀ l ∈ s.leaves, f'.leafNullable l = f.leafNullable l)
    (hfirst : ∀ l ∈ s.leaves, f'.leafFirst l = f.leafFirst l) (optional : Bool) :
    f'.compileStep s optional = f.compileStep s optional := by
  have hleaves : f'.leavesFirst s.leaves = f.leavesFirst s.leaves :=
    List.foldl_ext _ _ _ fun _ l hl => by rw [hfirst l hl]
  have hstart : ∀ id, numbers s.leaves (f'.canStart id) = numbers s.leaves (f.canStart id) :=
    fun id => numbers_congr fun l hl => by rw [canStart, canStart, hnull l hl, hfirst l hl]
  unfold compileStep
  simp only [hleaves, hstart, numbers_congr hnull]

theorem compileBody_congr {b : Body}
    (hnull : ∀ s ∈ b.whole, ∀ l ∈ s.leaves, f'.leafNullable l = f.leafNullable l)
    (hfirst : ∀ s ∈ b.whole, ∀ l ∈ s.leaves, f'.leafFirst l = f.leafFirst l) :
    f'.compileBody b = f.compileBody b := by
  have hstep : ∀ s ∈ b.whole, ∀ optional, f'.compileStep s optional = f.compileStep s optional :=
    fun s hs => compileStep_congr (hnull s hs) (hfirst s hs)
  cases b with
  | undefined => rfl
  | sequence slots =>
      refine congrArg CompiledBody.sequence (List.map_congr_left fun slot hslot => ?_)
      exact hstep slot.step (List.mem_map_of_mem hslot) slot.optional
  | separated item separator allowEmpty =>
      rw [compileBody, compileBody, hstep item (by simp [Body.whole]),
        hstep separator (by simp [Body.whole])]
  | cyclic alternatives =>
      rw [compileBody, compileBody, hstep _ (List.mem_singleton_self _)]

end Facts

/-- The second compiled grammar has the rules of the first and cuts text with the same terminals,
and these accept the same and have the same names. -/
structure CompiledGrammar.Alike (c c' : CompiledGrammar) : Prop where
  root_eq : c'.root = c.root
  order_eq : c'.order = c.order
  rule?_eq : ∀ id, c'.rule? id = c.rule? id
  terminals_eq : c'.terminals = c.terminals
  accepts_eq : ∀ id r, c.rule? id = some r → ∀ s ∈ r.body.steps, ∀ x, .terminal x ∈ s.branches →
    ∀ t, c'.accepts x t = c.accepts x t
  terminalName_eq : ∀ x ∈ c.terminals.scanned, c'.terminalName x = c.terminalName x

theorem mergeSort_congr {β : Type} {le le' : β → β → Bool} {xs : List β}
    (h : ∀ a ∈ xs, ∀ b ∈ xs, le' a b = le a b) : xs.mergeSort le' = xs.mergeSort le := by
  have hmap := List.map_mergeSort (f := fun x => x) h
  simpa using hmap

namespace Grammar

variable {α : Type} {g g' : Grammar α} {root : RuleId} {order : List RuleId}

theorem terminalName_build {f : Facts} {x : TerminalId} (hx : g.terminals.contains x = true) :
    (g.build root order f).terminalName x = g.terminals.displayName x := by
  have hlt : x.index < g.terminals.size := of_decide_eq_true hx
  unfold CompiledGrammar.terminalName build
  simp [TerminalTable.ids, hlt]

/-- Terminals are sorted by what is known of them, and the new ones are sorted out. -/
theorem Keeps.terminalOrder_eq (hk : g.Keeps g') {used : TerminalSet}
    (hused : ∀ t, used.has t = true → g.terminals.contains t = true) :
    g'.terminalOrder used = g.terminalOrder used := by
  have hignored : g'.terminals.ids.filter g'.terminals.isIgnored =
      g.terminals.ids.filter g.terminals.isIgnored :=
    hk.terminals.filter_ids (fun _ hid => hk.terminals.isIgnored_eq hid) hk.terminals.kept
  have hmade : (g'.terminals.ids.filter fun id => !g'.terminals.isIgnored id && used.has id) =
      g.terminals.ids.filter fun id => !g.terminals.isIgnored id && used.has id := by
    refine hk.terminals.filter_ids (fun id hid => ?_) fun id hid => ?_
    · rw [hk.terminals.isIgnored_eq hid]
    · have hnot : used.has id = false := by
        rw [← Bool.not_eq_true]
        intro hhas
        rw [hused id hhas] at hid
        cases hid
      rw [hnot, Bool.and_false]
  have hknown : ∀ id ∈ g.terminals.ids.filter fun id => !g.terminals.isIgnored id && used.has id,
      g.terminals.contains id = true := fun id hid =>
    TerminalTable.mem_ids.mp (List.mem_filter.mp hid).1
  unfold terminalOrder
  dsimp only
  rw [hignored, hmade]
  congr 1
  · rw [List.filter_congr fun id hid => hk.terminals.isLiteral_eq (hknown id hid)]
    refine mergeSort_congr fun a ha b hb => ?_
    have ha := hk.terminals.literalLength_eq a (hknown a (List.mem_filter.mp ha).1)
    have hb := hk.terminals.literalLength_eq b (hknown b (List.mem_filter.mp hb).1)
    simp only [ha, hb]
  · exact List.filter_congr fun id hid => by rw [hk.terminals.isLiteral_eq (hknown id hid)]

theorem mem_terminals_of_body {b : Body} {x : TerminalId} (h : x ∈ b.terminals) :
    ∃ s ∈ b.steps, .terminal x ∈ s.leaves := by
  obtain ⟨s, hs, hx⟩ := List.mem_flatMap.mp h
  obtain ⟨l, hl, heq⟩ := List.mem_filterMap.mp hx
  cases l with
  | terminal y =>
      cases heq
      exact ⟨s, hs, hl⟩
  | rule q => cases heq

section Build

variable {c : CompiledGrammar} (hk : g.Keeps g') (hreach : g.reachable root = .ok order)

include hk hreach

theorem Keeps.alike : Alike order g g' := by
  obtain ⟨_, _, hmem, hs⟩ := reachable_spec hreach
  refine ⟨fun id hid => ?_, closed_of_reachable hmem, fun id hid r hr s hstep x hx => ?_⟩
  · obtain ⟨r, hr, _⟩ := hs id hid
    exact hk.rule?_eq id (index_lt_of_rule? hr)
  · obtain ⟨r', hr', hwf⟩ := hs id hid
    cases hr.symm.trans hr'
    exact hk.terminals.accepted_eq ((hwf.steps s hstep).contains hx)

theorem Keeps.compileRule_eq {id : RuleId} {r : Rule α} (hid : id ∈ order)
    (hr : g.rule? id = some r) :
    compileRule (Facts.of g' order) id r = compileRule (Facts.of g order) id r := by
  obtain ⟨_, _, _, hs⟩ := reachable_spec hreach
  obtain ⟨_, _, _, hs'⟩ := reachable_spec (hk.reachable hreach)
  have halike := hk.alike hreach
  have hleaves := leafKnown_of_reachable hreach id hid r hr
  have hnull : (Facts.of g' order).nullable[id.index]?.getD false =
      (Facts.of g order).nullable[id.index]?.getD false :=
    halike.leafNullable_eq hs hs' (l := .rule id) hid
  have hfirst : (Facts.of g' order).first[id.index]?.getD ∅ =
      (Facts.of g order).first[id.index]?.getD ∅ :=
    halike.leafFirst_eq hs hs' hk (l := .rule id) hid
  have hbody : (Facts.of g' order).compileBody r.body = (Facts.of g order).compileBody r.body :=
    Facts.compileBody_congr
      (fun s hstep l hl => halike.leafNullable_eq hs hs' (hleaves s hstep l hl))
      fun s hstep l hl => halike.leafFirst_eq hs hs' hk (hleaves s hstep l hl)
  unfold compileRule
  rw [hnull, hfirst, hbody]

theorem Keeps.terminals_eq :
    g'.terminalOrder (g'.referenced order) = g.terminalOrder (g.referenced order) := by
  obtain ⟨_, _, _, hs⟩ := reachable_spec hreach
  have hreferenced : g'.referenced order = g.referenced order :=
    congrArg TerminalSet.ofList (List.flatMap_congr fun id hid => by
      rw [(hk.alike hreach).rule?_eq id hid])
  rw [hreferenced]
  refine hk.terminalOrder_eq fun t ht => ?_
  obtain ⟨id, hid, r, hr, ht⟩ := referenced_has.mp ht
  obtain ⟨r', hr', hwf⟩ := hs id hid
  cases hr.symm.trans hr'
  obtain ⟨s, hstep, hx⟩ := mem_terminals_of_body ht
  exact (hwf.steps s hstep).contains hx

theorem Keeps.alike_build :
    (g.build root order (Facts.of g order)).Alike (g'.build root order (Facts.of g' order)) where
  root_eq := rfl
  order_eq := rfl
  rule?_eq id := by
    rw [rule?_build, rule?_build]
    by_cases hid : id ∈ order
    · rw [if_pos hid, if_pos hid, (hk.alike hreach).rule?_eq id hid]
      cases hr : g.rule? id with
      | none => rfl
      | some r => exact congrArg some (hk.compileRule_eq hreach hid hr)
    · rw [if_neg hid, if_neg hid]
  terminals_eq := hk.terminals_eq hreach
  accepts_eq id r hr s hstep x hx t := by
    obtain ⟨_, _, _, hs⟩ := reachable_spec hreach
    obtain ⟨_, _, _, hs'⟩ := reachable_spec (hk.reachable hreach)
    obtain ⟨hid, y, hy, rfl⟩ := rule?_build_eq_some hr
    obtain ⟨y', hy', hwf⟩ := hs id hid
    cases hy.symm.trans hy'
    obtain ⟨s, hstep, hx⟩ := mem_branches_compileBody hstep hx
    have hknown := (hwf.steps s hstep).contains hx
    have hbegins : (g.build root order (Facts.of g order)).LeafBegins t (.terminal x) ↔ _ :=
      leafBegins_build (l := .terminal x) hs (Facts.fits_of hs) hknown
    have hbegins' : (g'.build root order (Facts.of g' order)).LeafBegins t (.terminal x) ↔ _ :=
      leafBegins_build (l := .terminal x) hs' (Facts.fits_of hs') (hk.terminals.contains hknown)
    rw [(hk.alike hreach).leafFirst_eq hs hs' hk (l := .terminal x) hknown] at hbegins'
    exact Bool.eq_iff_iff.mpr (hbegins'.trans hbegins.symm)
  terminalName_eq x hx := by
    have hknown : g.terminals.contains x = true := by
      rcases List.mem_append.mp hx with hx | hx
      · exact (mem_literal.mp hx).1
      · exact (mem_scanning.mp hx).1
    rw [terminalName_build hknown, terminalName_build (hk.terminals.contains hknown),
      hk.terminals.displayName_eq hknown]

end Build

/-- What has grown compiles as before, as long as no misuse is recorded. -/
theorem Keeps.compile {c : CompiledGrammar} (hk : g.Keeps g') (herrors : g'.errors = g.errors)
    (hcompile : g.compile root = .ok c) : ∃ c', g'.compile root = .ok c' ∧ c.Alike c' := by
  obtain ⟨hnone, order, hreach, hleft, rfl⟩ := compile_eq_ok_iff.mp hcompile
  have hreach' := hk.reachable hreach
  obtain ⟨_, _, hmem, hs⟩ := reachable_spec hreach
  obtain ⟨_, _, hmem', hs'⟩ := reachable_spec hreach'
  have hacyclic := (leftRecursion?_eq_none_iff hs (closed_of_reachable hmem)).mp hleft
  have hleft' : g'.leftRecursion? order (Facts.of g' order) = none :=
    (leftRecursion?_eq_none_iff hs' (closed_of_reachable hmem')).mpr fun id hid hcycle =>
      hacyclic id hid ((hk.alike hreach).symm.transGen hid hcycle).1
  exact ⟨_, compile_eq_ok_iff.mpr ⟨herrors.trans hnone, order, hreach', hleft', rfl⟩,
    hk.alike_build hreach⟩

end Grammar

end Descent
