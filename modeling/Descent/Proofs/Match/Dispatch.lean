import Descent.Proofs.Match.Nesting
import Descent.Proofs.Match.Plain

/-!
# Dispatch keeps the meaning

Evaluation tries only the alternatives that the symbol ahead can begin, flattened into one list, and
so comes to the outcome of plain matching all the same (`evaluate_iff_plain`): an alternative that
is skipped would have failed, because whatever it could have matched would have begun with the
symbol ahead or read nothing (`Run.progress`).

The dispatch tables number alternatives in sixteen bits, so a step may have at most 65536 of them.
-/

namespace Descent

/-! ## The alternatives that are tried -/

namespace Facts

/-- The alternative can begin with what is ahead, or match nothing. -/
def canBegin (f : Facts) (ahead : Option TerminalId) (l : Leaf) : Bool :=
  f.leafNullable l || ahead.any (f.leafFirst l).has

/-- The numbers of alternatives stand for the alternatives, as long as they fit in sixteen bits. -/
theorem filterMap_numbers {leaves : List Leaf} (h : leaves.length ≤ 65536) (keep : Leaf → Bool) :
    ((numbers leaves keep).filterMap fun n => leaves.toArray[n.toNat]?) = leaves.filter keep := by
  have hget : ∀ x ∈ leaves.zipIdx.filter (fun l => keep l.1),
      leaves.toArray[(UInt16.ofNat x.2).toNat]? = some x.1 := by
    intro x hx
    have hx := List.mem_zipIdx_iff_getElem?.mp (List.mem_filter.mp hx).1
    have hlt : x.2 < leaves.length := (List.getElem?_eq_some_iff.mp hx).choose
    have hnat : (UInt16.ofNat x.2).toNat = x.2 := UInt16.toNat_ofNat_of_lt' (by
      show x.2 < 65536
      omega)
    rw [hnat, List.getElem?_toArray]
    exact hx
  unfold numbers
  rw [List.filterMap_map]
  calc
    _ = (leaves.zipIdx.filter fun l => keep l.1).filterMap fun x => some x.1 :=
      List.filterMap_congr hget
    _ = (leaves.zipIdx.filter (keep ∘ Prod.fst)).map Prod.fst := by
      rw [List.filterMap_eq_map']
      rfl
    _ = leaves.filter keep := by
      rw [← List.filter_map, List.zipIdx_map_fst]

/-- The numbers to try are those of the alternatives that can begin with what is ahead. -/
theorem candidates_compileStep {f : Facts} {s : Step} {optional : Bool}
    (ahead : Option TerminalId) :
    (f.compileStep s optional).candidates ahead = numbers s.leaves (f.canBegin ahead) := by
  cases ahead with
  | none => exact numbers_congr fun l _ => (Bool.or_false _).symm
  | some t =>
      have hdispatch : (f.compileStep s optional).dispatch =
          (f.leavesFirst s.leaves).toList.map fun id => (id, numbers s.leaves (f.canStart id)) :=
        rfl
      unfold CompiledStep.candidates
      rw [hdispatch, Option.bind_some, List.find?_map]
      cases hfind : (f.leavesFirst s.leaves).toList.find? ((fun x : TerminalId × List UInt16 =>
          decide (x.1 = t)) ∘ fun id => (id, numbers s.leaves (f.canStart id))) with
      | some u =>
          have hu : u = t := by simpa using List.find?_some hfind
          subst hu
          rfl
      | none =>
          -- no alternative begins with `t`, so those that can are the nullable ones
          refine numbers_congr fun l hl => ?_
          have hnot : (f.leafFirst l).has t = false := by
            rw [← Bool.not_eq_true]
            intro hhas
            have hmem : t ∈ (f.leavesFirst s.leaves).toList := by
              unfold leavesFirst
              rw [TerminalSet.mem_toList, TerminalSet.has_foldl_union]
              exact Or.inr ⟨l, hl, hhas⟩
            simpa using List.find?_eq_none.mp hfind t hmem
          show f.leafNullable l = (f.leafNullable l || (f.leafFirst l).has t)
          rw [hnot, Bool.or_false]

/-- What is tried are the alternatives that can begin with what is ahead, in their order. -/
theorem tries_compileStep {f : Facts} {s : Step} {optional : Bool} (h : s.leaves.length ≤ 65536)
    (ahead : Option TerminalId) :
    (f.compileStep s optional).tries ahead = s.leaves.filter (f.canBegin ahead) := by
  unfold CompiledStep.tries
  rw [candidates_compileStep]
  exact filterMap_numbers h _

end Facts

/-! ## The rule as it is written -/

namespace Grammar

variable {α : Type}

/-- The step refers to what is known only, and its alternatives can be numbered. -/
def Regular (g : Grammar α) (order : List RuleId) (s : Step) : Prop :=
  (∀ l ∈ s.leaves, g.LeafKnown order l) ∧ s.leaves.length ≤ 65536

/-- What the outcome of a fragment says of the part of the grammar that it was compiled from. -/
def Means (g : Grammar α) (order : List RuleId) (f : Facts) (symbols : Array Symbol) (x : Fragment)
    (p : Nat) (o : Option (List MatchTree × Nat)) : Prop :=
  match x with
  | .leaf l => g.LeafKnown order l → Plain g symbols (.step l.toStep) p o
  | .leaves ls => (∀ l ∈ ls, g.LeafKnown order l) →
      Plain g symbols (.alternatives (ls.map Leaf.toStep)) p o
  | .step st => ∀ s optional, st = f.compileStep s optional → g.Regular order s →
      Plain g symbols (.step s) p o
  | .steps _ _ ss => ∀ slots : List Slot,
      ss = slots.map (fun slot => f.compileStep slot.step slot.optional) →
      (∀ slot ∈ slots, g.Regular order slot.step) → Plain g symbols (.slots slots) p o
  | .more _ item separator => ∀ s s', item = f.compileStep s false →
      separator = f.compileStep s' false → g.Regular order s → g.Regular order s' →
      Plain g symbols (.more s s') p o
  | .again st => ∀ ss, st = f.compileStep (.choice ss) false → g.Regular order (.choice ss) →
      Plain g symbols (.again ss) p o
  | .body _ b => ∀ b', b = f.compileBody b' → b' ≠ .undefined →
      (∀ s ∈ b'.whole, g.Regular order s) → Plain g symbols (.body b') p o

section

variable {g : Grammar α} {root : RuleId} {order : List RuleId} {f : Facts}
  {symbols : Array Symbol} (hs : Facts.Sound g order) (hf : f.Fits g)
  (hc : (g.build root order f).Consistent)
  (hregular : ∀ id ∈ order, ∀ r, g.rule? id = some r → ∀ s ∈ r.body.whole, g.Regular order s)

include hc in
/-- A rule below the bound has a run, whether it is worth trying or not. -/
theorem exists_run {id : RuleId} {m p : Nat} (hid : id ∈ order)
    (hlow : (g.build root order f).height symbols.size id p < m) :
    ∃ o q log, Run (g.build root order f) symbols m (.leaf (.rule id)) p o q log := by
  have hs : (EvalState.initial (g.build root order f) {} symbols).Ready (g.build root order f) :=
    EvalState.ready_initial _ _ _
  obtain ⟨o, q, log, hrun, _⟩ := rule_tries {} hc hid hlow (Nat.lt_succ_self _) (hs.standing m)
    (Nat.zero_le p)
  exact ⟨_, q, log, hrun⟩

include hs hf in
theorem accepts_iff_mem (root : RuleId) {id t : TerminalId} (hid : g.terminals.contains id = true) :
    (g.build root order f).accepts id t = true ↔ t ∈ g.terminals.accepted id :=
  (leafBegins_build (l := .terminal id) hs hf hid).trans (hf.leafFirst_terminal hid)

include hs hf hc in
/-- An alternative that cannot begin with what is ahead fails. -/
theorem eq_none_of_not_canBegin {m p q : Nat} {l : Leaf} {o : Option (List MatchTree)}
    {log : List Note} (hl : g.LeafKnown order l)
    (hskip : f.canBegin (symbols[p]?.map (·.terminal)) l = false)
    (hrun : Run (g.build root order f) symbols m (.leaf l) p o q log) : o = none := by
  obtain ⟨hnull, hahead⟩ := Bool.or_eq_false_iff.mp hskip
  cases o with
  | none => rfl
  | some ts =>
      rcases hrun.progress hc rfl with ⟨_, hpass⟩ | ⟨_, _, y, hy, hbegin⟩
      · rw [(leafPasses_build hs hl).mp hpass] at hnull
        cases hnull
      · rw [hy] at hahead
        have hhas := (leafBegins_build hs hf hl).mp hbegin
        rw [Option.map_some, Option.any_some, hhas] at hahead
        cases hahead

include hs hregular in
/-- A run of a rule means what the run of its body means, which is below the bound. -/
theorem reference_of_run {m p q : Nat} {id : RuleId} {o : Option (List MatchTree)}
    {log : List Note}
    (hbelow : ∀ k < m, ∀ {p q : Nat} {x : Fragment} {o : Option (List MatchTree)} {log : List Note},
      Run (g.build root order f) symbols k x p o q log →
      g.Means order f symbols x p (o.map fun ts => (ts, q)))
    (hrun : Run (g.build root order f) symbols m (.leaf (.rule id)) p o q log) :
    Plain g symbols (.step (.rule id)) p (o.map fun ts => (ts, q)) := by
  cases hrun with
  | rule hr hlow body =>
      obtain ⟨hid, y, hy, rfl⟩ := rule?_build_eq_some hr
      obtain ⟨_, hy', hwf⟩ := hs id hid
      cases hy.symm.trans hy'
      have hbody := hbelow _ hlow body y.body rfl hwf.defined (hregular id hid y hy)
      have hrule := Plain.rule hy hbody
      rw [Option.map_map] at hrule ⊢
      exact .reference hrule

include hs hf hc hregular in
/-- What comes of a fragment is what plain matching of its part of the grammar comes to. -/
theorem means_of_run {m p q : Nat} {x : Fragment} {o : Option (List MatchTree)} {log : List Note}
    (h : Run (g.build root order f) symbols m x p o q log) :
    g.Means order f symbols x p (o.map fun ts => (ts, q)) := by
  -- on the bound for the bodies of rules that are entered, and on the run for all the rest
  induction m using Nat.strong_induction_on generalizing x p o q log with
  | h m ihm =>
  induction h with
  | took hx haccepts =>
      exact fun hid => .took hx ((accepts_iff_mem hs hf root hid).mp haccepts)
  | missed hmissed =>
      intro hid
      refine .missed fun y hy hmem => ?_
      have haccepts := (accepts_iff_mem hs hf root hid).mpr hmem
      rw [hmissed y hy] at haccepts
      cases haccepts
  | rule hr hlow body _ =>
      exact fun _ => reference_of_run hs hregular (fun k hk => ihm k hk) (.rule hr hlow body)
  | exhausted => exact fun _ => .exhausted
  | first _ ih => exact fun hls => .first (ih ihm (hls _ List.mem_cons_self))
  | next _ _ ih ihrest =>
      intro hls
      exact .next (ih ihm (hls _ List.mem_cons_self))
        (ihrest ihm fun l hl => hls l (List.mem_cons_of_mem _ hl))
  | @step m p st o q log hlow leaves ih =>
      rintro s optional rfl ⟨hknown, hsize⟩
      have htries : (f.compileStep s optional).tries (symbols[p]?.map (·.terminal)) = _ :=
        Facts.tries_compileStep hsize _
      have hleaves := ih ihm fun l hl =>
        hknown l (mem_branches_compileStep.mp (CompiledStep.mem_branches_of_mem_tries hl))
      rw [htries] at hleaves
      refine Plain.step_of_leaves s (Plain.of_filter (fun l hl hskip => ?_) hleaves)
      cases l with
      | terminal id =>
          refine .missed fun y hy hmem => ?_
          have hhas := (hf.leafFirst_terminal (hknown _ hl)).mpr hmem
          rw [hy, Option.map_some] at hskip
          simp [Facts.canBegin, hhas] at hskip
      | rule id =>
          -- evaluation skips the rule, but it has a run, and the run fails
          have hlow := hlow id (mem_branches_compileStep.mpr hl)
          obtain ⟨o', q', log', hrun⟩ := exists_run hc (hknown _ hl) hlow
          have hnone := eq_none_of_not_canBegin hs hf hc (hknown _ hl) hskip hrun
          have hreference := reference_of_run hs hregular (fun k hk => ihm k hk) hrun
          rw [hnone] at hreference
          exact hreference
  | done =>
      intro slots heq _
      obtain rfl := List.map_eq_nil_iff.mp heq.symm
      exact .done
  | matched _ _ ih ihrest =>
      intro slots heq hslots
      obtain ⟨slot, slots, rfl, rfl, rfl⟩ := List.map_eq_cons_iff.mp heq.symm
      obtain ⟨hslot, hslots⟩ := List.forall_mem_cons.mp hslots
      have hmatched := Plain.matched (ih ihm slot.step slot.optional rfl hslot)
        (ihrest ihm slots rfl hslots)
      rw [Option.map_map] at hmatched ⊢
      exact hmatched
  | absent _ hoptional _ ih ihrest =>
      intro slots heq hslots
      obtain ⟨slot, slots, rfl, rfl, rfl⟩ := List.map_eq_cons_iff.mp heq.symm
      obtain ⟨hslot, hslots⟩ := List.forall_mem_cons.mp hslots
      have habsent := Plain.absent (ih ihm slot.step slot.optional rfl hslot) hoptional
        (ihrest ihm slots rfl hslots)
      rw [Option.map_map] at habsent ⊢
      exact habsent
  | failed _ hoptional ih =>
      intro slots heq hslots
      obtain ⟨slot, slots, rfl, rfl, rfl⟩ := List.map_eq_cons_iff.mp heq.symm
      obtain ⟨hslot, _⟩ := List.forall_mem_cons.mp hslots
      exact .failed (ih ihm slot.step slot.optional rfl hslot) hoptional
  | unseparated _ ih =>
      rintro s s' rfl rfl _ hs'
      exact .unseparated (ih ihm s' false rfl hs')
  | givenBack _ _ ih ihstep =>
      rintro s s' rfl rfl hs hs'
      exact .givenBack (ih ihm s' false rfl hs') (ihstep ihm s false rfl hs)
  | stalled _ _ ih ihstep =>
      rintro s s' rfl rfl hs hs'
      exact .stalled (ih ihm s' false rfl hs') (ihstep ihm s false rfl hs) (Nat.le_refl _)
  | item _ _ hread _ ih ihstep ihmore =>
      rintro s s' rfl rfl hs hs'
      exact .item (ih ihm s' false rfl hs') (ihstep ihm s false rfl hs) hread
        (ihmore ihm s s' rfl rfl hs hs')
  | ended _ ih =>
      rintro ss rfl hss
      cases ih ihm (.choice ss) false rfl hss with
      | choice h => exact .ended h
  | idle _ ih =>
      rintro ss rfl hss
      cases ih ihm (.choice ss) false rfl hss with
      | choice h => exact .idle h (Nat.le_refl _)
  | again _ hread _ ih ihmore =>
      rintro ss rfl hss
      cases ih ihm (.choice ss) false rfl hss with
      | choice h => exact .again h hread (ihmore ihm ss rfl hss)
  | sequence _ ih =>
      intro b hb hdefined hwhole
      cases b with
      | undefined => exact absurd rfl hdefined
      | sequence slots =>
          cases hb
          exact .sequence (ih ihm slots rfl fun slot hslot => hwhole _ (List.mem_map_of_mem hslot))
      | separated | cyclic => cases hb
  | empty _ ih =>
      intro b hb _ hwhole
      cases b with
      | separated item separator allowEmpty =>
          cases hb
          exact .empty (ih ihm item false rfl (hwhole item (by simp [Body.whole])))
      | undefined | sequence | cyclic => cases hb
  | unmatched _ ih =>
      intro b hb _ hwhole
      cases b with
      | separated item separator allowEmpty =>
          cases hb
          exact .unmatched (ih ihm item false rfl (hwhole item (by simp [Body.whole])))
      | undefined | sequence | cyclic => cases hb
  | separated _ _ ih ihmore =>
      intro b hb _ hwhole
      cases b with
      | separated item separator allowEmpty =>
          cases hb
          have hitem := hwhole item (by simp [Body.whole])
          exact .separated (ih ihm item false rfl hitem)
            (ihmore ihm item separator rfl rfl hitem (hwhole separator (by simp [Body.whole])))
      | undefined | sequence | cyclic => cases hb
  | cyclic _ ih =>
      intro b hb _ hwhole
      cases b with
      | cyclic alternatives =>
          cases hb
          exact .cyclic (ih ihm alternatives rfl (hwhole _ (by simp [Body.whole])))
      | undefined | sequence | separated => cases hb

end

variable {g : Grammar α} {root id : RuleId} {c : CompiledGrammar} {s : EvalState}

/-- The steps of rules that can be reached are regular, if the alternatives can be numbered. -/
theorem regular_of_reachable {order : List RuleId} (hreach : g.reachable root = .ok order)
    (hnumbered : ∀ id r, g.Reachable root id → g.rule? id = some r → ∀ s ∈ r.body.whole,
      s.leaves.length ≤ 65536) :
    ∀ id ∈ order, ∀ r, g.rule? id = some r → ∀ s ∈ r.body.whole, g.Regular order s := by
  obtain ⟨_, _, hreachable, _⟩ := reachable_spec hreach
  intro id hid r hr s hs
  exact ⟨leafKnown_of_reachable hreach id hid r hr s hs,
    hnumbered id r ((hreachable id).mp hid) hr s hs⟩

/-- Evaluating a reachable rule of a compiled grammar without caps has an answer, and it is the one
outcome of plain matching, with the same tree and the same end. -/
theorem evaluate_iff_plain {limits : Limits} (hcompile : g.compile root = .ok c)
    (hnumbered : ∀ id r, g.Reachable root id → g.rule? id = some r → ∀ s ∈ r.body.whole,
      s.leaves.length ≤ 65536)
    (hid : g.Reachable root id) (hs : s.Ready c) (hfuel : s.fuel = none)
    (hdepth : limits.depth = none) :
    ∃ o t, c.evaluate limits id s = .ok o t ∧
      ∀ m, Plain g s.cursor.symbols (.rule id) s.cursor.position m ↔
        m = o.map fun tree => ([tree], t.cursor.position) := by
  have hc := consistent_of_compile hcompile
  have hmem : id ∈ c.order := ((covers_of_compile hcompile).mem_order id).mpr hid
  obtain ⟨o, q, log, hrun, hends⟩ := evaluate_run limits hc hmem hs
  obtain ⟨t, heval, _, rfl, _⟩ := (hends (by simp [hdepth])).1 hfuel
  refine ⟨o, t, heval, ?_⟩
  obtain ⟨_, order, hreach, _, rfl⟩ := compile_eq_ok_iff.mp hcompile
  obtain ⟨_, _, _, hsound⟩ := reachable_spec hreach
  have hregular := regular_of_reachable hreach hnumbered
  have hplain : Plain g s.cursor.symbols (.step (.rule id)) s.cursor.position
      (o.map fun tree => ([tree], t.cursor.position)) := by
    have hmeans := means_of_run hsound (Facts.fits_of hsound) hc hregular hrun hmem
    rwa [Option.map_map] at hmeans
  cases hplain with
  | reference hrule =>
      intro m
      constructor
      · exact fun hm => hm.functional hrule
      · rintro rfl
        exact hrule

theorem length_leaves_nested {id : RuleId} {r : Rule Nat} (hr : nested.rule? id = some r) :
    ∀ s ∈ r.body.whole, s.leaves.length ≤ 65536 := by
  have hbody := body_nested id
  rw [hr, Option.map_some] at hbody
  have hall : ∀ b ∈ nestedBodies, ∀ s ∈ b.whole, s.leaves.length ≤ 65536 := by decide
  exact hall r.body (List.mem_of_getElem? hbody.symm)

theorem evaluate_nested_iff_plain : ∃ c, nested.compile ⟨0⟩ = .ok c ∧
    let s := EvalState.initial c {} #[⟨⟨5⟩, 0, "x", true⟩]
    ∃ o t, c.evaluate {} ⟨0⟩ s = .ok o t ∧
      ∀ m, Plain nested #[⟨⟨5⟩, 0, "x", true⟩] (.rule ⟨0⟩) 0 m ↔
        m = o.map fun tree => ([tree], t.cursor.position) := by
  obtain ⟨c, hc⟩ := exists_compile_nested
  refine ⟨c, hc, ?_⟩
  exact evaluate_iff_plain hc (fun _ _ _ => length_leaves_nested) .refl
    (EvalState.ready_initial c {} _) rfl rfl

end Grammar

end Descent
