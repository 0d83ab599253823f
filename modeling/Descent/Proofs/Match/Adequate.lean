import Descent.Proofs.Match.Replay

/-!
# Evaluation follows a run

Each function of the evaluator, started where what it may enter lies below the bound, has a run and
follows its record (`evaluate_follows`). The induction is on the height of the rule entered. A guard
entry of an open rule never lies below the bound, so the guard never matters; and since a repetition
goes on only when it has read something, its fuel lasts.
-/

namespace Descent

namespace CompiledGrammar

/-- The rules that the step refers to can be entered at `p` below the bound. -/
def Low (c : CompiledGrammar) (n m p : Nat) (s : CompiledStep) : Prop :=
  ∀ id, .rule id ∈ s.branches → id ∈ c.order ∧ c.height n id p < m

/-- The steps that a sequence can begin to read in are low at `p`, and all are low further on. -/
def Clear (c : CompiledGrammar) (n m p : Nat) (ss : List CompiledStep) : Prop :=
  (∀ s, c.Leads ss s → c.Low n m p s) ∧ ∀ s ∈ ss, ∀ q, p < q → q ≤ n → c.Low n m q s

/-- The step is low at `p` and further on. -/
def Everywhere (c : CompiledGrammar) (n m p : Nat) (s : CompiledStep) : Prop :=
  c.Low n m p s ∧ ∀ q, p < q → q ≤ n → c.Low n m q s

/-- Whatever rule is open lies at the bound or above. -/
def Standing (c : CompiledGrammar) (m : Nat) (s : EvalState) : Prop :=
  ∀ id p, (s.guard[id.index]?.getD {}).position = some p → m ≤ c.height s.cursor.symbols.size id p

variable {c : CompiledGrammar} {symbols : Array Symbol} {m p q : Nat} {st : CompiledStep}
  {ss : List CompiledStep} {x : Fragment}

theorem Clear.absent (h : c.Clear symbols.size m p (st :: ss)) (hst : c.Skips st) :
    c.Clear symbols.size m p ss :=
  ⟨fun s hs => h.1 s (Or.inr ⟨hst, hs⟩), fun s hs => h.2 s (List.mem_cons_of_mem st hs)⟩

theorem Clear.matched (h : c.Clear symbols.size m p (st :: ss))
    (hst : (Fragment.step st).Progress c symbols p q) : c.Clear symbols.size m q ss := by
  rcases hst with ⟨rfl, hpass⟩ | ⟨hlt, hle, _⟩
  · exact h.absent (Or.inr hpass)
  · have hlater : ∀ s ∈ ss, ∀ r, p < r → r ≤ symbols.size → c.Low symbols.size m r s := fun s hs =>
      h.2 s (List.mem_cons_of_mem st hs)
    exact ⟨fun s hs => hlater s hs.mem q hlt hle,
      fun s hs r hr => hlater s hs r (hlt.trans hr)⟩

theorem Everywhere.after (h : c.Everywhere symbols.size m p st)
    (hx : x.Progress c symbols p q) : c.Everywhere symbols.size m q st := by
  rcases hx with ⟨rfl, _⟩ | ⟨hlt, hle, _⟩
  · exact h
  · exact ⟨h.2 q hlt hle, fun r hr => h.2 r (hlt.trans hr)⟩

theorem Consistent.low_of_leads (hc : c.Consistent) {id : RuleId} {r : CompiledRule} {n : Nat}
    (hr : c.rule? id = some r) (h : c.BodyLeads r.body st) : c.Low n (c.height n id p) p st := by
  intro b hb
  exact ⟨hc.known id r hr st h.mem_steps b hb, hc.height_lt_of_leftEdge ⟨r, st, hr, h, hb⟩⟩

theorem Consistent.low_of_later (hc : c.Consistent) {id : RuleId} {r : CompiledRule} {n : Nat}
    (hr : c.rule? id = some r) (h : st ∈ r.body.steps) (hpq : p < q) (hq : q ≤ n) :
    c.Low n (c.height n id p) q st := by
  intro b hb
  have hmem := hc.known id r hr st h b hb
  exact ⟨hmem, hc.height_lt_of_later hmem hpq hq⟩

theorem Standing.closed {s : EvalState} {id : RuleId} (h : c.Standing m s)
    (hlow : c.height s.cursor.symbols.size id p < m) :
    (s.guard[id.index]?.getD {}).position ≠ some p :=
  fun hopen => Nat.not_lt.mpr (h id p hopen) hlow

theorem Standing.within {s : EvalState} {id : RuleId} (h : c.Standing m s)
    (hlow : c.height s.cursor.symbols.size id p < m) :
    c.Standing (c.height s.cursor.symbols.size id p) (s.within id p) := by
  intro b q hopen
  replace hopen : ((s.guard.setIfInBounds id.index ⟨some p, 0⟩)[b.index]?.getD {}).position =
      some q := hopen
  rw [Array.getElem?_setIfInBounds] at hopen
  split at hopen
  · next heq =>
      cases RuleId.eq_of_index heq
      split at hopen
      · cases hopen
        exact Nat.le_refl _
      · cases hopen
  · exact hlow.le.trans (h b q hopen)

end CompiledGrammar

open CompiledGrammar

theorem rollbackTo_eq {c : Cursor} {p target : Nat} (hcommitted : c.committed ≤ target)
    (htarget : target ≤ p) :
    Cursor.rollbackTo { c with position := p } target = .ok { c with position := target } :=
  if_pos ⟨hcommitted, htarget⟩

theorem rollback_eq {c : Cursor} {p target : Nat} (hcommitted : c.committed ≤ target)
    (htarget : target ≤ p) :
    Cursor.rollback { c with position := p } (p - target) = .ok { c with position := target } := by
  unfold Cursor.rollback
  show (if p - target ≤ p - c.committed then Except.ok { c with position := p - (p - target) }
    else _) = _
  rw [if_pos (by omega), Nat.sub_sub_self htarget]

/-- The evaluation of the fragment at `p` has a run and follows its record. -/
def Tries (c : CompiledGrammar) (limits : Limits) (s : EvalState) (m : Nat) (x : Fragment) (p : Nat)
    (e : Eval (Option MatchTree)) : Prop :=
  ∃ o q log, Run c s.cursor.symbols m x p (o.map fun tree => [tree]) q log ∧
    Follows limits s p e o q log

section Bodies

variable {c : CompiledGrammar} {limits : Limits} {s : EvalState} {m p : Nat}
  {enter : RuleId → Eval (Option MatchTree)} (hc : c.Consistent)
  (henter : ∀ id p, id ∈ c.order → c.height s.cursor.symbols.size id p < m →
    s.cursor.committed ≤ p → Tries c limits s m (.leaf (.rule id)) p (enter id))

theorem terminal_tries {id : TerminalId} :
    Tries c limits s m (.leaf (.terminal id)) p (Eval.terminal c id) := by
  by_cases h : ∃ y, s.cursor.symbols[p]? = some y ∧ c.accepts id y.terminal = true
  · obtain ⟨y, hy, haccepts⟩ := h
    exact ⟨some (.symbol p), p + 1, _, .took hy haccepts, Follows.took hy haccepts⟩
  · have hmissed : ∀ y, s.cursor.symbols[p]? = some y → c.accepts id y.terminal = false := by
      intro y hy
      rw [← Bool.not_eq_true]
      exact fun haccepts => h ⟨y, hy, haccepts⟩
    exact ⟨none, p, _, .missed hmissed, Follows.missed hmissed⟩

include henter in
theorem choose_tries {branches : Array Leaf} {ns : List UInt16}
    (hlow : ∀ id, .rule id ∈ branches → id ∈ c.order ∧ c.height s.cursor.symbols.size id p < m)
    (hp : s.cursor.committed ≤ p) :
    Tries c limits s m (.leaves (ns.filterMap fun n => branches[n.toNat]?)) p
      (Eval.choose c enter branches ns) := by
  induction ns with
  | nil => exact ⟨none, p, [], .exhausted, Follows.pure⟩
  | cons n ns ih =>
      unfold Eval.choose
      cases hl : branches[n.toNat]? with
      | none =>
          simp only [List.filterMap_cons, hl]
          exact ih
      | some l =>
          simp only [List.filterMap_cons, hl]
          have hleaf : Tries c limits s m (.leaf l) p (Eval.leaf c enter l) := by
            cases l with
            | terminal id => exact terminal_tries
            | rule id =>
                obtain ⟨hmem, hheight⟩ := hlow id (Array.mem_of_getElem? hl)
                exact henter id p hmem hheight hp
          obtain ⟨o, q, log, hrun, hfollows⟩ := hleaf
          cases o with
          | some tree =>
              refine ⟨some tree, q, log ++ [], ?_, hfollows.bind Follows.pure⟩
              rw [List.append_nil]
              exact .first hrun
          | none =>
              obtain rfl : q = p := hrun.eq_back rfl
              obtain ⟨o, q, log', hrest, hfollows'⟩ := ih
              exact ⟨o, q, log ++ log', .next hrun hrest, hfollows.bind hfollows'⟩

include henter in
theorem step_tries {st : CompiledStep} (hlow : c.Low s.cursor.symbols.size m p st)
    (hp : s.cursor.committed ≤ p) : Tries c limits s m (.step st) p (Eval.step c enter st) := by
  obtain ⟨o, q, log, hrun, hfollows⟩ := choose_tries henter hlow hp
  exact ⟨o, q, log, .step (fun id hid => (hlow id hid).2) hrun,
    Follows.get (fun _ => rfl) hfollows⟩

include hc henter in
theorem sequence_follows (rule : RuleId) {start : Nat} {ss : List CompiledStep}
    (children : List MatchTree) (hclear : c.Clear s.cursor.symbols.size m p ss)
    (hstart : s.cursor.committed ≤ start) (hp : start ≤ p) :
    ∃ o q log, Run c s.cursor.symbols m (.steps rule start ss) p o q log ∧
      Follows limits s p (Eval.sequence c enter rule start children ss)
        (o.map (children.reverse ++ ·)) q log := by
  induction ss generalizing p children with
  | nil =>
      refine ⟨some [], p, [], .done, ?_⟩
      rw [Option.map_some, List.append_nil]
      exact Follows.pure
  | cons st ss ih =>
      obtain ⟨o, q, log, hrun, hfollows⟩ :=
        step_tries henter (hclear.1 st (Or.inl rfl)) (hstart.trans hp)
      unfold Eval.sequence
      cases o with
      | some tree =>
          have hprogress := hrun.progress hc rfl
          obtain ⟨o, r, log', hrest, hfollows'⟩ :=
            ih (tree :: children) (hclear.matched hprogress) (hp.trans hprogress.le)
          refine ⟨_, r, log ++ log', .matched hrun hrest, ?_⟩
          rw [Option.map_map]
          refine hfollows.bind ?_
          simpa [Function.comp_def] using hfollows'
      | none =>
          -- a step that fails gives back what it has read, so the next one starts at `p` again
          obtain rfl : q = p := hrun.eq_back rfl
          cases hoptional : st.optional with
          | true =>
              obtain ⟨o, r, log', hrest, hfollows'⟩ :=
                ih (.absent :: children) (hclear.absent (Or.inl hoptional)) hp
              refine ⟨_, r, log ++ log', .absent hrun hoptional hrest, ?_⟩
              rw [Option.map_map]
              refine hfollows.bind ?_
              simpa [Function.comp_def] using hfollows'
          | false =>
              refine ⟨none, start, _, .failed hrun hoptional, hfollows.bind ?_⟩
              simp only [Bool.false_eq_true, if_false]
              exact Follows.position.bind
                ((Follows.expect st q).bind (Follows.backtrack (rollbackTo_eq hstart hp)))

include hc henter in
theorem separatedMore_follows (rule : RuleId) {item separator : CompiledStep} {fuel : Nat}
    (items : List MatchTree) (hitem : c.Everywhere s.cursor.symbols.size m p item)
    (hseparator : c.Everywhere s.cursor.symbols.size m p separator)
    (hp : s.cursor.committed ≤ p) (hfuel : s.cursor.symbols.size - p < fuel) :
    ∃ ts q log, Run c s.cursor.symbols m (.more rule item separator) p (some ts) q log ∧
      Follows limits s p (Eval.separatedMore c enter rule item separator fuel items)
        (items.reverse ++ ts) q log := by
  induction fuel generalizing p items with
  | zero => exact absurd hfuel (Nat.not_lt_zero _)
  | succ fuel ih =>
      obtain ⟨o, q, log, hsep, hfollowsSep⟩ := step_tries henter hseparator.1 hp
      unfold Eval.separatedMore
      cases o with
      | none =>
          obtain rfl : q = p := hsep.eq_back rfl
          refine ⟨[], q, log ++ [], ?_, Follows.position.bind (hfollowsSep.bind ?_)⟩
          · rw [List.append_nil]
            exact .unseparated hsep
          · rw [List.append_nil]
            exact Follows.pure
      | some u =>
          have hread := hsep.progress hc rfl
          have hitem := hitem.after hread
          obtain ⟨o, r, log', hstep, hfollowsStep⟩ :=
            step_tries henter hitem.1 (hp.trans hread.le)
          cases o with
          | none =>
              obtain rfl : r = q := hstep.eq_back rfl
              refine ⟨[], p, _, .givenBack hsep hstep,
                Follows.position.bind (hfollowsSep.bind (Follows.position.bind
                  (hfollowsStep.bind ?_)))⟩
              rw [List.append_nil]
              exact (Follows.expect item r).bind (Follows.backtrack (rollback_eq hp hread.le))
          | some tree =>
              have hread' := hstep.progress hc rfl
              -- the loop goes on only past `p`, which is what the fuel is spent on
              by_cases hlt : p < r
              · obtain ⟨ts, t, log'', hmore, hfollows⟩ := ih (tree :: items) (hitem.after hread')
                  ((hseparator.after hread).after hread') (hp.trans hlt.le) (by
                    rcases hread' with ⟨rfl, _⟩ | ⟨_, hle, _⟩
                    · rcases hread with ⟨rfl, _⟩ | ⟨_, hle, _⟩ <;> omega
                    · omega)
                refine ⟨_, t, _, .item hsep hstep hlt hmore,
                  Follows.position.bind (hfollowsSep.bind (Follows.position.bind
                    (hfollowsStep.bind (Follows.position.bind ?_))))⟩
                simp only [gt_iff_lt, hlt, if_true]
                simpa using hfollows
              · obtain rfl : r = p := by
                  have := hread.le
                  have := hread'.le
                  omega
                refine ⟨[], r, log ++ (log' ++ []), ?_,
                  Follows.position.bind (hfollowsSep.bind (Follows.position.bind
                    (hfollowsStep.bind (Follows.position.bind ?_))))⟩
                · rw [List.append_nil]
                  exact .stalled hsep hstep
                · simp only [gt_iff_lt, hlt, if_false]
                  rw [List.append_nil]
                  exact Follows.pure

include hc henter in
theorem cyclic_follows {st : CompiledStep} {fuel : Nat} (items : List MatchTree)
    (hst : c.Everywhere s.cursor.symbols.size m p st) (hp : s.cursor.committed ≤ p)
    (hfuel : s.cursor.symbols.size - p < fuel) :
    ∃ ts q log, Run c s.cursor.symbols m (.again st) p (some ts) q log ∧
      Follows limits s p (Eval.cyclic c enter st fuel items) (items.reverse ++ ts) q log := by
  induction fuel generalizing p items with
  | zero => exact absurd hfuel (Nat.not_lt_zero _)
  | succ fuel ih =>
      obtain ⟨o, q, log, hstep, hfollowsStep⟩ := step_tries henter hst.1 hp
      unfold Eval.cyclic
      cases o with
      | none =>
          obtain rfl : q = p := hstep.eq_back rfl
          refine ⟨[], q, log ++ [], ?_, Follows.position.bind (hfollowsStep.bind ?_)⟩
          · rw [List.append_nil]
            exact .ended hstep
          · rw [List.append_nil]
            exact Follows.pure
      | some tree =>
          have hread := hstep.progress hc rfl
          rcases hread with ⟨rfl, _⟩ | ⟨hlt, hle, _⟩
          · refine ⟨[], q, log ++ [], ?_,
              Follows.position.bind (hfollowsStep.bind (Follows.position.bind ?_))⟩
            · rw [List.append_nil]
              exact .idle hstep
            · simp only [gt_iff_lt, Nat.lt_irrefl, if_false]
              rw [List.append_nil]
              exact Follows.pure
          · obtain ⟨ts, r, log', hmore, hfollows⟩ :=
              ih (tree :: items) (hst.after (hstep.progress hc rfl)) (hp.trans hlt.le) (by omega)
            refine ⟨_, r, _, .again hstep hlt hmore,
              Follows.position.bind (hfollowsStep.bind (Follows.position.bind ?_))⟩
            simp only [gt_iff_lt, hlt, if_true]
            simpa using hfollows

include hc henter in
theorem separated_follows (rule : RuleId) {item separator : CompiledStep} {allowEmpty : Bool}
    (hleads : ∀ st, c.BodyLeads (.separated item separator allowEmpty) st →
      c.Low s.cursor.symbols.size m p st)
    (hlater : ∀ st ∈ (CompiledBody.separated item separator allowEmpty).steps, ∀ q, p < q →
      q ≤ s.cursor.symbols.size → c.Low s.cursor.symbols.size m q st)
    (hp : s.cursor.committed ≤ p) :
    ∃ o q log, Run c s.cursor.symbols m (.body rule (.separated item separator allowEmpty)) p o q
        log ∧
      Follows limits s p (Eval.body c enter rule (.separated item separator allowEmpty)) o q
        log := by
  have hitem : c.Everywhere s.cursor.symbols.size m p item :=
    ⟨hleads item (Or.inl rfl), hlater item (by simp [CompiledBody.steps])⟩
  obtain ⟨o, q, log, hstep, hfollowsStep⟩ := step_tries henter hitem.1 hp
  cases o with
  | none =>
      obtain rfl : q = p := hstep.eq_back rfl
      cases allowEmpty with
      | true =>
          refine ⟨some [], q, log ++ [], ?_, Follows.position.bind (hfollowsStep.bind ?_)⟩
          · rw [List.append_nil]
            exact .empty hstep
          · exact Follows.pure
      | false =>
          exact ⟨none, q, _, .unmatched hstep,
            Follows.position.bind (hfollowsStep.bind ((Follows.expect item q).bind
              Follows.pure))⟩
  | some tree =>
      have hread := hstep.progress hc rfl
      -- after an item that read nothing the separator is among the steps the rule can begin with
      have hseparator : c.Everywhere s.cursor.symbols.size m q separator := by
        have hmem : separator ∈ (CompiledBody.separated item separator allowEmpty).steps := by
          simp [CompiledBody.steps]
        rcases hread with ⟨rfl, hpass⟩ | ⟨hlt, hle, _⟩
        · exact ⟨hleads separator (Or.inr ⟨rfl, hpass⟩), hlater separator hmem⟩
        · exact ⟨hlater separator hmem q hlt hle,
            fun t ht => hlater separator hmem t (hlt.trans ht)⟩
      have hfuel : s.cursor.symbols.size - q < s.cursor.symbols.size + 1 := by omega
      obtain ⟨ts, t, log', hmore, hfollows⟩ :=
        separatedMore_follows hc henter rule [tree] (hitem.after hread) hseparator
          (hp.trans hread.le) hfuel
      have hsome := hfollows.map some
      exact ⟨_, t, _, .separated hstep hmore,
        Follows.position.bind (hfollowsStep.bind (Follows.get (fun _ => rfl) hsome))⟩

include hc henter in
theorem body_follows {id : RuleId} {r : CompiledRule} (hr : c.rule? id = some r)
    (hm : m = c.height s.cursor.symbols.size id p) (hp : s.cursor.committed ≤ p) :
    ∃ o q log, Run c s.cursor.symbols m (.body id r.body) p o q log ∧
      Follows limits s p (Eval.body c enter id r.body) o q log := by
  subst hm
  have hleads : ∀ st, c.BodyLeads r.body st → c.Low s.cursor.symbols.size _ p st := fun st hst =>
    hc.low_of_leads hr hst
  have hlater : ∀ st ∈ r.body.steps, ∀ q, p < q → q ≤ s.cursor.symbols.size →
      c.Low s.cursor.symbols.size (c.height s.cursor.symbols.size id p) q st := fun st hst q =>
    hc.low_of_later hr hst
  generalize r.body = b at hleads hlater
  cases b with
  | sequence ss =>
      obtain ⟨o, q, log, hrun, hfollows⟩ :=
        sequence_follows hc henter id [] ⟨hleads, hlater⟩ hp (Nat.le_refl p)
      refine ⟨o, q, log, .sequence hrun, Follows.position.bind ?_⟩
      simpa using hfollows
  | separated item separator allowEmpty => exact separated_follows hc henter id hleads hlater hp
  | cyclic st =>
      have hst : c.Everywhere s.cursor.symbols.size _ p st :=
        ⟨hleads st rfl, hlater st (by simp [CompiledBody.steps])⟩
      have hfuel : s.cursor.symbols.size - p < s.cursor.symbols.size + 1 := by omega
      obtain ⟨ts, q, log, hmore, hfollows⟩ := cyclic_follows hc henter [] hst hp hfuel
      have hsome := hfollows.map some
      exact ⟨some ts, q, _, .cyclic hmore, Follows.get (fun _ => rfl) hsome⟩

end Bodies

section Rules

variable {c : CompiledGrammar} {s : EvalState} {id : RuleId} (limits : Limits)

/-- A rule below the bound, where nothing is open below the bound, follows a run. -/
theorem rule_tries (hc : c.Consistent) {m k p : Nat} (hid : id ∈ c.order)
    (hlow : c.height s.cursor.symbols.size id p < m)
    (hk : c.height s.cursor.symbols.size id p < k) (hs : c.Standing m s)
    (hp : s.cursor.committed ≤ p) :
    Tries c limits s m (.leaf (.rule id)) p (Eval.rule c limits k id) := by
  induction hh : c.height s.cursor.symbols.size id p using Nat.strong_induction_on
    generalizing s id m k p with
  | h h ih =>
      subst hh
      obtain ⟨r, hr⟩ := hc.isSome hid
      obtain ⟨k, rfl⟩ : ∃ j, k = j + 1 := ⟨k - 1, by omega⟩
      have henter : ∀ b q, b ∈ c.order → c.height s.cursor.symbols.size b q <
          c.height s.cursor.symbols.size id p → s.cursor.committed ≤ q →
          Tries c limits (s.within id p) (c.height s.cursor.symbols.size id p) (.leaf (.rule b)) q
            (Eval.rule c limits k b) := fun b q hb hlt hq =>
        ih _ hlt hb hlt (hlt.trans_le (Nat.le_of_lt_succ hk)) (hs.within hlow) hq rfl
      obtain ⟨o, q, log, hrun, hfollows⟩ := body_follows (s := s.within id p) hc henter hr rfl hp
      refine ⟨o.map (.rule id), q, _, ?_, Follows.rule hr (hs.closed hlow) hfollows⟩
      rw [Option.map_map]
      exact .rule hr hlow hrun

namespace EvalState

/-- No rule is open, and the cursor has not been moved behind its mark. -/
structure Ready (c : CompiledGrammar) (s : EvalState) : Prop where
  guard : s.guard = Array.replicate c.rules.size {}
  depth : s.depth = 0
  committed : s.cursor.committed ≤ s.cursor.position

/-- The account that a state keeps. -/
def ledger (s : EvalState) : Ledger := ⟨s.depth, s.fuel, s.furthest, s.events⟩

theorem ready_initial (c : CompiledGrammar) (limits : Limits) (symbols : Array Symbol) :
    (initial c limits symbols).Ready c :=
  ⟨rfl, rfl, Nat.le_refl _⟩

theorem Ready.resume {s : EvalState} (h : s.Ready c) {p : Nat} (hp : s.cursor.position ≤ p)
    (l : Ledger) : (s.resume l p).Ready c :=
  ⟨h.guard, h.depth, h.committed.trans hp⟩

theorem Ready.standing {s : EvalState} (h : s.Ready c) (m : Nat) : c.Standing m s := by
  intro b q hopen
  rw [h.guard, Array.getElem?_replicate] at hopen
  split at hopen <;> cases hopen

/-- The guard allows for more nesting than there are heights. -/
theorem Ready.height_lt_nesting {s : EvalState} (hc : c.Consistent) (h : s.Ready c)
    (hid : id ∈ c.order) {p : Nat} : c.height s.cursor.symbols.size id p < s.nesting := by
  have hheight : c.height s.cursor.symbols.size id p <
      c.order.length * (s.cursor.symbols.size + 1) := hc.height_lt hid
  have hle : c.order.length * (s.cursor.symbols.size + 1) ≤
      c.rules.size * (s.cursor.symbols.size + 1) := Nat.mul_le_mul_right _ hc.length_order_le
  have hsize : s.guard.size = c.rules.size := by rw [h.guard, Array.size_replicate]
  unfold nesting maxReentries
  rw [hsize, Nat.mul_assoc]
  omega

end EvalState

namespace Follows

variable {limits} {β : Type} {x : Eval β} {b : β} {l : Ledger} {e : Fault × Ledger}

theorem of_replay_ok (h : Follows limits s s.cursor.position x b q log)
    (hl : s.ledger.replay limits log = .ok l) : x s = .ok b (s.resume l q) := by
  have hends := h s.ledger rfl
  rw [hl] at hends
  exact hends.2

theorem of_replay_error (h : Follows limits s s.cursor.position x b q log)
    (hl : s.ledger.replay limits log = .error e) : ∃ r, x s = .error e.1 (s.resume e.2 r) := by
  have hends := h s.ledger rfl
  rw [hl] at hends
  exact hends

end Follows

/-- An evaluation with no rule open has a run and follows its record. -/
theorem evaluate_follows (hc : c.Consistent) (hid : id ∈ c.order) (hs : s.Ready c) :
    ∃ o q log, Run c s.cursor.symbols (c.order.length * (s.cursor.symbols.size + 1))
        (.leaf (.rule id)) s.cursor.position (o.map fun tree => [tree]) q log ∧
      Follows limits s s.cursor.position (c.evaluate limits id) o q log := by
  obtain ⟨o, q, log, hrun, hfollows⟩ := rule_tries limits hc hid (hc.height_lt hid)
    (hs.height_lt_nesting hc hid) (hs.standing _) hs.committed
  exact ⟨o, q, log, hrun, Follows.get (fun _ => rfl) hfollows⟩

end Rules

end Descent
