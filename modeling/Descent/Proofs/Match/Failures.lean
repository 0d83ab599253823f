import Descent.Proofs.Match.Expected

/-!
# What is furthest, and what failed

A step has to match if it stands in a sequence and may not be absent, if it is the first item where
one is needed, or if it is the item behind a separator (`Lacks`). `Fails` collects all the places of
an evaluation at which such a step does not match, however deep and whatever comes of the rules
around it. It is stated without the record, from what an evaluation works on in turn (`Calls`), and
the record of a run notes exactly these places (`Run.failed_mem_iff`).

What an evaluation holds for furthest is then read off: the largest position at which a step fails,
with the first sets of all the steps that fail there, each terminal where it is first mentioned
(`Grammar.evaluate_furthest`). Something is always expected there: a step that no terminal can begin
is tried with an alternative that reads nothing, and so cannot fail
(`Grammar.first_ne_nil_of_run`).
-/

namespace Descent

/-! ## The parts of an evaluation -/

/-- Evaluation of the fragment at `p` works on the second fragment at `p'`. -/
inductive Calls (c : CompiledGrammar) (symbols : Array Symbol) :
    Fragment → Nat → Fragment → Nat → Prop where
  | rule {p id r} (hr : c.rule? id = some r) :
      Calls c symbols (.leaf (.rule id)) p (.body id r.body) p
  | first {p l ls} : Calls c symbols (.leaves (l :: ls)) p (.leaf l) p
  | next {m p l ls q log} (leaf : Run c symbols m (.leaf l) p none q log) :
      Calls c symbols (.leaves (l :: ls)) p (.leaves ls) p
  | step {p s} :
      Calls c symbols (.step s) p (.leaves (s.tries (symbols[p]?.map (·.terminal)))) p
  | head {p rule start s ss} : Calls c symbols (.steps rule start (s :: ss)) p (.step s) p
  | matched {m p rule start s ss ts q log} (step : Run c symbols m (.step s) p (some ts) q log) :
      Calls c symbols (.steps rule start (s :: ss)) p (.steps rule start ss) q
  | absent {m p rule start s ss q log} (step : Run c symbols m (.step s) p none q log)
      (hoptional : s.optional = true) :
      Calls c symbols (.steps rule start (s :: ss)) p (.steps rule start ss) p
  | separator {p rule item separator} :
      Calls c symbols (.more rule item separator) p (.step separator) p
  | item {m p rule item separator us q log}
      (sep : Run c symbols m (.step separator) p (some us) q log) :
      Calls c symbols (.more rule item separator) p (.step item) q
  | more {m m' p rule item separator us ts q q' log log'}
      (sep : Run c symbols m (.step separator) p (some us) q log)
      (step : Run c symbols m' (.step item) q (some ts) q' log') (hread : p < q') :
      Calls c symbols (.more rule item separator) p (.more rule item separator) q'
  | once {p s} : Calls c symbols (.again s) p (.step s) p
  | again {m p s ts q log} (step : Run c symbols m (.step s) p (some ts) q log) (hread : p < q) :
      Calls c symbols (.again s) p (.again s) q
  | sequence {p rule ss} : Calls c symbols (.body rule (.sequence ss)) p (.steps rule p ss) p
  | leading {p rule item separator allowEmpty} :
      Calls c symbols (.body rule (.separated item separator allowEmpty)) p (.step item) p
  | items {m p rule item separator allowEmpty ts q log}
      (step : Run c symbols m (.step item) p (some ts) q log) :
      Calls c symbols (.body rule (.separated item separator allowEmpty)) p
        (.more rule item separator) q
  | cyclic {p rule s} : Calls c symbols (.body rule (.cyclic s)) p (.again s) p

/-- Evaluation of the fragment at `p` ends because the step has to match at `q` and does not. -/
inductive Lacks (c : CompiledGrammar) (symbols : Array Symbol) :
    Fragment → Nat → CompiledStep → Nat → Prop where
  /-- A step of a sequence that may not be absent. -/
  | needed {m p rule start s ss q log} (step : Run c symbols m (.step s) p none q log)
      (hoptional : s.optional = false) : Lacks c symbols (.steps rule start (s :: ss)) p s p
  /-- The first item where there has to be one. -/
  | first {m p rule item separator q log} (step : Run c symbols m (.step item) p none q log) :
      Lacks c symbols (.body rule (.separated item separator false)) p item p
  /-- The item behind a separator that has matched. -/
  | behind {m m' p rule item separator us q q' log log'}
      (sep : Run c symbols m (.step separator) p (some us) q log)
      (step : Run c symbols m' (.step item) q none q' log') :
      Lacks c symbols (.more rule item separator) p item q

/-- Somewhere in the evaluation of the fragment at `p` the step fails at `q` though it has to
match. -/
inductive Fails (c : CompiledGrammar) (symbols : Array Symbol) :
    Fragment → Nat → CompiledStep → Nat → Prop where
  | here {x p s q} (h : Lacks c symbols x p s q) : Fails c symbols x p s q
  | inside {x y p p' s q} (call : Calls c symbols x p y p') (h : Fails c symbols y p' s q) :
      Fails c symbols x p s q

section

variable {c : CompiledGrammar} {symbols : Array Symbol} {m p p' q : Nat} {x y : Fragment}
  {s : CompiledStep} {o : Option (List MatchTree)} {log : List Note}

/-! ## Runs and the parts they have -/

/-- A run has a run for every part that is worked on. -/
theorem Calls.exists_run (hcall : Calls c symbols x p y p') (h : Run c symbols m x p o q log) :
    ∃ m' o' q' log', Run c symbols m' y p' o' q' log' ∧ log' ⊆ log := by
  -- a part that both have comes out the same, which leaves one constructor for the run
  cases hcall with
  | rule hr =>
      cases h with
      | rule hr' _ body =>
          cases hr.symm.trans hr'
          refine ⟨_, _, _, _, body, fun n hn => ?_⟩
          simp [hn]
  | first =>
      cases h with
      | first leaf => exact ⟨_, _, _, _, leaf, List.Subset.refl _⟩
      | next leaf _ => exact ⟨_, _, _, _, leaf, List.subset_append_left _ _⟩
  | next hleaf =>
      cases h with
      | first leaf => cases (hleaf.functional leaf).1
      | next _ rest => exact ⟨_, _, _, _, rest, List.subset_append_right _ _⟩
  | step =>
      cases h with
      | step _ leaves => exact ⟨_, _, _, _, leaves, List.Subset.refl _⟩
  | head =>
      cases h with
      | matched step _ => exact ⟨_, _, _, _, step, List.subset_append_left _ _⟩
      | absent step _ _ => exact ⟨_, _, _, _, step, List.subset_append_left _ _⟩
      | failed step _ => exact ⟨_, _, _, _, step, List.subset_append_left _ _⟩
  | matched hstep =>
      cases h with
      | matched step rest =>
          obtain ⟨_, rfl, _⟩ := hstep.functional step
          exact ⟨_, _, _, _, rest, List.subset_append_right _ _⟩
      | absent step => cases (hstep.functional step).1
      | failed step => cases (hstep.functional step).1
  | absent hstep hoptional =>
      cases h with
      | matched step => cases (hstep.functional step).1
      | absent _ _ rest => exact ⟨_, _, _, _, rest, List.subset_append_right _ _⟩
      | failed _ hoptional' =>
          rw [hoptional] at hoptional'
          cases hoptional'
  | separator =>
      cases h with
      | unseparated sep => exact ⟨_, _, _, _, sep, List.Subset.refl _⟩
      | givenBack sep _ => exact ⟨_, _, _, _, sep, List.subset_append_left _ _⟩
      | stalled sep _ => exact ⟨_, _, _, _, sep, List.subset_append_left _ _⟩
      | item sep _ _ _ => exact ⟨_, _, _, _, sep, List.subset_append_left _ _⟩
  | item hsep =>
      cases h with
      | unseparated sep => cases (hsep.functional sep).1
      | givenBack sep step =>
          obtain ⟨_, rfl, _⟩ := hsep.functional sep
          refine ⟨_, _, _, _, step, fun n hn => ?_⟩
          simp [hn]
      | stalled sep step =>
          obtain ⟨_, rfl, _⟩ := hsep.functional sep
          exact ⟨_, _, _, _, step, List.subset_append_right _ _⟩
      | item sep step _ _ =>
          obtain ⟨_, rfl, _⟩ := hsep.functional sep
          refine ⟨_, _, _, _, step, fun n hn => ?_⟩
          simp [hn]
  | more hsep hstep hread =>
      cases h with
      | unseparated sep => cases (hsep.functional sep).1
      | givenBack sep step =>
          obtain ⟨_, rfl, _⟩ := hsep.functional sep
          cases (hstep.functional step).1
      | stalled sep step =>
          obtain ⟨_, rfl, _⟩ := hsep.functional sep
          obtain ⟨_, rfl, _⟩ := hstep.functional step
          exact absurd hread (Nat.lt_irrefl _)
      | item sep step _ more =>
          obtain ⟨_, rfl, _⟩ := hsep.functional sep
          obtain ⟨_, rfl, _⟩ := hstep.functional step
          refine ⟨_, _, _, _, more, fun n hn => ?_⟩
          simp [hn]
  | once =>
      cases h with
      | ended step => exact ⟨_, _, _, _, step, List.Subset.refl _⟩
      | idle step => exact ⟨_, _, _, _, step, List.Subset.refl _⟩
      | again step _ _ => exact ⟨_, _, _, _, step, List.subset_append_left _ _⟩
  | again hstep hread =>
      cases h with
      | ended step => cases (hstep.functional step).1
      | idle step =>
          obtain ⟨_, rfl, _⟩ := hstep.functional step
          exact absurd hread (Nat.lt_irrefl _)
      | again step _ more =>
          obtain ⟨_, rfl, _⟩ := hstep.functional step
          exact ⟨_, _, _, _, more, List.subset_append_right _ _⟩
  | sequence =>
      cases h with
      | sequence steps => exact ⟨_, _, _, _, steps, List.Subset.refl _⟩
  | leading =>
      cases h with
      | empty step => exact ⟨_, _, _, _, step, List.Subset.refl _⟩
      | unmatched step => exact ⟨_, _, _, _, step, List.subset_append_left _ _⟩
      | separated step _ => exact ⟨_, _, _, _, step, List.subset_append_left _ _⟩
  | items hstep =>
      cases h with
      | empty step => cases (hstep.functional step).1
      | unmatched step => cases (hstep.functional step).1
      | separated step more =>
          obtain ⟨_, rfl, _⟩ := hstep.functional step
          exact ⟨_, _, _, _, more, List.subset_append_right _ _⟩
  | cyclic =>
      cases h with
      | cyclic more => exact ⟨_, _, _, _, more, List.Subset.refl _⟩

/-- A run notes the step that it lacks. -/
theorem Lacks.mem_log (hlacks : Lacks c symbols x p s p') (h : Run c symbols m x p o q log) :
    .failed p' s.first ∈ log := by
  cases hlacks with
  | needed hstep hoptional =>
      cases h with
      | matched step => cases (hstep.functional step).1
      | absent _ hoptional' =>
          rw [hoptional] at hoptional'
          cases hoptional'
      | failed => simp
  | first hstep =>
      cases h with
      | unmatched => simp
      | separated step => cases (hstep.functional step).1
  | behind hsep hstep =>
      cases h with
      | unseparated sep => cases (hsep.functional sep).1
      | givenBack sep _ =>
          obtain ⟨_, rfl, _⟩ := hsep.functional sep
          simp
      | stalled sep step =>
          obtain ⟨_, rfl, _⟩ := hsep.functional sep
          cases (hstep.functional step).1
      | item sep step =>
          obtain ⟨_, rfl, _⟩ := hsep.functional sep
          cases (hstep.functional step).1

theorem Fails.mem_log (hfails : Fails c symbols x p s p') (h : Run c symbols m x p o q log) :
    .failed p' s.first ∈ log := by
  induction hfails generalizing m o q log with
  | here hlacks => exact hlacks.mem_log h
  | inside hcall _ ih =>
      obtain ⟨_, _, _, _, h', hsub⟩ := hcall.exists_run h
      exact hsub (ih h')

theorem Note.failed_not_mem_backtrack {rule : RuleId} {source target : Nat}
    {first : List TerminalId} : .failed p first ∉ Note.backtrack rule source target := by
  unfold Note.backtrack
  split <;> simp

/-- Whatever a run notes has failed. -/
theorem Run.exists_fails (h : Run c symbols m x p o q log) {first : List TerminalId}
    (hmem : .failed p' first ∈ log) : ∃ s, Fails c symbols x p s p' ∧ s.first = first := by
  -- what a part has noted has failed in the part
  have inside : ∀ {x y : Fragment} {p p'' : Nat}, Calls c symbols x p y p'' →
      (∃ s, Fails c symbols y p'' s p' ∧ s.first = first) →
      ∃ s, Fails c symbols x p s p' ∧ s.first = first :=
    fun hcall hfails => hfails.imp fun _ h => ⟨.inside hcall h.1, h.2⟩
  induction h with
  | took | missed => simp at hmem
  | exhausted | done => cases hmem
  | rule hr _ _ ih =>
      simp only [List.mem_cons, List.mem_append, reduceCtorEq, false_or, List.not_mem_nil,
        or_false] at hmem
      exact inside (.rule hr) (ih hmem)
  | first _ ih => exact inside .first (ih hmem)
  | next leaf _ ih ihrest =>
      rcases List.mem_append.mp hmem with hmem | hmem
      · exact inside .first (ih hmem)
      · exact inside (.next leaf) (ihrest hmem)
  | step _ _ ih => exact inside .step (ih hmem)
  | matched step _ ih ihrest =>
      rcases List.mem_append.mp hmem with hmem | hmem
      · exact inside .head (ih hmem)
      · exact inside (.matched step) (ihrest hmem)
  | absent step hoptional _ ih ihrest =>
      rcases List.mem_append.mp hmem with hmem | hmem
      · exact inside .head (ih hmem)
      · exact inside (.absent step hoptional) (ihrest hmem)
  | failed step hoptional ih =>
      rcases List.mem_append.mp hmem with hmem | hmem
      · exact inside .head (ih hmem)
      · rcases List.mem_cons.mp hmem with heq | hmem
        · cases heq
          exact ⟨_, .here (.needed step hoptional), rfl⟩
        · exact absurd hmem Note.failed_not_mem_backtrack
  | unseparated _ ih => exact inside .separator (ih hmem)
  | givenBack sep step ih ihstep =>
      rcases List.mem_append.mp hmem with hmem | hmem
      · exact inside .separator (ih hmem)
      · rcases List.mem_append.mp hmem with hmem | hmem
        · exact inside (.item sep) (ihstep hmem)
        · rcases List.mem_cons.mp hmem with heq | hmem
          · cases heq
            exact ⟨_, .here (.behind sep step), rfl⟩
          · exact absurd hmem Note.failed_not_mem_backtrack
  | stalled sep _ ih ihstep =>
      rcases List.mem_append.mp hmem with hmem | hmem
      · exact inside .separator (ih hmem)
      · exact inside (.item sep) (ihstep hmem)
  | item sep step hread _ ih ihstep ihmore =>
      rcases List.mem_append.mp hmem with hmem | hmem
      · exact inside .separator (ih hmem)
      · rcases List.mem_append.mp hmem with hmem | hmem
        · exact inside (.item sep) (ihstep hmem)
        · exact inside (.more sep step hread) (ihmore hmem)
  | ended _ ih | idle _ ih => exact inside .once (ih hmem)
  | again step hread _ ih ihmore =>
      rcases List.mem_append.mp hmem with hmem | hmem
      · exact inside .once (ih hmem)
      · exact inside (.again step hread) (ihmore hmem)
  | sequence _ ih => exact inside .sequence (ih hmem)
  | empty _ ih => exact inside .leading (ih hmem)
  | unmatched step ih =>
      rcases List.mem_append.mp hmem with hmem | hmem
      · exact inside .leading (ih hmem)
      · cases List.mem_singleton.mp hmem
        exact ⟨_, .here (.first step), rfl⟩
  | separated step _ ih ihmore =>
      rcases List.mem_append.mp hmem with hmem | hmem
      · exact inside .leading (ih hmem)
      · exact inside (.items step) (ihmore hmem)
  | cyclic _ ih => exact inside .cyclic (ih hmem)

/-- The record of a run notes what fails, and nothing else. -/
theorem Run.failed_mem_iff (h : Run c symbols m x p o q log) {first : List TerminalId} :
    .failed p' first ∈ log ↔ ∃ s, Fails c symbols x p s p' ∧ s.first = first := by
  constructor
  · exact h.exists_fails
  · rintro ⟨s, hfails, rfl⟩
    exact hfails.mem_log h

/-! ## Where steps fail -/

section

variable (hc : c.Consistent)

include hc

theorem Calls.bounds (hcall : Calls c symbols x p y p') :
    p ≤ p' ∧ (p ≤ symbols.size → p' ≤ symbols.size) := by
  cases hcall with
  | rule | first | next | step | head | absent | separator | once | sequence | leading | cyclic =>
      exact ⟨Nat.le_refl p, fun hp => hp⟩
  | matched step | item step | again step | items step =>
      have hstep := step.progress hc rfl
      exact ⟨hstep.le, hstep.within⟩
  | more sep step =>
      have hsep := sep.progress hc rfl
      have hstep := step.progress hc rfl
      exact ⟨hsep.le.trans hstep.le, fun hp => hstep.within (hsep.within hp)⟩

theorem Lacks.bounds (hlacks : Lacks c symbols x p s p') :
    p ≤ p' ∧ (p ≤ symbols.size → p' ≤ symbols.size) := by
  cases hlacks with
  | needed | first => exact ⟨Nat.le_refl p, fun hp => hp⟩
  | behind sep =>
      have hsep := sep.progress hc rfl
      exact ⟨hsep.le, hsep.within⟩

/-- A step fails no earlier than the evaluation begins, and not behind the symbols. -/
theorem Fails.bounds (hfails : Fails c symbols x p s p') :
    p ≤ p' ∧ (p ≤ symbols.size → p' ≤ symbols.size) := by
  induction hfails with
  | here hlacks => exact hlacks.bounds hc
  | inside hcall _ ih =>
      obtain ⟨hle, hwithin⟩ := hcall.bounds hc
      exact ⟨hle.trans ih.1, fun hp => ih.2 (hwithin hp)⟩

end

/-- The step is one of a rule. -/
def CompiledGrammar.HasStep (c : CompiledGrammar) (s : CompiledStep) : Prop :=
  ∃ id r, c.rule? id = some r ∧ s ∈ r.body.steps

theorem Calls.all (hcall : Calls c symbols x p y p') (h : x.All c.HasStep) : y.All c.HasStep := by
  cases hcall with
  | rule hr => exact fun s hs => ⟨_, _, hr, hs⟩
  | first | next | step => trivial
  | head => exact h _ List.mem_cons_self
  | matched | absent => exact fun s hs => h s (List.mem_cons_of_mem _ hs)
  | separator => exact h.2
  | item => exact h.1
  | more | once | again | sequence => exact h
  | leading => exact h _ List.mem_cons_self
  | items => exact ⟨h _ List.mem_cons_self, h _ (by simp [CompiledBody.steps])⟩
  | cyclic => exact h _ (List.mem_singleton_self _)

theorem Lacks.exists_run (hlacks : Lacks c symbols x p s p') (h : x.All c.HasStep) :
    c.HasStep s ∧ ∃ m q log, Run c symbols m (.step s) p' none q log := by
  cases hlacks with
  | needed step => exact ⟨h _ List.mem_cons_self, _, _, _, step⟩
  | first step => exact ⟨h _ List.mem_cons_self, _, _, _, step⟩
  | behind _ step => exact ⟨h.1, _, _, _, step⟩

/-- What fails is a step of a rule that does not match where it fails. -/
theorem Fails.exists_run (hfails : Fails c symbols x p s p') (h : x.All c.HasStep) :
    c.HasStep s ∧ ∃ m q log, Run c symbols m (.step s) p' none q log := by
  induction hfails with
  | here hlacks => exact hlacks.exists_run h
  | inside hcall _ ih => exact ih (hcall.all h)

/-- A rule that does not match has a step that fails. -/
theorem Run.exists_failed_of_rule (hc : c.Consistent) {id : RuleId}
    (h : Run c symbols m (.leaf (.rule id)) p o q log) (ho : o = none) :
    ∃ p' first, .failed p' first ∈ log := by
  cases h with
  | @rule _ _ _ r _ _ _ _ _ body =>
      have ho := Option.map_eq_none_iff.mp ho
      subst ho
      generalize r.body = b at body
      cases body with
      | sequence steps =>
          obtain ⟨p', first, hmem, _⟩ := steps.exists_failed_of_steps hc rfl
          exact ⟨p', first, by simp [hmem]⟩
      | @unmatched _ _ _ item _ _ _ => exact ⟨p, item.first, by simp⟩

/-! ## What is furthest -/

/-- What is held for furthest tells of what fails in the evaluation of the fragment at `p`: it
stands at the largest position at which a step fails, and expects there what the steps that fail
there can begin with. -/
structure Furthest.Tells (c : CompiledGrammar) (symbols : Array Symbol) (x : Fragment) (p : Nat)
    (log : List Note) (f : Furthest) : Prop where
  attained : ∃ s, Fails c symbols x p s f.position
  largest : ∀ s q, Fails c symbols x p s q → q ≤ f.position
  bounds : p ≤ f.position ∧ (p ≤ symbols.size → f.position ≤ symbols.size)
  mem_expected : ∀ t, t ∈ f.expected ↔ ∃ s, Fails c symbols x p s f.position ∧ t ∈ s.first
  ordered : f.expected = (Note.firstsAt f.position log).flatten.eraseDups
  nodup : f.expected.Nodup
  ne_nil : f.expected ≠ []

theorem Run.mark_eq_none_iff (h : Run c symbols m x p o q log) :
    log.foldl Note.mark none = none ↔ ∀ s p', ¬ Fails c symbols x p s p' := by
  cases hheld : log.foldl Note.mark none with
  | none =>
      have hsum := Note.sumUp_mark log
      rw [hheld] at hsum
      exact iff_of_true rfl fun s p' hfails => hsum p' s.first (hfails.mem_log h)
  | some f =>
      obtain ⟨first, hreached⟩ := (Note.sums_of_mark hheld).reached
      obtain ⟨s, hfails, _⟩ := h.exists_fails hreached
      exact iff_of_false (by simp) fun hnot => hnot s _ hfails

theorem Run.tells (hc : c.Consistent) (h : Run c symbols m x p o q log) (hall : x.All c.HasStep)
    (hnodup : ∀ s, c.HasStep s → s.first.Nodup)
    (hsome : ∀ s, c.HasStep s → ∀ m p q log, Run c symbols m (.step s) p none q log →
      s.first ≠ []) {f : Furthest} (hf : log.foldl Note.mark none = some f) :
    f.Tells c symbols x p log := by
  have hlog : ∀ p first, .failed p first ∈ log → first.Nodup := by
    intro p first hmem
    obtain ⟨s, hfails, rfl⟩ := h.exists_fails hmem
    exact hnodup s (hfails.exists_run hall).1
  have hdistinct : ∀ f ∈ log.foldl Note.mark none, f.expected.Nodup := Note.nodup_mark nofun hlog
  have hsum := Note.sums_of_mark hf
  obtain ⟨first, hreached⟩ := hsum.reached
  obtain ⟨s, hfails, rfl⟩ := h.exists_fails hreached
  have hmem : ∀ t, t ∈ f.expected ↔ ∃ s, Fails c symbols x p s f.position ∧ t ∈ s.first := by
    intro t
    rw [hsum.mem_iff]
    constructor
    · rintro ⟨first, hfirst, ht⟩
      obtain ⟨s, hfails, rfl⟩ := h.exists_fails hfirst
      exact ⟨s, hfails, ht⟩
    · rintro ⟨s, hfails, ht⟩
      exact ⟨s.first, hfails.mem_log h, ht⟩
  have hne : f.expected ≠ [] := by
    obtain ⟨hs, m, q, log, hrun⟩ := hfails.exists_run hall
    obtain ⟨t, ht⟩ := List.exists_mem_of_ne_nil _ (hsome s hs m _ q log hrun)
    exact List.ne_nil_of_mem ((hmem t).mpr ⟨s, hfails, ht⟩)
  exact {
    attained := ⟨s, hfails⟩
    largest := fun s q hfails => hsum.furthest q s.first (hfails.mem_log h)
    bounds := hfails.bounds hc
    mem_expected := hmem
    ordered := Note.expected_mark hlog f hf
    nodup := hdistinct f hf
    ne_nil := hne }

end

namespace Grammar

variable {α : Type} {g : Grammar α} {root id : RuleId} {c : CompiledGrammar} {s : CompiledStep}

/-- Each alternative of a step that no terminal can begin reads nothing, and the first one keeps its
number however many there are. -/
theorem exists_passes_of_not_begins (hcompile : g.compile root = .ok c) (hs : c.HasStep s)
    (hnone : ∀ t, ¬ c.StepBegins t s) (ahead : Option TerminalId) :
    ∃ l ∈ s.tries ahead, c.LeafPasses l := by
  have hexact := exact_of_compile hcompile
  obtain ⟨id, r, hr, hs⟩ := hs
  obtain ⟨_, hbranch⟩ := hexact.branches id r hr s hs
  have hpos : 0 < s.branches.size := Array.size_pos_of_mem hbranch
  have hl : s.branches[0]? = some s.branches[0] := Array.getElem?_eq_getElem hpos
  have hmem : s.branches[0] ∈ s.branches := Array.mem_of_getElem? hl
  have hpass : c.LeafPasses s.branches[0] :=
    (hexact.passes_or_begins (consistent_of_compile hcompile) hr hs hmem).resolve_right
      fun ⟨t, ht⟩ => hnone t ⟨_, hmem, ht⟩
  have hnumber : 0 ∈ (s.candidates ahead).map UInt16.toNat := by
    rw [toNat_candidates hcompile hr hs]
    exact List.mem_map.mpr ⟨0, mem_positions.mpr ⟨_, hl, Or.inl hpass⟩, rfl⟩
  obtain ⟨n, hn, hzero⟩ := List.mem_map.mp hnumber
  refine ⟨_, List.mem_filterMap.mpr ⟨n, hn, ?_⟩, hpass⟩
  rw [hzero, hl]

/-- A step that fails can begin with some terminal. -/
theorem first_ne_nil_of_run (hcompile : g.compile root = .ok c) (hs : c.HasStep s)
    {symbols : Array Symbol} {m p q : Nat} {log : List Note}
    (h : Run c symbols m (.step s) p none q log) : s.first ≠ [] := by
  have hc := consistent_of_compile hcompile
  have hexact := exact_of_compile hcompile
  intro hempty
  obtain ⟨id, r, hr, hmem⟩ := id hs
  have hnone : ∀ t, ¬ c.StepBegins t s := by
    intro t ht
    have ht := ((keyed_of_compile hcompile hr hmem).mem_first t).mpr ht
    rw [hempty] at ht
    cases ht
  obtain ⟨l, hl⟩ := hexact.branches id r hr s hmem
  have hpass : c.StepPasses s :=
    ⟨l, hl, (hexact.passes_or_begins hc hr hmem hl).resolve_right
      fun ⟨t, ht⟩ => hnone t ⟨l, hl, ht⟩⟩
  cases h.isSome_of_passes (P := c.HasStep) (T := fun _ => True) hc hexact
    (fun id r hr s hs => ⟨id, r, hr, hs⟩)
    (fun s hs _ hnone => exists_passes_of_not_begins hcompile hs fun t => hnone t trivial) hs hpass
    fun t _ => hnone t

/-- An uncapped evaluation of a reachable rule, begun with nothing held for furthest, ends with the
largest position at which a step has failed that had to match, and with the first sets of the steps
that failed there in the order of the record; it ends with nothing held if no such step has failed.
Where the rule does not match, something is held. -/
theorem evaluate_furthest {s : EvalState} (hcompile : g.compile root = .ok c)
    (hid : g.Reachable root id) (hs : s.Ready c) (hfuel : s.fuel = none)
    (hfresh : s.furthest = none) :
    let symbols := s.cursor.symbols
    let p := s.cursor.position
    ∃ o t m log, c.evaluate {} id s = .ok o t ∧
      Run c symbols m (.leaf (.rule id)) p (o.map fun tree => [tree]) t.cursor.position log ∧
      t.events = (Note.events log).reverse ++ s.events ∧
      (∀ q first, .failed q first ∈ log ↔
        ∃ step, Fails c symbols (.leaf (.rule id)) p step q ∧ step.first = first) ∧
      (t.furthest = none ↔ ∀ step q, ¬ Fails c symbols (.leaf (.rule id)) p step q) ∧
      (∀ f, t.furthest = some f → f.Tells c symbols (.leaf (.rule id)) p log) ∧
      (o = none → t.furthest.isSome = true) := by
  have hc := consistent_of_compile hcompile
  have hmem : id ∈ c.order := ((covers_of_compile hcompile).mem_order id).mpr hid
  obtain ⟨o, q, log, l, hrun, hreplay, _, heval⟩ := evaluate_free hc hmem hs hfuel
  obtain ⟨hfurthest, hevents⟩ := Ledger.replay_cases hreplay
  have hheld : l.furthest = log.foldl Note.mark none := by
    rw [hfurthest]
    exact congrArg (log.foldl Note.mark) hfresh
  have hnodup : ∀ step, c.HasStep step → step.first.Nodup := by
    rintro step ⟨id, r, hr, hstep⟩
    exact (keyed_of_compile hcompile hr hstep).nodup_first
  have hnone := hrun.mark_eq_none_iff
  rw [← hheld] at hnone
  refine ⟨o, s.resume l q, _, log, heval, hrun, hevents, fun _ _ => hrun.failed_mem_iff, hnone,
    fun f hf => ?_, ?_⟩
  · exact hrun.tells hc trivial hnodup
      (fun step hstep _ _ _ _ h => first_ne_nil_of_run hcompile hstep h) (hheld.symm.trans hf)
  · rintro rfl
    obtain ⟨p', first, hfailed⟩ := hrun.exists_failed_of_rule hc rfl
    obtain ⟨step, hfails, _⟩ := hrun.exists_fails hfailed
    rw [Option.isSome_iff_ne_none]
    exact fun hnot => hnone.mp hnot step p' hfails

/-- The sign that nothing comes after is given back, and the mark that is missing behind it is
furthest though the sum has matched. -/
theorem evaluate_furthest_tally :
    let s := EvalState.initial tallyCompiled {} #[⟨⟨0⟩, 0, "i", false⟩, ⟨⟨1⟩, 1, "+", false⟩,
      ⟨⟨1⟩, 2, "+", false⟩]
    tally.compile ⟨0⟩ = .ok tallyCompiled ∧ ∃ tree t,
      tallyCompiled.evaluate {} ⟨0⟩ s = .ok (some tree) t ∧
      t.cursor.position = 1 ∧ t.furthest = some ⟨2, [⟨0⟩]⟩ ∧
      (∃ step, Fails tallyCompiled s.cursor.symbols (.leaf (.rule ⟨0⟩)) 0 step 2) ∧
      ∀ step q, Fails tallyCompiled s.cursor.symbols (.leaf (.rule ⟨0⟩)) 0 step q → q ≤ 2 := by
  intro s
  obtain ⟨o, t, _, _, heval, _, _, _, _, htells, _⟩ := evaluate_furthest compile_tally .refl
    (EvalState.ready_initial tallyCompiled {} s.cursor.symbols) rfl rfl
  have hends : (match tallyCompiled.evaluate {} ⟨0⟩ s with
      | .ok o t => (o.isSome, t.cursor.position, t.furthest)
      | .error _ _ => (false, 0, none)) = (true, 1, some ⟨2, [⟨0⟩]⟩) := by decide +kernel
  have heval : tallyCompiled.evaluate {} ⟨0⟩ s = .ok o t := heval
  rw [heval] at hends
  obtain ⟨hsome, hrest⟩ := Prod.mk.inj hends
  obtain ⟨hposition, hfurthest⟩ := Prod.mk.inj hrest
  obtain ⟨tree, rfl⟩ := Option.isSome_iff_exists.mp hsome
  exact ⟨compile_tally, tree, t, heval, hposition, hfurthest,
    (htells _ hfurthest).attained, (htells _ hfurthest).largest⟩

end Grammar

end Descent
