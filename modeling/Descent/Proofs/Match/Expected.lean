import Descent.Proofs.Match.Furthest
import Descent.Proofs.Match.Tables

/-!
# What would have been accepted

A step that had to match and did not is noted with its first set. Where no alternative hides one
behind it by matching nothing (`CompiledStep.Open`), a symbol that the step can begin with is read:
if the step fails all the same, or reads nothing, then something failed further on (`Run.beyond`).
So the symbol at which the furthest failure stands is not among those expected there
(`Run.not_mem_expected`).

The proof needs both that nothing which may pass ever fails (`Run.isSome_of_passes`) and that first
sets do not promise too much, so it rests on the grammar being exact.
-/

namespace Descent

/-- The alternatives, tried in order, come to one that the terminal can begin before any other that
can match nothing. -/
def CompiledGrammar.Meets (c : CompiledGrammar) (t : TerminalId) : List Leaf → Prop
  | [] => False
  | l :: ls => c.LeafBegins t l ∨ (¬ c.LeafPasses l ∧ Meets c t ls)

namespace CompiledStep

variable (c : CompiledGrammar) (s : CompiledStep)

/-- No alternative is hidden behind one that matches nothing. -/
def Open : Prop := ∀ t, c.StepBegins t s → c.Meets t s.branches.toList

/-- What is tried serves the step: it can pass if the step can, and a symbol that the step can begin
with comes to an alternative for it. -/
structure Serves : Prop where
  passes : c.StepPasses s → ∀ ahead, ∃ l ∈ s.tries ahead, c.LeafPasses l
  meets : ∀ t, c.StepBegins t s → c.Meets t (s.tries (some t))
  begins : ∀ t ∈ s.first, c.StepBegins t s

end CompiledStep

namespace CompiledGrammar

variable {c : CompiledGrammar} {s : CompiledStep} {t : TerminalId}

/-- Alternatives that can neither begin with the terminal nor match nothing may be left out. -/
theorem Meets.filter {ls : List Leaf} {keep : Leaf → Bool} (h : c.Meets t ls)
    (hkeep : ∀ l ∈ ls, keep l = false → ¬ c.LeafPasses l ∧ ¬ c.LeafBegins t l) :
    c.Meets t (ls.filter keep) := by
  induction ls with
  | nil => exact h
  | cons l ls ih =>
      obtain ⟨hl, hls⟩ := List.forall_mem_cons.mp hkeep
      rcases hk : keep l with _ | _
      · rw [List.filter_cons_of_neg (by simp [hk])]
        rcases h with h | ⟨_, h⟩
        · exact absurd h (hl hk).2
        · exact ih h hls
      · rw [List.filter_cons_of_pos hk]
        exact h.imp_right fun h => ⟨h.1, ih h.2 hls⟩

end CompiledGrammar

theorem CompiledStep.Denotes.serves {c : CompiledGrammar} {s : CompiledStep} (h : s.Denotes c)
    (hopen : s.Open c) : s.Serves c := by
  refine ⟨?_, fun t hbegins => ?_, fun t => (h.mem_first t).mp⟩
  · rintro ⟨l, hl, hpass⟩ ahead
    refine ⟨l, ?_, hpass⟩
    rw [h.tries]
    simp only [List.mem_filter, decide_eq_true_eq]
    exact ⟨hl.val, Or.inl hpass⟩
  · rw [h.tries]
    refine (hopen t hbegins).filter fun l _ hl => ?_
    simp only [decide_eq_false_iff_not] at hl
    exact ⟨fun hpass => hl (Or.inl hpass), fun hbegin => hl (Or.inr ⟨t, rfl, hbegin⟩)⟩

/-- It is enough that no alternative but the last can match nothing. -/
theorem CompiledStep.open_of_dropLast {c : CompiledGrammar} {s : CompiledStep}
    (h : ∀ l ∈ s.branches.toList.dropLast, ¬ c.LeafPasses l) : s.Open c := by
  rintro t ⟨l, hl, hbegins⟩
  have hl : l ∈ s.branches.toList := hl.val
  generalize s.branches.toList = ls at h hl
  induction ls with
  | nil => cases hl
  | cons l' ls ih =>
      rcases List.mem_cons.mp hl with rfl | hl
      · exact Or.inl hbegins
      · have hne : ls ≠ [] := List.ne_nil_of_mem hl
        rw [List.dropLast_cons_of_ne_nil hne] at h
        obtain ⟨hnot, hrest⟩ := List.forall_mem_cons.mp h
        exact Or.inr ⟨hnot, ih hrest hl⟩

namespace Fragment

variable (c : CompiledGrammar)

/-- A symbol of the terminal is read by the fragment, as far as its first alternatives go. -/
def Offers (t : TerminalId) : Fragment → Prop
  | leaves ls => c.Meets t ls
  | x => x.Begins c t

end Fragment

/-! ## Failures in a record -/

namespace Note

/-- Something failed behind the position. -/
def Beyond (p : Nat) (log : List Note) : Prop := ∃ p' first, .failed p' first ∈ log ∧ p < p'

/-- Wherever a step failed that the symbol there can begin, something failed further on. -/
def Surpassed (symbols : Array Symbol) (log : List Note) : Prop :=
  ∀ p first y, .failed p first ∈ log → symbols[p]? = some y → y.terminal ∈ first → Beyond p log

variable {symbols : Array Symbol} {log log' : List Note} {p : Nat} {first : List TerminalId}

theorem Beyond.mono (h : Beyond p log) (hsub : log ⊆ log') : Beyond p log' := by
  obtain ⟨p', first, hmem, hlt⟩ := h
  exact ⟨p', first, hsub hmem, hlt⟩

theorem Surpassed.append (h : Surpassed symbols log) (h' : Surpassed symbols log') :
    Surpassed symbols (log ++ log') := by
  intro p first y hmem hy ht
  rcases List.mem_append.mp hmem with hmem | hmem
  · exact (h p first y hmem hy ht).mono (List.subset_append_left _ _)
  · exact (h' p first y hmem hy ht).mono (List.subset_append_right _ _)

theorem surpassed_of_not_failed (h : ∀ p first, .failed p first ∉ log) : Surpassed symbols log :=
  fun p first _ hmem => absurd hmem (h p first)

/-- One more failure is surpassed by what led to it. -/
theorem Surpassed.failed (h : Surpassed symbols log)
    (hbeyond : ∀ y, symbols[p]? = some y → y.terminal ∈ first → Beyond p log) :
    Surpassed symbols (log ++ [.failed p first]) := by
  intro p' first' y hmem hy ht
  rcases List.mem_append.mp hmem with hmem | hmem
  · exact (h p' first' y hmem hy ht).mono (List.subset_append_left _ _)
  · cases List.mem_singleton.mp hmem
    exact (hbeyond y hy ht).mono (List.subset_append_left _ _)

end Note

/-! ## Runs -/

namespace Run

open Fragment Note

variable {c : CompiledGrammar} {symbols : Array Symbol} {m p q : Nat} {x : Fragment}
  {o : Option (List MatchTree)} {log : List Note}

/-- A sequence that fails leaves a failure behind where it begins or further on. -/
theorem exists_failed_of_steps {rule : RuleId} {start : Nat} {ss : List CompiledStep}
    (hc : c.Consistent) (h : Run c symbols m (.steps rule start ss) p o q log) (ho : o = none) :
    ∃ p' first, .failed p' first ∈ log ∧ p ≤ p' := by
  induction ss generalizing p o q log with
  | nil =>
      cases h
      cases ho
  | cons s ss ih =>
      cases h with
      | matched step rest =>
          obtain ⟨p', first, hmem, hle⟩ := ih rest (Option.map_eq_none_iff.mp ho)
          exact ⟨p', first, List.mem_append_right _ hmem, (step.progress hc rfl).le.trans hle⟩
      | absent _ _ rest =>
          obtain ⟨p', first, hmem, hle⟩ := ih rest (Option.map_eq_none_iff.mp ho)
          exact ⟨p', first, List.mem_append_right _ hmem, hle⟩
      | failed _ _ => exact ⟨p, s.first, by simp, Nat.le_refl p⟩

/-- What may match without reading does not fail, if every step that may is tried with an
alternative that may. It can be taken for granted that no terminal of `T` begins anything. -/
theorem isSome_of_passes {P : CompiledStep → Prop} {T : TerminalId → Prop} (hc : c.Consistent)
    (hexact : c.Exact) (hrules : ∀ id r, c.rule? id = some r → ∀ s ∈ r.body.steps, P s)
    (htries : ∀ s, P s → c.StepPasses s → (∀ t, T t → ¬ c.StepBegins t s) →
      ∀ ahead, ∃ l ∈ s.tries ahead, c.LeafPasses l)
    (h : Run c symbols m x p o q log) (hall : x.All P) (hpass : x.Passes c)
    (hnone : ∀ t, T t → ¬ x.Begins c t) : o.isSome = true := by
  induction h with
  | took | first | done | unseparated | givenBack | stalled | item | ended | idle | again | empty
  | separated | cyclic => rfl
  | missed => exact hpass.elim
  | @rule _ _ id r _ _ _ hr _ _ ih =>
      rw [Option.isSome_map]
      refine ih (hrules id r hr) (hexact.bodyPasses hr hpass) ?_
      rintro t ht ⟨s, hlead, hbegins⟩
      refine hnone t ht ⟨r.first, ?_, hc.begins id r hr s t hlead hbegins⟩
      rw [CompiledGrammar.first?, hr, Option.map_some]
  | exhausted =>
      obtain ⟨l, hl, _⟩ := hpass
      cases hl
  | next _ _ ih ihrest =>
      obtain ⟨l, hl, hpass⟩ := hpass
      rcases List.mem_cons.mp hl with rfl | hl
      · cases ih trivial hpass fun t ht hbegins => hnone t ht ⟨l, List.mem_cons_self, hbegins⟩
      · refine ihrest trivial ⟨l, hl, hpass⟩ ?_
        rintro t ht ⟨l', hl', hbegins⟩
        exact hnone t ht ⟨l', List.mem_cons_of_mem _ hl', hbegins⟩
  | step _ _ ih =>
      refine ih trivial (htries _ hall hpass hnone _) ?_
      rintro t ht ⟨l, hl, hbegins⟩
      exact hnone t ht ⟨l, CompiledStep.mem_branches_of_mem_tries hl, hbegins⟩
  | matched _ _ _ ih | absent _ _ _ _ ih =>
      -- the whole sequence passes, so what leads in the rest leads in the whole
      obtain ⟨hskip, hpass⟩ := List.forall_mem_cons.mp hpass
      rw [Option.isSome_map]
      refine ih (fun s hs => hall s (List.mem_cons_of_mem _ hs)) hpass ?_
      rintro t ht ⟨s, hlead, hbegins⟩
      exact hnone t ht ⟨s, Or.inr ⟨hskip, hlead⟩, hbegins⟩
  | failed _ hoptional ih =>
      rcases hpass _ List.mem_cons_self with hskip | hskip
      · rw [hoptional] at hskip
        cases hskip
      · cases ih (hall _ List.mem_cons_self) hskip fun t ht hbegins =>
          hnone t ht ⟨_, Or.inl rfl, hbegins⟩
  | sequence _ ih => exact ih hall hpass hnone
  | unmatched _ ih =>
      rcases hpass with hempty | hitem
      · cases hempty
      · cases ih (hall _ List.mem_cons_self) hitem fun t ht hbegins =>
          hnone t ht ⟨_, Or.inl rfl, hbegins⟩

variable (hc : c.Consistent) (hexact : c.Exact)
  (hrules : ∀ id r, c.rule? id = some r → ∀ s ∈ r.body.steps, s.Serves c)

include hc hexact hrules

/-- A step that serves does not fail if it may match without reading. -/
theorem isSome_of_serves {s : CompiledStep} (h : Run c symbols m (.step s) p o q log)
    (hserved : s.Serves c) (hpass : c.StepPasses s) : o.isSome = true := by
  refine h.isSome_of_passes (T := fun _ => False) hc hexact hrules ?_ hserved hpass nofun
  exact fun _ hs hpass _ => hs.passes hpass

/-- Where the symbol ahead can begin the fragment, which fails all the same or reads nothing,
something failed further on. -/
theorem beyond (h : Run c symbols m x p o q log) (hserved : x.All (CompiledStep.Serves c))
    {y : Symbol} (hy : symbols[p]? = some y) (hoffers : x.Offers c y.terminal)
    (hidle : o = none ∨ q = p) : Beyond p log := by
  induction h with
  | took =>
      rcases hidle with hnone | heq
      · cases hnone
      · omega
  | missed hmissed =>
      have hbegins := hmissed y hy
      rw [show c.accepts _ y.terminal = true from hoffers] at hbegins
      cases hbegins
  | rule hr _ _ ih =>
      refine (ih (hrules _ _ hr) hy (hexact.bodyBegins hr hoffers) ?_).mono ?_
      · exact hidle.imp_left Option.map_eq_none_iff.mp
      · intro n hn
        simp [hn]
  | exhausted => exact hoffers.elim
  | first leaf ih =>
      rcases hidle with hnone | rfl
      · cases hnone
      · rcases hoffers with hbegins | ⟨hnot, _⟩
        · exact ih trivial hy hbegins (Or.inr rfl)
        · -- an alternative for another symbol that reads nothing may pass
          rcases leaf.progress hc rfl with ⟨_, hpass⟩ | ⟨hlt, _⟩
          · exact absurd hpass hnot
          · exact absurd hlt (Nat.lt_irrefl _)
  | next _ _ ih ihrest =>
      rcases hoffers with hbegins | ⟨_, hrest⟩
      · exact (ih trivial hy hbegins (Or.inl rfl)).mono (List.subset_append_left _ _)
      · exact (ihrest trivial hy hrest hidle).mono (List.subset_append_right _ _)
  | step _ _ ih =>
      refine ih trivial hy ?_ hidle
      rw [hy]
      exact hserved.meets _ hoffers
  | done =>
      obtain ⟨s, hlead, _⟩ := hoffers
      exact hlead.elim
  | @matched m p _ _ _ _ _ q o _ _ _ step rest ih ihrest =>
      obtain ⟨hs, hss⟩ := List.forall_mem_cons.mp hserved
      rcases (step.progress hc rfl).le.lt_or_eq with hlt | rfl
      · -- the step has read something, so what remains fails, and further on
        have hnone : o = none := by
          rcases hidle with hnone | heq
          · exact Option.map_eq_none_iff.mp hnone
          · by_contra hsome
            have hle := (rest.progress hc (Option.isSome_iff_ne_none.mpr hsome)).le
            omega
        obtain ⟨p', first, hmem, hle⟩ := exists_failed_of_steps hc rest hnone
        exact ⟨p', first, List.mem_append_right _ hmem, hlt.trans_le hle⟩
      · obtain ⟨s, rfl | ⟨_, hlead⟩, hbegins⟩ := hoffers
        · exact (ih hs hy hbegins (Or.inr rfl)).mono (List.subset_append_left _ _)
        · refine (ihrest hss hy ⟨s, hlead, hbegins⟩ ?_).mono (List.subset_append_right _ _)
          exact hidle.imp_left Option.map_eq_none_iff.mp
  | absent _ _ _ ih ihrest =>
      obtain ⟨hs, hss⟩ := List.forall_mem_cons.mp hserved
      obtain ⟨s, rfl | ⟨_, hlead⟩, hbegins⟩ := hoffers
      · exact (ih hs hy hbegins (Or.inl rfl)).mono (List.subset_append_left _ _)
      · refine (ihrest hss hy ⟨s, hlead, hbegins⟩ ?_).mono (List.subset_append_right _ _)
        exact hidle.imp_left Option.map_eq_none_iff.mp
  | failed step hoptional ih =>
      -- a step that has to match and may read nothing does not fail
      have hs := hserved _ List.mem_cons_self
      obtain ⟨s, rfl | ⟨hskip, _⟩, hbegins⟩ := hoffers
      · exact (ih hs hy hbegins (Or.inl rfl)).mono (List.subset_append_left _ _)
      · rcases hskip with hskip | hskip
        · rw [hoptional] at hskip
          cases hskip
        · cases isSome_of_serves hc hexact hrules step hs hskip
  | unseparated sep ih =>
      rcases hoffers with hbegins | ⟨hpass, _⟩
      · exact ih hserved.2 hy hbegins (Or.inl rfl)
      · cases isSome_of_serves hc hexact hrules sep hserved.2 hpass
  | @givenBack m p _ item _ _ q _ _ sep _ ih ihstep =>
      rcases (sep.progress hc rfl).le.lt_or_eq with hlt | rfl
      · -- the separator is given back, but the item has failed behind it
        exact ⟨q, item.first, by simp, hlt⟩
      · rcases hoffers with hbegins | ⟨_, hbegins⟩
        · exact (ih hserved.2 hy hbegins (Or.inr rfl)).mono (List.subset_append_left _ _)
        · refine (ihstep hserved.1 hy hbegins (Or.inl rfl)).mono fun n hn => ?_
          simp [hn]
  | stalled sep step ih ihstep =>
      obtain rfl := (sep.progress hc rfl).le.antisymm (step.progress hc rfl).le
      rcases hoffers with hbegins | ⟨_, hbegins⟩
      · exact (ih hserved.2 hy hbegins (Or.inr rfl)).mono (List.subset_append_left _ _)
      · exact (ihstep hserved.1 hy hbegins (Or.inr rfl)).mono (List.subset_append_right _ _)
  | item _ _ hread more =>
      rcases hidle with hnone | rfl
      · cases hnone
      · exact absurd (more.progress hc rfl).le (Nat.not_le.mpr hread)
  | ended _ ih => exact ih hserved hy hoffers (Or.inl rfl)
  | idle _ ih => exact ih hserved hy hoffers (Or.inr rfl)
  | again _ hread more =>
      rcases hidle with hnone | rfl
      · cases hnone
      · exact absurd (more.progress hc rfl).le (Nat.not_le.mpr hread)
  | sequence _ ih => exact ih hserved hy hoffers hidle
  | empty step ih =>
      have hitem := hserved _ List.mem_cons_self
      obtain ⟨s, rfl | ⟨rfl, hpass⟩, hbegins⟩ := hoffers
      · exact ih hitem hy hbegins (Or.inl rfl)
      · cases isSome_of_serves hc hexact hrules step hitem hpass
  | unmatched step ih =>
      have hitem := hserved _ List.mem_cons_self
      obtain ⟨s, rfl | ⟨rfl, hpass⟩, hbegins⟩ := hoffers
      · exact (ih hitem hy hbegins (Or.inl rfl)).mono (List.subset_append_left _ _)
      · cases isSome_of_serves hc hexact hrules step hitem hpass
  | separated step more ih ihmore =>
      rcases hidle with hnone | rfl
      · cases hnone
      · obtain rfl := (step.progress hc rfl).le.antisymm (more.progress hc rfl).le
        have hitem := hserved _ List.mem_cons_self
        obtain ⟨s, rfl | ⟨rfl, _⟩, hbegins⟩ := hoffers
        · exact (ih hitem hy hbegins (Or.inr rfl)).mono (List.subset_append_left _ _)
        · have hmore := ihmore ⟨hitem, hserved _ (by simp [CompiledBody.steps])⟩ hy (Or.inl hbegins)
          exact (hmore (Or.inr rfl)).mono (List.subset_append_right _ _)
  | cyclic _ ih =>
      obtain ⟨s, rfl, hbegins⟩ := hoffers
      exact ih (hserved _ (List.mem_singleton_self _)) hy hbegins hidle

/-- So whatever failed at a symbol that it could begin with is surpassed. -/
theorem surpassed (h : Run c symbols m x p o q log) (hserved : x.All (CompiledStep.Serves c)) :
    Surpassed symbols log := by
  refine record_induction (Q := Surpassed symbols) hrules ?_ ?_ Surpassed.append ?_ h hserved
  · exact surpassed_of_not_failed fun _ _ => List.not_mem_nil
  · exact fun e => surpassed_of_not_failed fun p first h => by cases List.mem_singleton.mp h
  · intro m p q s log hs step hlog
    -- the step that failed is one that the symbol ahead can begin
    refine hlog.failed fun y hy ht => ?_
    exact step.beyond hc hexact hrules hs hy (hs.begins _ ht) (Or.inl rfl)

/-- The symbol where the furthest failure stands is not expected there. -/
theorem not_mem_expected (h : Run c symbols m x p o q log)
    (hserved : x.All (CompiledStep.Serves c)) {f : Furthest} (hf : log.foldl mark none = some f)
    {y : Symbol} (hy : symbols[f.position]? = some y) : y.terminal ∉ f.expected := by
  intro ht
  have hsums := sums_of_mark hf
  obtain ⟨first, hmem, hfirst⟩ := (hsums.mem_iff _).mp ht
  obtain ⟨p', first', hmem', hlt⟩ := h.surpassed hc hexact hrules hserved _ _ y hmem hy hfirst
  exact absurd (hsums.furthest p' first' hmem') (Nat.not_le.mpr hlt)

end Run

end Descent
