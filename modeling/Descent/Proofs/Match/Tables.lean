import Descent.Proofs.Compiled.Exact
import Descent.Proofs.Grammar.Solution
import Descent.Proofs.Match.Dispatch
import Descent.Proofs.Match.First

/-!
# What the dispatch tables denote

A dispatch table has an entry for each terminal that an alternative of its step can begin with, and
an entry names the alternatives worth trying by their numbers in sixteen bits. The numbers stand for
alternatives as long as there are no more than 65536 of them, and no longer: every alternative
passes or begins with some terminal, so that the one with number 65536 belongs into some entry
(`tables_denote_iff`). In a longer table a number is kept without its higher bits and names another
alternative.
-/

namespace Descent

/-- The alternative can begin with what is ahead, or match nothing. -/
def CompiledGrammar.CanStart (c : CompiledGrammar) (ahead : Option TerminalId) (l : Leaf) : Prop :=
  c.LeafPasses l ∨ ∃ t, ahead = some t ∧ c.LeafBegins t l

/-- The numbers are those of the alternatives with the property, in their order. -/
structure Names (branches : Array Leaf) (P : Leaf → Prop) (numbers : List UInt16) : Prop where
  increasing : numbers.Pairwise (· < ·)
  bounded : ∀ n ∈ numbers, n.toNat < branches.size
  mem_iff : ∀ i, (∃ n ∈ numbers, n.toNat = i) ↔ ∃ l, branches[i]? = some l ∧ P l

open Classical in
/-- The positions of the alternatives with the property, in order. -/
noncomputable def positions (branches : Array Leaf) (P : Leaf → Prop) : List Nat :=
  (branches.toList.zipIdx.filter fun x => P x.1).map Prod.snd

namespace CompiledStep

variable (c : CompiledGrammar) (s : CompiledStep)

/-- The table has one entry for each terminal that an alternative can begin with. -/
structure Keyed : Prop where
  keys : s.dispatch.map Prod.fst = s.first
  increasing : s.first.Pairwise (·.index < ·.index)
  mem_first : ∀ t, t ∈ s.first ↔ c.StepBegins t s

open Classical in
/-- The table says which alternatives to try. -/
structure Denotes : Prop extends Keyed c s where
  entry : ∀ e ∈ s.dispatch, Names s.branches (fun l => c.LeafPasses l ∨ c.LeafBegins e.1 l) e.2
  fallback : Names s.branches c.LeafPasses s.fallback
  candidates : ∀ ahead, Names s.branches (c.CanStart ahead) (s.candidates ahead)
  tries : ∀ ahead, s.tries ahead = s.branches.toList.filter fun l => c.CanStart ahead l

variable {c s}

theorem Keyed.nodup_first (h : s.Keyed c) : s.first.Nodup := by
  refine h.increasing.imp fun hlt heq => ?_
  rw [heq] at hlt
  exact Nat.lt_irrefl _ hlt

/-- A table that denotes its step leaves no number out, so they all fit. -/
theorem Denotes.size_le (h : s.Denotes c)
    (hall : ∀ l ∈ s.branches, c.LeafPasses l ∨ ∃ t, c.LeafBegins t l) :
    s.branches.size ≤ 65536 := by
  by_contra hlarge
  have hlt : 65536 < s.branches.size := Nat.lt_of_not_le hlarge
  have hl : s.branches[65536]? = some s.branches[65536] := Array.getElem?_eq_getElem hlt
  have hnumber : ∀ numbers P, Names s.branches P numbers → P s.branches[65536] → False := by
    intro numbers P hnames hP
    obtain ⟨n, _, hn⟩ := (hnames.mem_iff 65536).mpr ⟨_, hl, hP⟩
    have hn' : n.toNat < 65536 := n.toNat_lt
    omega
  rcases hall _ (Array.mem_of_getElem? hl) with hpass | ⟨t, hbegins⟩
  · exact hnumber _ _ h.fallback hpass
  · have ht : t ∈ s.dispatch.map Prod.fst := by
      rw [h.keys]
      exact (h.mem_first t).mpr ⟨_, Array.mem_of_getElem? hl, hbegins⟩
    obtain ⟨e, he, rfl⟩ := List.mem_map.mp ht
    exact hnumber _ _ (h.entry e he) (Or.inr hbegins)

end CompiledStep

/-! ## Numbers of alternatives -/

section

variable {leaves : List Leaf} {keep : Leaf → Bool} {P : Leaf → Prop}

theorem positions_increasing (branches : Array Leaf) (P : Leaf → Prop) :
    (positions branches P).Pairwise (· < ·) := by
  unfold positions
  have hall : (branches.toList.zipIdx.map Prod.snd).Pairwise (· < ·) := by
    rw [List.zipIdx_map_snd]
    exact List.pairwise_lt_range'
  exact hall.sublist (List.filter_sublist.map _)

theorem mem_positions {branches : Array Leaf} {i : Nat} :
    i ∈ positions branches P ↔ ∃ l, branches[i]? = some l ∧ P l := by
  unfold positions
  simp only [List.mem_map, List.mem_filter, decide_eq_true_eq, Prod.exists, exists_eq_right,
    List.mem_zipIdx_iff_getElem?, Array.getElem?_toList]

theorem lt_size_of_mem_positions {branches : Array Leaf} {i : Nat}
    (h : i ∈ positions branches P) : i < branches.size := by
  obtain ⟨l, hl, _⟩ := mem_positions.mp h
  exact (Array.getElem?_eq_some_iff.mp hl).choose

namespace Facts

/-- Of the position of an alternative sixteen bits are kept. -/
theorem toNat_numbers (hP : ∀ l ∈ leaves, (keep l = true ↔ P l)) :
    (numbers leaves keep).map UInt16.toNat =
      (positions leaves.toArray P).map (· % 65536) := by
  classical
  have hfilter : leaves.zipIdx.filter (fun x => keep x.1) =
      leaves.zipIdx.filter (fun x => decide (P x.1)) := by
    refine List.filter_congr fun x hx => ?_
    rw [Bool.eq_iff_iff, decide_eq_true_eq]
    exact hP x.1 (List.fst_mem_of_mem_zipIdx hx)
  unfold numbers positions
  rw [hfilter, List.map_map, List.map_map]
  rfl

/-- The numbers of no more than 65536 alternatives are their positions. -/
theorem names_numbers (h : leaves.length ≤ 65536) (hP : ∀ l ∈ leaves, (keep l = true ↔ P l)) :
    Names leaves.toArray P (numbers leaves keep) := by
  have hnumbers : (numbers leaves keep).map UInt16.toNat = positions leaves.toArray P := by
    rw [toNat_numbers hP]
    refine (List.map_congr_left fun i hi => ?_).trans (List.map_id _)
    have hlt : i < leaves.length := lt_size_of_mem_positions hi
    exact Nat.mod_eq_of_lt (by omega)
  have hmem : ∀ i, (∃ n ∈ numbers leaves keep, n.toNat = i) ↔ i ∈ positions leaves.toArray P := by
    intro i
    rw [← hnumbers, List.mem_map]
  refine ⟨?_, ?_, fun i => (hmem i).trans mem_positions⟩
  · have hincreasing := positions_increasing leaves.toArray P
    rw [← hnumbers, List.pairwise_map] at hincreasing
    exact hincreasing
  · intro n hn
    exact lt_size_of_mem_positions ((hmem n.toNat).mp ⟨n, hn, rfl⟩)

end Facts

end

/-! ## Tables of compiled steps -/

namespace Grammar

variable {α : Type} {g : Grammar α} {root : RuleId} {c : CompiledGrammar}

section Build

variable {order : List RuleId} {f : Facts} (hs : Facts.Sound g order) (hf : f.Fits g) {s : Step}
  (hknown : ∀ l ∈ s.leaves, g.LeafKnown order l) (optional : Bool)

include hs hf hknown

theorem canBegin_iff (root : RuleId) (ahead : Option TerminalId) {l : Leaf} (hl : l ∈ s.leaves) :
    f.canBegin ahead l = true ↔ (g.build root order f).CanStart ahead l := by
  unfold Facts.canBegin CompiledGrammar.CanStart
  rw [Bool.or_eq_true, leafPasses_build hs (hknown l hl)]
  refine or_congr Iff.rfl ?_
  cases ahead with
  | none => simp
  | some t =>
      rw [Option.any_some, ← leafBegins_build hs hf (hknown l hl)]
      constructor
      · exact fun h => ⟨t, rfl, h⟩
      · rintro ⟨_, ht, h⟩
        cases ht
        exact h

theorem keyed_compileStep (root : RuleId) :
    (f.compileStep s optional).Keyed (g.build root order f) := by
  refine ⟨?_, TerminalSet.toList_increasing _, fun t => ?_⟩
  · show ((f.leavesFirst s.leaves).toList.map _).map Prod.fst = (f.leavesFirst s.leaves).toList
    rw [List.map_map]
    exact List.map_id _
  · show t ∈ (f.leavesFirst s.leaves).toList ↔ _
    rw [TerminalSet.mem_toList, Facts.leavesFirst, TerminalSet.has_foldl_union,
      TerminalSet.has_empty]
    simp only [Bool.false_eq_true, false_or, CompiledGrammar.StepBegins, mem_branches_compileStep]
    exact exists_congr fun l => and_congr_right fun hl =>
      (leafBegins_build hs hf (hknown l hl)).symm

theorem denotes_compileStep (root : RuleId) (h : s.leaves.length ≤ 65536) :
    (f.compileStep s optional).Denotes (g.build root order f) := by
  have hcan := fun ahead l hl => canBegin_iff hs hf hknown root ahead (l := l) hl
  refine ⟨keyed_compileStep hs hf hknown optional root, ?_, ?_, fun ahead => ?_, fun ahead => ?_⟩
  · intro e he
    obtain ⟨t, _, rfl⟩ := List.mem_map.mp he
    refine Facts.names_numbers h fun l hl => ?_
    exact (hcan (some t) l hl).trans (or_congr Iff.rfl (by simp))
  · exact Facts.names_numbers h fun l hl => (leafPasses_build hs (hknown l hl)).symm
  · rw [Facts.candidates_compileStep]
    exact Facts.names_numbers h (hcan ahead)
  · classical
    rw [Facts.tries_compileStep h]
    refine List.filter_congr fun l hl => ?_
    rw [Bool.eq_iff_iff, decide_eq_true_eq]
    exact hcan ahead l hl

end Build

variable {id : RuleId} {r : CompiledRule}

/-- The steps of the rules of a compiled grammar are compiled from steps that refer to what is
known. -/
theorem exists_step_of_compile (hcompile : g.compile root = .ok c) (hr : c.rule? id = some r)
    {x : CompiledStep} (hx : x ∈ r.body.steps) :
    ∃ order f s optional, c = g.build root order f ∧ Facts.Sound g order ∧ f.Fits g ∧
      (∀ l ∈ s.leaves, g.LeafKnown order l) ∧ x = f.compileStep s optional := by
  obtain ⟨_, order, hreach, _, rfl⟩ := compile_eq_ok_iff.mp hcompile
  obtain ⟨_, _, _, hs⟩ := reachable_spec hreach
  obtain ⟨hid, y, hy, rfl⟩ := rule?_build_eq_some hr
  obtain ⟨s, hstep, optional, rfl⟩ := exists_whole_of_mem hx
  exact ⟨order, _, s, optional, rfl, hs, Facts.fits_of hs,
    leafKnown_of_reachable hreach id hid y hy s hstep, rfl⟩

theorem keyed_of_compile (hcompile : g.compile root = .ok c) (hr : c.rule? id = some r)
    {s : CompiledStep} (hs : s ∈ r.body.steps) : s.Keyed c := by
  obtain ⟨order, f, s, optional, rfl, hsound, hfits, hknown, rfl⟩ :=
    exists_step_of_compile hcompile hr hs
  exact keyed_compileStep hsound hfits hknown optional root

theorem denotes_of_compile (hcompile : g.compile root = .ok c) (hr : c.rule? id = some r)
    {s : CompiledStep} (hs : s ∈ r.body.steps) (hsize : s.branches.size ≤ 65536) :
    s.Denotes c := by
  obtain ⟨order, f, s, optional, rfl, hsound, hfits, hknown, rfl⟩ :=
    exists_step_of_compile hcompile hr hs
  exact denotes_compileStep hsound hfits hknown optional root hsize

/-- However many alternatives there are, of each number to try sixteen bits are kept. -/
theorem toNat_candidates (hcompile : g.compile root = .ok c) (hr : c.rule? id = some r)
    {s : CompiledStep} (hs : s ∈ r.body.steps) (ahead : Option TerminalId) :
    (s.candidates ahead).map UInt16.toNat =
      (positions s.branches (c.CanStart ahead)).map (· % 65536) := by
  obtain ⟨order, f, s, optional, rfl, hsound, hfits, hknown, rfl⟩ :=
    exists_step_of_compile hcompile hr hs
  rw [Facts.candidates_compileStep]
  exact Facts.toNat_numbers fun l hl => canBegin_iff hsound hfits hknown root ahead hl

theorem denotes_iff_of_compile (hcompile : g.compile root = .ok c) (hr : c.rule? id = some r)
    {s : CompiledStep} (hs : s ∈ r.body.steps) : s.Denotes c ↔ s.branches.size ≤ 65536 := by
  constructor
  · intro h
    refine h.size_le fun l hl => ?_
    exact (exact_of_compile hcompile).passes_or_begins (consistent_of_compile hcompile) hr hs hl
  · exact denotes_of_compile hcompile hr hs

/-- The entries of a dispatch table are for the terminals that its alternatives can begin with, in
order of identity. An entry names the alternatives worth trying exactly if there are at most 65536
alternatives; of every number sixteen bits are kept. -/
theorem tables_denote_iff (hcompile : g.compile root = .ok c) :
    ∀ id r, c.rule? id = some r → ∀ s ∈ r.body.steps,
      s.Keyed c ∧ (s.Denotes c ↔ s.branches.size ≤ 65536) ∧
      ∀ ahead, (s.candidates ahead).map UInt16.toNat =
        (positions s.branches (c.CanStart ahead)).map (· % 65536) := by
  intro id r hr s hs
  exact ⟨keyed_of_compile hcompile hr hs, denotes_iff_of_compile hcompile hr hs,
    toNat_candidates hcompile hr hs⟩

/-- What holds of the rules one by one holds of each that is looked up. -/
theorem of_mem_rules {c : CompiledGrammar} {P : CompiledRule → Prop}
    (h : ∀ r ∈ c.rules.toList.reduceOption, P r) {id : RuleId} {r : CompiledRule}
    (hr : c.rule? id = some r) : P r := by
  have hr : some r ∈ c.rules := Array.mem_of_getElem? (Option.join_eq_some_iff.mp hr)
  exact h r (List.reduceOption_mem_iff.mpr hr.val)

theorem tables_denote_tally : tally.compile ⟨0⟩ = .ok tallyCompiled ∧
    ∀ id r, tallyCompiled.rule? id = some r → ∀ s ∈ r.body.steps,
      s.branches.size ≤ 65536 ∧ s.Denotes tallyCompiled := by
  refine ⟨compile_tally, fun id r hr s hs => ?_⟩
  have hsize : s.branches.size ≤ 65536 :=
    of_mem_rules (P := fun r => ∀ s ∈ r.body.steps, s.branches.size ≤ 65536) (by decide) hr s hs
  exact ⟨hsize, (tables_denote_iff compile_tally id r hr s hs).2.1.mpr hsize⟩

/-! ## One alternative too many -/

/-- An `a` so many times over, or a `b`. -/
def crowdStep (n : Nat) : Step := .choice (List.replicate n (.terminal ⟨0⟩) ++ [.terminal ⟨1⟩])

def crowd (n : Nat) : Grammar Nat :=
  let g : Grammar Nat := {}
  let (_, g) := g.addTerminal { matcher := .char 'a' }
  let (_, g) := g.addTerminal { matcher := .char 'b' }
  let (letter, g) := g.addRule "letter"
  g.define letter [.step (crowdStep n)]

theorem leaves_crowdStep (n : Nat) :
    (crowdStep n).leaves = List.replicate n (.terminal ⟨0⟩) ++ [.terminal ⟨1⟩] := by
  have hall : ∀ ss : List Step, Step.leavesOfAll ss = ss.flatMap Step.leaves := by
    intro ss
    induction ss with
    | nil => rfl
    | cons s ss ih => rw [Step.leavesOfAll, ih, List.flatMap_cons]
  unfold crowdStep
  rw [Step.leaves, hall, List.flatMap_append, List.flatMap_replicate]
  simp [Step.leaves]

def crowdRule (n : Nat) : Rule Nat where
  name := "letter"
  body := .sequence [⟨crowdStep n, false⟩]

theorem rule?_crowd {n : Nat} {id : RuleId} {r : Rule Nat} (h : (crowd n).rule? id = some r) :
    id = ⟨0⟩ ∧ r = crowdRule n := by
  obtain ⟨_ | i⟩ := id
  · exact ⟨rfl, (Option.some.inj h).symm⟩
  · cases h

theorem rules_crowdStep (n : Nat) : (crowdStep n).rules = [] := by
  unfold Step.rules
  rw [leaves_crowdStep]
  simp

theorem not_refers_crowd {n : Nat} {a b : RuleId} : ¬ (crowd n).Refers a b := by
  rintro ⟨r, hr, hb⟩
  obtain ⟨_, rfl⟩ := rule?_crowd hr
  obtain ⟨s, hs, hb⟩ := Body.mem_rules.mp hb
  cases List.mem_singleton.mp hs
  rw [rules_crowdStep] at hb
  cases hb

theorem wellFormed_crowd (n : Nat) : (crowd n).WellFormed ⟨0⟩ := by
  refine ⟨rfl, Nat.one_pos, fun id r _ hr => ?_, fun id _ hcycle => ?_⟩
  · obtain ⟨_, rfl⟩ := rule?_crowd hr
    refine ⟨nofun, nofun, fun s hs => ?_, fun q hq => ?_, fun slots hslots hmany => ?_⟩
    · cases List.mem_singleton.mp hs
      refine .choice (by simp) fun s hs => ?_
      have hs : s = .terminal ⟨0⟩ ∨ s = .terminal ⟨1⟩ := by
        rcases List.mem_append.mp hs with hs | hs
        · exact Or.inl (List.eq_of_mem_replicate hs)
        · exact Or.inr (List.mem_singleton.mp hs)
      rcases hs with rfl | rfl
      · exact .terminal rfl
      · exact .terminal rfl
    · exact absurd ⟨_, hr, hq⟩ not_refers_crowd
    · cases hslots
      have hone := hmany.trans_le List.countP_le_length
      exact absurd hone (Nat.lt_irrefl 1)
  · obtain ⟨b, hedge, _⟩ := Relation.TransGen.head'_iff.mp hcycle
    exact not_refers_crowd hedge.refers

theorem numbers_crowd {n : Nat} {keep : Leaf → Bool} (ha : keep (.terminal ⟨0⟩) = false)
    (hb : keep (.terminal ⟨1⟩) = true) :
    Facts.numbers (crowdStep n).leaves keep = [.ofNat n] := by
  have hnone : (List.replicate n (Leaf.terminal ⟨0⟩)).zipIdx.filter (fun x => keep x.1) = [] := by
    refine List.filter_eq_nil_iff.mpr fun x hx => ?_
    rw [List.eq_of_mem_replicate (List.fst_mem_of_mem_zipIdx hx), ha]
    exact Bool.false_ne_true
  unfold Facts.numbers
  rw [leaves_crowdStep, List.zipIdx_append, List.filter_append, hnone]
  simp [hb]

theorem accepted_crowd (n : Nat) : (crowd n).terminals.accepted ⟨0⟩ = [⟨0⟩] := rfl

theorem canBegin_crowd {n : Nat} {f : Facts} (hf : f.Fits (crowd n)) :
    f.canBegin (some ⟨1⟩) (.terminal ⟨0⟩) = false ∧
      f.canBegin (some ⟨1⟩) (.terminal ⟨1⟩) = true := by
  constructor
  · rw [← Bool.not_eq_true]
    intro hcan
    have hhas : (f.leafFirst (.terminal ⟨0⟩)).has ⟨1⟩ = true := by
      simpa [Facts.canBegin, Facts.leafNullable] using hcan
    have hmem := (hf.leafFirst_terminal rfl).mp hhas
    rw [accepted_crowd] at hmem
    cases List.mem_singleton.mp hmem
  · have hself : ⟨1⟩ ∈ (crowd n).terminals.accepted ⟨1⟩ := TerminalTable.mem_accepted_self
    have hhas := (hf.leafFirst_terminal rfl).mpr hself
    simp [Facts.canBegin, hhas]

/-- The table keeps the number of the `b` without its higher bits. -/
theorem tries_crowd {n : Nat} {f : Facts} (hf : f.Fits (crowd n)) :
    (f.compileStep (crowdStep n) false).tries (some ⟨1⟩) =
      ((crowdStep n).leaves[n % 65536]?).toList := by
  obtain ⟨ha, hb⟩ := canBegin_crowd hf
  unfold CompiledStep.tries
  rw [Facts.candidates_compileStep, numbers_crowd ha hb, List.filterMap_cons, List.filterMap_nil]
  have hget : (f.compileStep (crowdStep n) false).branches[(UInt16.ofNat n).toNat]? =
      (crowdStep n).leaves[n % 65536]? := List.getElem?_toArray
  rw [hget]
  cases (crowdStep n).leaves[n % 65536]? <;> rfl

/-- Where nothing is kept of the number of the `b`, an `a` is tried in its place. -/
theorem exists_misnamed_crowd {n : Nat} (hpos : 0 < n) (hn : n % 65536 = 0) :
    ∃ c r s, (crowd n).compile ⟨0⟩ = .ok c ∧ c.rule? ⟨0⟩ = some r ∧ s ∈ r.body.steps ∧
      c.StepBegins ⟨1⟩ s ∧ s.tries (some ⟨1⟩) = [.terminal ⟨0⟩] ∧ ¬ s.Denotes c := by
  obtain ⟨c, hc⟩ := exists_compile_iff.mpr (wellFormed_crowd n)
  obtain ⟨_, order, hreach, _, rfl⟩ := compile_eq_ok_iff.mp hc
  obtain ⟨_, _, hmem, hs⟩ := reachable_spec hreach
  have hf := Facts.fits_of hs
  generalize Facts.of (crowd n) order = f at hc hf
  let s := f.compileStep (crowdStep n) false
  have hbranch : Leaf.terminal ⟨1⟩ ∈ s.branches := by
    refine mem_branches_compileStep.mpr ?_
    rw [leaves_crowdStep]
    exact List.mem_append_right _ (List.mem_singleton_self _)
  have hbegins : ((crowd n).build ⟨0⟩ order f).LeafBegins ⟨1⟩ (.terminal ⟨1⟩) :=
    CompiledGrammar.accepts_self _ _
  have htries : s.tries (some ⟨1⟩) = [.terminal ⟨0⟩] := by
    rw [tries_crowd hf, hn, leaves_crowdStep, List.getElem?_append_left (by simpa using hpos),
      List.getElem?_replicate, if_pos hpos]
    rfl
  refine ⟨_, compileRule f ⟨0⟩ (crowdRule n), s, hc, ?_, List.mem_singleton_self _,
    ⟨_, hbranch, hbegins⟩, htries, fun hdenotes => ?_⟩
  · rw [rule?_build, if_pos ((hmem ⟨0⟩).mpr .refl)]
    rfl
  · have hfound : Leaf.terminal ⟨1⟩ ∈ s.tries (some ⟨1⟩) := by
      rw [hdenotes.tries]
      simp only [List.mem_filter, decide_eq_true_eq]
      exact ⟨hbranch.val, Or.inr ⟨_, rfl, hbegins⟩⟩
    rw [htries] at hfound
    cases List.mem_singleton.mp hfound

/-- With 65537 alternatives the `b` is looked for under the number of the first `a`, so that it is
never found. -/
theorem crowd_misnamed : ∃ c r s, (crowd 65536).compile ⟨0⟩ = .ok c ∧ c.rule? ⟨0⟩ = some r ∧
    s ∈ r.body.steps ∧ c.StepBegins ⟨1⟩ s ∧ s.tries (some ⟨1⟩) = [.terminal ⟨0⟩] ∧
    ¬ s.Denotes c :=
  exists_misnamed_crowd (by decide) (by decide)

end Grammar

end Descent
