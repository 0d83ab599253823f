import Descent.Grammar.LeftRecursion
import Mathlib.Logic.Relation
import Mathlib.Data.List.Chain
import Mathlib.Data.List.Perm.Subperm

/-!
# Cycles are found

The search for a cycle enters each rule once. A rule that is entered and not on the path any more is
finished: all its edges lead to finished rules, and no cycle goes through it (`Explored`). Hence the
search ends without an answer exactly when there is no cycle (`cycle?_eq_none_iff`), and an answer
is a cycle that repeats nothing but its first node (`isCycle_of_cycle?`).
-/

namespace Descent

namespace LeftRecursion

open Relation

variable {edges : RuleId → List RuleId} {nodes path done done' : List RuleId} {current : RuleId}

def Edge (edges : RuleId → List RuleId) (a b : RuleId) : Prop := b ∈ edges a

/-- What holds of the path and of the rules entered so far. -/
structure Explored (edges : RuleId → List RuleId) (path done : List RuleId) : Prop where
  onPath : ∀ v ∈ path, v ∈ done
  closed : ∀ v ∈ done, v ∉ path → ∀ w ∈ edges v, w ∈ done ∧ w ∉ path
  acyclic : ∀ v ∈ done, v ∉ path → ¬ TransGen (Edge edges) v v

namespace Explored

theorem start : Explored edges [] [] := ⟨by simp, by simp, by simp⟩

/-- Finished rules lead to finished rules only. -/
theorem finished (h : Explored edges path done) {v w : RuleId} (hv : v ∈ done) (hpath : v ∉ path)
    (hreach : ReflTransGen (Edge edges) v w) : w ∈ done ∧ w ∉ path := by
  induction hreach with
  | refl => exact ⟨hv, hpath⟩
  | tail _ hedge ih => exact h.closed _ ih.1 ih.2 _ hedge

theorem enter (h : Explored edges path done) (hnew : current ∉ done) :
    Explored edges (current :: path) (current :: done) := by
  have hold : ∀ v ∈ current :: done, v ∉ current :: path → v ∈ done ∧ v ∉ path := by
    intro v hv hpath
    rw [List.mem_cons, not_or] at hpath
    exact ⟨(List.mem_cons.mp hv).resolve_left hpath.1, hpath.2⟩
  refine ⟨?_, ?_, ?_⟩
  · intro v hv
    rcases List.mem_cons.mp hv with rfl | hv
    · exact List.mem_cons_self
    · exact List.mem_cons_of_mem _ (h.onPath v hv)
  · intro v hv hpath w hw
    obtain ⟨hv, hpath⟩ := hold v hv hpath
    obtain ⟨hwd, hwp⟩ := h.closed v hv hpath w hw
    refine ⟨List.mem_cons_of_mem _ hwd, ?_⟩
    rw [List.mem_cons, not_or]
    exact ⟨fun he => hnew (he ▸ hwd), hwp⟩
  · intro v hv hpath
    obtain ⟨hv, hpath⟩ := hold v hv hpath
    exact h.acyclic v hv hpath

/-- A rule whose edges all lead to finished rules is finished. -/
theorem leave (h : Explored edges (current :: path) done)
    (hedges : ∀ w ∈ edges current, w ∈ done ∧ w ∉ current :: path) : Explored edges path done := by
  refine ⟨fun v hv => h.onPath v (List.mem_cons_of_mem _ hv), ?_, ?_⟩
  · intro v hv hpath w hw
    have hfin : w ∈ done ∧ w ∉ current :: path := by
      by_cases hvc : v = current
      · subst hvc
        exact hedges w hw
      · exact h.closed v hv (by simp [hvc, hpath]) w hw
    exact ⟨hfin.1, fun hmem => hfin.2 (List.mem_cons_of_mem _ hmem)⟩
  · intro v hv hpath
    by_cases hvc : v = current
    · subst hvc
      intro hcycle
      obtain ⟨w, hedge, hback⟩ := TransGen.head'_iff.mp hcycle
      obtain ⟨hwd, hwp⟩ := hedges w hedge
      exact (h.finished hwd hwp hback).2 List.mem_cons_self
    · exact h.acyclic v hv (by simp [hvc, hpath])

end Explored

/-- The step of the search from a rule to one of its edges. -/
def follow (edges : RuleId → List RuleId) (fuel : Nat) (path done : List RuleId) (target : RuleId) :
    Except (List RuleId) (List RuleId) :=
  if path.contains target then .error (close path target) else explore edges fuel path done target

theorem explore_of_mem {fuel : Nat} (h : current ∈ done) :
    explore edges (fuel + 1) path done current = .ok done := by
  rw [explore, if_pos (List.contains_iff_mem.mpr h)]

theorem explore_of_not_mem {fuel : Nat} (h : current ∉ done) :
    explore edges (fuel + 1) path done current =
      (edges current).foldlM (follow edges fuel (current :: path)) (current :: done) := by
  rw [explore, if_neg (fun hc => h (List.contains_iff_mem.mp hc))]
  rfl

theorem follow_of_mem {fuel : Nat} {target : RuleId} (h : target ∈ path) :
    follow edges fuel path done target = .error (close path target) :=
  if_pos (List.contains_iff_mem.mpr h)

theorem follow_of_not_mem {fuel : Nat} {target : RuleId} (h : target ∉ path) :
    follow edges fuel path done target = explore edges fuel path done target :=
  if_neg fun hc => h (List.contains_iff_mem.mp hc)

/-! ## Searching from several rules -/

section Fold

variable {step : List RuleId → RuleId → Except (List RuleId) (List RuleId)} {ts c : List RuleId}

/-- If each step finishes its rule, all of them together finish all rules. -/
theorem foldlM_ok (h : Explored edges path done)
    (hstep : ∀ t ∈ ts, ∀ {d d'}, Explored edges path d → step d t = .ok d' →
      Explored edges path d' ∧ d ⊆ d' ∧ t ∈ d' ∧ t ∉ path)
    (hok : ts.foldlM step done = .ok done') :
    Explored edges path done' ∧ done ⊆ done' ∧ ∀ t ∈ ts, t ∈ done' ∧ t ∉ path := by
  induction ts generalizing done with
  | nil =>
      cases hok
      exact ⟨h, List.Subset.refl _, by simp⟩
  | cons t ts ih =>
      obtain ⟨hfirst, hrest⟩ := List.forall_mem_cons.mp hstep
      rw [List.foldlM_cons] at hok
      cases hx : step done t with
      | error c =>
          rw [hx] at hok
          cases hok
      | ok d =>
          rw [hx] at hok
          obtain ⟨hd, hsub, ht, hpath⟩ := hfirst h hx
          obtain ⟨hd', hsub', hall⟩ := ih hd hrest hok
          exact ⟨hd', List.Subset.trans hsub hsub',
            List.forall_mem_cons.mpr ⟨⟨hsub' ht, hpath⟩, hall⟩⟩

/-- A cycle that is answered is the answer of one of the steps. -/
theorem exists_of_foldlM_error (herr : ts.foldlM step done = .error c) :
    ∃ t ∈ ts, ∃ d, step d t = .error c := by
  induction ts generalizing done with
  | nil => cases herr
  | cons t ts ih =>
      rw [List.foldlM_cons] at herr
      cases hx : step done t with
      | error c' =>
          rw [hx] at herr
          cases herr
          exact ⟨t, List.mem_cons_self, done, hx⟩
      | ok d =>
          rw [hx] at herr
          obtain ⟨u, hu, hrest⟩ := ih herr
          exact ⟨u, List.mem_cons_of_mem _ hu, hrest⟩

end Fold

/-! ## The search -/

/-- A search that meets no cycle finishes the rule it starts from. The path has distinct nodes, so
the fuel outlasts it. -/
theorem explore_ok {fuel : Nat} (hclosed : ∀ a ∈ nodes, ∀ b ∈ edges a, b ∈ nodes)
    (h : Explored edges path done) (hnodup : (current :: path).Nodup)
    (hsub : current :: path ⊆ nodes) (hfuel : nodes.length ≤ path.length + fuel)
    (hok : explore edges fuel path done current = .ok done') :
    Explored edges path done' ∧ current ∈ done' ∧ done ⊆ done' := by
  induction fuel generalizing path done done' current with
  | zero =>
      -- the path would have more nodes than there are
      have hle := (hnodup.subperm hsub).length_le
      rw [List.length_cons] at hle
      omega
  | succ fuel ih =>
      by_cases hmem : current ∈ done
      · rw [explore_of_mem hmem] at hok
        cases hok
        exact ⟨h, hmem, List.Subset.refl _⟩
      · rw [explore_of_not_mem hmem] at hok
        have hcurrent : current ∈ nodes := hsub List.mem_cons_self
        have hstep : ∀ t ∈ edges current, ∀ {d d'}, Explored edges (current :: path) d →
            follow edges fuel (current :: path) d t = .ok d' →
            Explored edges (current :: path) d' ∧ d ⊆ d' ∧ t ∈ d' ∧ t ∉ current :: path := by
          intro t ht d d' hd hok
          by_cases hpath : t ∈ current :: path
          · rw [follow_of_mem hpath] at hok
            cases hok
          · rw [follow_of_not_mem hpath] at hok
            obtain ⟨hd', htd, hsub'⟩ := ih hd (List.nodup_cons.mpr ⟨hpath, hnodup⟩)
              (List.cons_subset.mpr ⟨hclosed current hcurrent t ht, hsub⟩)
              (by rw [List.length_cons]; omega) hok
            exact ⟨hd', hsub', htd, hpath⟩
        obtain ⟨hd, hsub', hall⟩ := foldlM_ok (h.enter hmem) hstep hok
        exact ⟨hd.leave hall, hsub' List.mem_cons_self,
          fun v hv => hsub' (List.mem_cons_of_mem _ hv)⟩

/-! ## The cycle that is answered -/

/-- A path along the edges that ends where it starts and repeats nothing else. -/
structure IsCycle (edge : RuleId → RuleId → Prop) (cycle : List RuleId) : Prop where
  two_le : 2 ≤ cycle.length
  closed : cycle.head? = cycle.getLast?
  nodup : cycle.tail.Nodup
  edges : cycle.IsChain edge

theorem IsCycle.exists_transGen {edge : RuleId → RuleId → Prop} {cycle : List RuleId}
    (h : IsCycle edge cycle) : ∃ a ∈ cycle, TransGen edge a a := by
  obtain ⟨hlength, hclosed, _, hedges⟩ := h
  match cycle with
  | a :: b :: rest =>
      obtain ⟨hedge, hback⟩ := List.isChain_cons_cons.mp hedges
      have hlast : (b :: rest).getLast (List.cons_ne_nil b rest) = a := by
        simpa [List.getLast?_eq_some_getLast] using hclosed.symm
      exact ⟨a, List.mem_cons_self,
        .head' hedge (List.relationReflTransGen_of_exists_isChain_cons rest hback hlast)⟩

theorem exists_close_eq {target : RuleId} (hmem : target ∈ path) :
    ∃ later earlier, path = later ++ target :: earlier ∧
      close path target = (target :: later.reverse) ++ [target] := by
  obtain ⟨later, earlier, rfl, hlater⟩ := List.eq_append_cons_of_mem hmem
  refine ⟨later, earlier, rfl, ?_⟩
  have hwhile : (later ++ target :: earlier).takeWhile (· ≠ target) = later := by
    have hne : ∀ v ∈ later, decide (v ≠ target) = true := by
      intro v hv
      exact decide_eq_true fun heq => hlater (heq ▸ hv)
    rw [List.takeWhile_append_of_pos hne, List.takeWhile_cons_of_neg (by simp), List.append_nil]
  rw [close, hwhile]

/-- An edge from the last node of a path back to one of its nodes closes a cycle. -/
theorem isCycle_close {target : RuleId} (hnodup : (current :: path).Nodup)
    (hchain : (current :: path).IsChain fun a b => Edge edges b a) (hedge : target ∈ edges current)
    (hmem : target ∈ current :: path) :
    IsCycle (Edge edges) (close (current :: path) target) ∧
      close (current :: path) target ⊆ current :: path := by
  obtain ⟨later, earlier, hsplit, hclose⟩ := exists_close_eq hmem
  have hpart : later ++ [target] <+: current :: path := ⟨earlier, by simp [hsplit]⟩
  -- the latest node of the cycle is the one that the edge starts from
  have hlatest : ∀ v ∈ (later ++ [target]).head?, v = current := by
    intro v hv
    cases later with
    | nil =>
        cases hv
        exact (List.cons.inj hsplit).1.symm
    | cons w later =>
        cases hv
        exact (List.cons.inj hsplit).1.symm
  have hreverse : (target :: later.reverse) ++ [target] = (target :: (later ++ [target])).reverse :=
    by simp
  rw [hclose]
  refine ⟨⟨by simp, List.getLast?_concat.symm, ?_, ?_⟩, ?_⟩
  · show (later.reverse ++ [target]).Nodup
    exact ((List.reverse_perm later).append_right [target]).nodup_iff.mpr
      (hnodup.sublist hpart.sublist)
  · rw [hreverse, List.isChain_reverse, List.isChain_cons]
    exact ⟨fun v hv => hlatest v hv ▸ hedge, hchain.prefix hpart⟩
  · intro v hv
    rw [hreverse, List.mem_reverse] at hv
    rcases List.mem_cons.mp hv with rfl | hv
    · exact hmem
    · exact hpart.subset hv

/-- A search that answers a cycle has found one among the nodes. -/
theorem isCycle_of_explore_error {fuel : Nat} {c : List RuleId}
    (hclosed : ∀ a ∈ nodes, ∀ b ∈ edges a, b ∈ nodes) (hsub : current :: path ⊆ nodes)
    (hnodup : (current :: path).Nodup)
    (hchain : (current :: path).IsChain fun a b => Edge edges b a)
    (herr : explore edges fuel path done current = .error c) :
    IsCycle (Edge edges) c ∧ c ⊆ nodes := by
  induction fuel generalizing path done current with
  | zero => cases herr
  | succ fuel ih =>
      by_cases hmem : current ∈ done
      · rw [explore_of_mem hmem] at herr
        cases herr
      · rw [explore_of_not_mem hmem] at herr
        obtain ⟨t, ht, d, herr⟩ := exists_of_foldlM_error herr
        by_cases hp : t ∈ current :: path
        · rw [follow_of_mem hp] at herr
          cases herr
          obtain ⟨hcycle, hpath⟩ := isCycle_close hnodup hchain ht hp
          exact ⟨hcycle, List.Subset.trans hpath hsub⟩
        · rw [follow_of_not_mem hp] at herr
          have hnode : t ∈ nodes := hclosed current (hsub List.mem_cons_self) t ht
          exact ih (List.cons_subset.mpr ⟨hnode, hsub⟩) (List.nodup_cons.mpr ⟨hp, hnodup⟩)
            (List.isChain_cons_cons.mpr ⟨ht, hchain⟩) herr

theorem isCycle_of_cycle? {c : List RuleId} (hclosed : ∀ a ∈ nodes, ∀ b ∈ edges a, b ∈ nodes)
    (h : cycle? nodes edges = some c) : IsCycle (Edge edges) c ∧ c ⊆ nodes := by
  unfold cycle? at h
  split at h
  · next herr =>
      cases h
      obtain ⟨t, ht, d, herr⟩ := exists_of_foldlM_error herr
      exact isCycle_of_explore_error hclosed (List.cons_subset.mpr ⟨ht, List.nil_subset nodes⟩)
        (by simp) (.singleton t) herr
  · cases h

/-- No cycle is answered exactly when there is none among the nodes. -/
theorem cycle?_eq_none_iff (hclosed : ∀ a ∈ nodes, ∀ b ∈ edges a, b ∈ nodes) :
    cycle? nodes edges = none ↔ ∀ a ∈ nodes, ¬ TransGen (Edge edges) a a := by
  constructor
  · intro h
    unfold cycle? at h
    have hstep : ∀ t ∈ nodes, ∀ {d d'}, Explored edges [] d →
        explore edges (nodes.length + 1) [] d t = .ok d' →
        Explored edges [] d' ∧ d ⊆ d' ∧ t ∈ d' ∧ t ∉ [] := by
      intro t ht d d' hd hok
      obtain ⟨hd', htd, hsub⟩ := explore_ok hclosed hd (by simp)
        (List.cons_subset.mpr ⟨ht, List.nil_subset nodes⟩) (by simp) hok
      exact ⟨hd', hsub, htd, List.not_mem_nil⟩
    split at h
    · cases h
    · next d hok =>
        obtain ⟨hd, _, hall⟩ := foldlM_ok .start hstep hok
        exact fun a ha => hd.acyclic a (hall a ha).1 List.not_mem_nil
  · intro h
    cases hcycle : cycle? nodes edges with
    | none => rfl
    | some c =>
        obtain ⟨hc, hsub⟩ := isCycle_of_cycle? hclosed hcycle
        obtain ⟨a, ha, hback⟩ := hc.exists_transGen
        exact absurd hback (h a (hsub ha))

end LeftRecursion

end Descent
