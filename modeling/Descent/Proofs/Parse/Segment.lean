import Descent.Proofs.Match.Outcome

/-!
# What a parse makes of the symbols

The turns of a parse cut the symbols up into the match at the beginning, runs of symbols that are
skipped and matches that are recovered behind them. `Recovers` and `Recounts` say how, turn by turn.
Whatever comes of it, every symbol lies in one segment, and the segments stand in the order that
they should (`Recounts.accounts`).
-/

namespace Descent

/-! ## Segments -/

/-- A part of the symbols, as a parse leaves it. -/
inductive Segment where
  /-- The match of the root at the first symbol. -/
  | primary (tree : MatchTree) (stop : Nat)
  | skipped (start stop : Nat)
  /-- A match of the root after skipped symbols. -/
  | recovered (tree : MatchTree) (start stop : Nat)

namespace Segment

def start : Segment → Nat
  | primary .. => 0
  | skipped start _ => start
  | recovered _ start _ => start

def stop : Segment → Nat
  | primary _ stop => stop
  | skipped _ stop => stop
  | recovered _ _ stop => stop

/-- Where a run of skipped symbols begins. -/
def run? : Segment → Option Nat
  | skipped start _ => some start
  | _ => none

def recovered? : Segment → Option MatchTree
  | recovered tree _ _ => some tree
  | _ => none

def tree? : Segment → Option MatchTree
  | primary tree _ => some tree
  | skipped .. => none
  | recovered tree _ _ => some tree

/-- Each segment begins where the one before it stops, the first at `p`, and the last stops at
`q`. -/
def Lead : Nat → List Segment → Nat → Prop
  | p, [], q => p = q
  | p, s :: ss, q => s.start = p ∧ p ≤ s.stop ∧ Lead s.stop ss q

/-- After a match symbols are skipped, and after these there is a recovered match. -/
def Alternate : Segment → Segment → Prop
  | primary .., skipped .. => True
  | recovered .., skipped .. => True
  | skipped .., recovered .. => True
  | _, _ => False

end Segment

section

variable (c : CompiledGrammar) (symbols : Array Symbol)

/-- The root fails at the position or reads nothing there. -/
def CompiledGrammar.RootReadsNothing (i : Nat) : Prop :=
  ∀ tree q, c.matched? symbols c.root i = some (tree, q) → q = i

/-- The parse has skipped the symbols from `a` on and come to `i`; from there on it cuts the symbols
up so. -/
inductive Recovers : Nat → Nat → List Segment → Prop where
  | ended {a} : Recovers a symbols.size [.skipped a symbols.size]
  | skipped {a i segments} (hi : i < symbols.size) (hroot : c.RootReadsNothing symbols i)
      (rest : Recovers a (i + 1) segments) : Recovers a i segments
  | last {a i tree} (hi : i < symbols.size)
      (hroot : c.matched? symbols c.root i = some (tree, symbols.size)) :
      Recovers a i [.skipped a i, .recovered tree i symbols.size]
  | found {a i tree q segments} (hi : i < q) (hq : q < symbols.size)
      (hroot : c.matched? symbols c.root i = some (tree, q))
      (rest : Recovers q (q + 1) segments) :
      Recovers a i (.skipped a i :: .recovered tree i q :: segments)

/-- A whole parse cuts the symbols up so. -/
inductive Recounts : List Segment → Prop where
  | whole {tree} (hroot : c.matched? symbols c.root 0 = some (tree, symbols.size)) :
      Recounts [.primary tree symbols.size]
  | short {tree q segments} (hroot : c.matched? symbols c.root 0 = some (tree, q))
      (hq : q < symbols.size) (rest : Recovers c symbols q (q + 1) segments) :
      Recounts (.primary tree q :: segments)
  | nothing (hroot : c.matched? symbols c.root 0 = none) (hsize : symbols.size = 0) : Recounts []
  | unmatched {segments} (hroot : c.matched? symbols c.root 0 = none) (hsize : 0 < symbols.size)
      (rest : Recovers c symbols 0 1 segments) : Recounts segments

/-- The segments account for all the symbols. -/
structure Accounts (segments : List Segment) : Prop where
  lead : Segment.Lead 0 segments symbols.size
  alternate : segments.IsChain Segment.Alternate
  /-- Symbols are skipped before the first match that is recovered. -/
  head : ∀ tree start stop, segments.head? ≠ some (.recovered tree start stop)
  primary : ∀ tree stop, .primary tree stop ∈ segments ↔
    c.matched? symbols c.root 0 = some (tree, stop)
  recovered : ∀ tree start stop, .recovered tree start stop ∈ segments → start < stop ∧
    c.matched? symbols c.root start = some (tree, stop)
  skipped : ∀ start stop, .skipped start stop ∈ segments → start < stop ∧
    ∀ i, start < i → i < stop → c.RootReadsNothing symbols i

end

variable {c : CompiledGrammar} {symbols : Array Symbol} {a i : Nat} {segments : List Segment}

namespace Recovers

theorem exists_cons (h : Recovers c symbols a i segments) :
    ∃ stop rest, segments = .skipped a stop :: rest := by
  induction h with
  | ended | last | found => exact ⟨_, _, rfl⟩
  | skipped _ _ _ ih => exact ih

theorem lead (h : Recovers c symbols a i segments) (ha : a ≤ i) :
    Segment.Lead a segments symbols.size := by
  induction h with
  | ended => exact ⟨rfl, ha, rfl⟩
  | skipped _ _ _ ih => exact ih (Nat.le_succ_of_le ha)
  | last hi => exact ⟨rfl, ha, rfl, hi.le, rfl⟩
  | @found _ _ _ q _ hi _ _ _ ih => exact ⟨rfl, ha, rfl, hi.le, ih (Nat.le_succ q)⟩

theorem alternate (h : Recovers c symbols a i segments) :
    segments.IsChain Segment.Alternate := by
  induction h with
  | ended => exact .singleton _
  | skipped _ _ _ ih => exact ih
  | last => exact .cons_cons trivial (.singleton _)
  | found _ _ _ rest ih =>
      obtain ⟨stop, more, rfl⟩ := rest.exists_cons
      exact .cons_cons trivial (.cons_cons trivial ih)

theorem not_primary (h : Recovers c symbols a i segments) (tree : MatchTree) (stop : Nat) :
    .primary tree stop ∉ segments := by
  induction h with
  | ended => simp
  | skipped _ _ _ ih => exact ih
  | last => simp
  | found _ _ _ _ ih => simpa using ih

theorem recovered (h : Recovers c symbols a i segments) {tree : MatchTree} {start stop : Nat}
    (hmem : .recovered tree start stop ∈ segments) :
    start < stop ∧ c.matched? symbols c.root start = some (tree, stop) := by
  induction h with
  | ended => simp at hmem
  | skipped _ _ _ ih => exact ih hmem
  | last hi hroot =>
      simp only [List.mem_cons, reduceCtorEq, List.not_mem_nil, or_false, false_or] at hmem
      cases hmem
      exact ⟨hi, hroot⟩
  | found hi _ hroot _ ih =>
      simp only [List.mem_cons, reduceCtorEq, false_or] at hmem
      rcases hmem with heq | hrest
      · cases heq
        exact ⟨hi, hroot⟩
      · exact ih hrest

/-- The invariant is that the root reads nothing between where the run began and where it is. -/
theorem skipped_of_mem (h : Recovers c symbols a i segments) (ha : a < i)
    (hread : ∀ j, a < j → j < i → c.RootReadsNothing symbols j) {start stop : Nat}
    (hmem : .skipped start stop ∈ segments) :
    start < stop ∧ ∀ j, start < j → j < stop → c.RootReadsNothing symbols j := by
  induction h with
  | ended =>
      cases List.mem_singleton.mp hmem
      exact ⟨ha, hread⟩
  | @skipped a i _ _ hroot _ ih =>
      refine ih (Nat.lt_succ_of_lt ha) ?_ hmem
      intro j haj hji
      rcases Nat.lt_succ_iff_lt_or_eq.mp hji with hlt | rfl
      · exact hread j haj hlt
      · exact hroot
  | last =>
      simp only [List.mem_cons, reduceCtorEq, List.not_mem_nil, or_false] at hmem
      cases hmem
      exact ⟨ha, hread⟩
  | @found _ _ _ q _ _ _ _ _ ih =>
      simp only [List.mem_cons, reduceCtorEq, false_or] at hmem
      rcases hmem with heq | hrest
      · cases heq
        exact ⟨ha, hread⟩
      -- behind the match a run begins anew, and so far it is one symbol
      · exact ih (Nat.lt_succ_self q) (fun j hqj hjq => absurd hjq (by omega)) hrest

end Recovers

/-- However a parse cuts the symbols up, it accounts for all of them. -/
theorem Recounts.accounts (h : Recounts c symbols segments) : Accounts c symbols segments := by
  cases h with
  | @whole tree hroot =>
      refine ⟨⟨rfl, Nat.zero_le _, rfl⟩, .singleton _, by simp, ?_, by simp, by simp⟩
      intro tree' stop
      rw [List.mem_singleton, hroot]
      constructor
      · rintro ⟨⟩
        rfl
      · rintro ⟨⟩
        rfl
  | @short tree q rest hroot hq hrest =>
      obtain ⟨stop, more, hcons⟩ := hrest.exists_cons
      refine ⟨⟨rfl, Nat.zero_le _, hrest.lead (Nat.le_succ q)⟩, ?_, by simp, ?_, ?_, ?_⟩
      · rw [hcons]
        exact .cons_cons trivial (hcons ▸ hrest.alternate)
      · intro tree' stop'
        rw [List.mem_cons, hroot]
        constructor
        · rintro (heq | hmem)
          · cases heq
            rfl
          · exact absurd hmem (hrest.not_primary _ _)
        · rintro ⟨⟩
          exact Or.inl rfl
      · intro tree' start stop' hmem
        exact hrest.recovered (by simpa using hmem)
      · intro start stop' hmem
        exact hrest.skipped_of_mem (Nat.lt_succ_self q) (fun j hqj hjq => absurd hjq (by omega))
          (by simpa using hmem)
  | nothing hroot hsize =>
      refine ⟨hsize.symm, .nil, by simp, ?_, by simp, by simp⟩
      intro tree stop
      rw [hroot]
      simp
  | unmatched hroot hsize hrest =>
      obtain ⟨stop, more, hcons⟩ := hrest.exists_cons
      refine ⟨hrest.lead (Nat.zero_le 1), hrest.alternate, ?_, ?_, ?_, ?_⟩
      · simp [hcons]
      · intro tree stop'
        rw [hroot]
        simpa using hrest.not_primary tree stop'
      · intro tree start stop' hmem
        exact hrest.recovered hmem
      · intro start stop' hmem
        exact hrest.skipped_of_mem Nat.zero_lt_one (fun j hqj hjq => absurd hjq (by omega)) hmem

/-- Every recovered match has its own run of skipped symbols. -/
theorem Recovers.length_le (h : Recovers c symbols a i segments) :
    (segments.filterMap Segment.recovered?).length ≤ (segments.filterMap Segment.run?).length := by
  induction h with
  | ended => simp [List.filterMap_cons, Segment.recovered?]
  | skipped _ _ _ ih => exact ih
  | last => simp [List.filterMap_cons, Segment.recovered?, Segment.run?]
  | found _ _ _ _ ih =>
      simp only [List.filterMap_cons, Segment.recovered?, Segment.run?, List.length_cons]
      omega

theorem Recovers.trees (h : Recovers c symbols a i segments) :
    segments.filterMap Segment.tree? = segments.filterMap Segment.recovered? := by
  induction h with
  | ended | last => rfl
  | skipped _ _ _ ih => exact ih
  | found _ _ _ _ ih =>
      simp only [List.filterMap_cons, Segment.tree?, Segment.recovered?, ih]

theorem Recounts.length_le (h : Recounts c symbols segments) :
    (segments.filterMap Segment.recovered?).length ≤ (segments.filterMap Segment.run?).length := by
  cases h with
  | whole => simp [List.filterMap_cons, Segment.recovered?]
  | short _ _ hrest => exact hrest.length_le
  | nothing => exact Nat.le_refl _
  | unmatched _ _ hrest => exact hrest.length_le

end Descent
