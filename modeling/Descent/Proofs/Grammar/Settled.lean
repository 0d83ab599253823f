import Descent.Proofs.Grammar.Nullable

/-!
# The facts settle

A round only adds facts, and a fact is a rule with either "it is nullable" or one of the registered
terminals. So the rounds that change something are no more than there are facts, the fuel is not
used up, and the answer is closed under every rule.
-/

namespace Descent

namespace TerminalSet

theorem has_foldl_union {β : Type} {h : β → TerminalSet} {xs : List β} {s : TerminalSet}
    {t : TerminalId} :
    (xs.foldl (fun s x => s ∪ h x) s).has t = true ↔
      s.has t = true ∨ ∃ x ∈ xs, (h x).has t = true := by
  induction xs generalizing s with
  | nil => simp
  | cons x xs ih => simp [ih, or_assoc]

theorem has_ofList {ids : List TerminalId} {t : TerminalId} :
    (ofList ids).has t = true ↔ t ∈ ids := by
  unfold ofList
  rw [has_foldl_union]
  simp

end TerminalSet

/-! ## Leaves and accepted terminals -/

namespace Step

theorem mem_leavesOfAll {l : Leaf} {ss : List Step} :
    l ∈ leavesOfAll ss ↔ ∃ s ∈ ss, l ∈ s.leaves := by
  induction ss with
  | nil => simp [leavesOfAll]
  | cons s ss ih => simp [leavesOfAll, ih]

theorem WellFormed.contains {table : TerminalTable} {s : Step} (h : s.WellFormed table)
    {id : TerminalId} (hid : .terminal id ∈ s.leaves) : table.contains id = true := by
  induction h with
  | terminal h =>
      rw [leaves, List.mem_singleton] at hid
      cases hid
      exact h
  | rule =>
      rw [leaves, List.mem_singleton] at hid
      cases hid
  | choice _ _ ih =>
      rw [leaves, mem_leavesOfAll] at hid
      obtain ⟨s, hs, hid⟩ := hid
      exact ih s hs hid

end Step

namespace TerminalTable

theorem index_lt_of_mem_membersOf {table : TerminalTable} {id m : TerminalId}
    (h : m ∈ table.membersOf id) : m.index < id.index := by
  unfold membersOf at h
  split at h
  · cases h
  · exact of_decide_eq_true (List.mem_filter.mp h).2

/-- What holds of a terminal alone and is kept when a terminal that was met brings its members holds
of all that a reference accepts. -/
theorem accepted_induction {table : TerminalTable} {id : TerminalId} {P : List TerminalId → Prop}
    (single : P [id])
    (add : ∀ found s, P found → s ∈ found → P (TerminalId.merge found (table.membersOf s))) :
    P (table.accepted id) := by
  have hcollect : ∀ turns i found, P found → P (table.collect turns i found) := by
    intro turns
    induction turns with
    | zero => exact fun _ _ hfound => hfound
    | succ turns ih =>
        intro i found hfound
        unfold collect
        split
        · exact hfound
        · next s hs => exact ih _ _ (add found s hfound (List.mem_of_getElem? hs))
  exact hcollect _ _ _ single

/-- A reference accepts no terminal that was registered later. -/
theorem index_le_of_mem_accepted {table : TerminalTable} {id m : TerminalId}
    (h : m ∈ table.accepted id) : m.index ≤ id.index := by
  have hall : ∀ m ∈ table.accepted id, m.index ≤ id.index := by
    refine accepted_induction (P := fun found => ∀ m ∈ found, m.index ≤ id.index) (by simp) ?_
    intro found s hfound hs m hm
    rcases TerminalId.mem_merge.mp hm with hm | hm
    · exact hfound m hm
    · exact (Nat.le_of_lt (index_lt_of_mem_membersOf hm)).trans (hfound s hs)
  exact hall m h

end TerminalTable

namespace Facts

variable {α : Type} {g : Grammar α} {f f' : Facts}

/-! ## Single facts -/

/-- The facts about the rule with number `i`: fact 0 is that it is nullable, fact `t + 1` that the
terminal with number `t` can begin it. -/
def holds (f : Facts) (i : Nat) : Nat → Bool
  | 0 => f.nullable[i]?.getD false
  | t + 1 => (f.first[i]?.getD ∅).has ⟨t⟩

def Le (f f' : Facts) : Prop := ∀ i k, f.holds i k = true → f'.holds i k = true

/-- What holds of the facts in every round. -/
structure Fits (g : Grammar α) (f : Facts) : Prop where
  nullable : f.nullable.size = g.ruleCount
  first : f.first.size = g.ruleCount
  accepts : f.accepts = (initial g).accepts
  bounded : ∀ i t, f.holds i (t + 1) = true → t < g.terminals.size

theorem null_iff_holds {id : RuleId} : f.Null id ↔ f.holds id.index 0 = true := Iff.rfl

theorem Le.trans {f'' : Facts} (h : f.Le f') (h' : f'.Le f'') : f.Le f'' :=
  fun i k hk => h' i k (h i k hk)

theorem Fits.eq_of_le (hf : f.Fits g) (hf' : f'.Fits g) (h : f.Le f') (h' : f'.Le f) : f = f' := by
  have hholds : ∀ i k, f.holds i k = f'.holds i k := fun i k =>
    Bool.eq_iff_iff.mpr ⟨h i k, h' i k⟩
  have hnull : f.nullable = f'.nullable := by
    apply Array.ext (hf.nullable.trans hf'.nullable.symm)
    intro i hi hi'
    have hi0 := hholds i 0
    simpa [holds, hi, hi'] using hi0
  have hfirst : f.first = f'.first := by
    apply Array.ext (hf.first.trans hf'.first.symm)
    intro i hi hi'
    apply TerminalSet.ext
    intro t
    have hit := hholds i (t.index + 1)
    simpa [holds, hi, hi'] using hit
  have haccepts := hf.accepts.trans hf'.accepts.symm
  obtain ⟨n, s, a⟩ := f
  obtain ⟨n', s', a'⟩ := f'
  cases hnull
  cases hfirst
  cases haccepts
  rfl

/-! ## One rule -/

/-- The first half of `add`. -/
def addNullable (f : Facts) (id : RuleId) (b : Body) : Facts :=
  { f with nullable := f.nullable.modify id.index (· || f.bodyNullable b) }

theorem holds_add_zero {id : RuleId} {b : Body} (hid : id.index < f.nullable.size) {i : Nat} :
    (f.add id b).holds i 0 = true ↔
      f.holds i 0 = true ∨ (i = id.index ∧ f.bodyNullable b = true) := by
  by_cases hi : i = id.index
  · subst hi
    simp [holds, add, Array.getElem_modify_self, hid]
  · have hne : id.index ≠ i := fun h => hi h.symm
    simp [holds, add, Array.getElem?_modify, hi, hne]

theorem holds_add_succ {id : RuleId} {b : Body} (hid : id.index < f.first.size) {i t : Nat} :
    (f.add id b).holds i (t + 1) = true ↔
      f.holds i (t + 1) = true ∨
        (i = id.index ∧ ((f.addNullable id b).bodyFirst b).has ⟨t⟩ = true) := by
  by_cases hi : i = id.index
  · subst hi
    simp [holds, add, addNullable, Array.getElem_modify_self, hid]
  · have hne : id.index ≠ i := fun h => hi h.symm
    simp [holds, add, Array.getElem?_modify, hi, hne]

theorem le_add {id : RuleId} {b : Body} : f.Le (f.add id b) := by
  intro i k hk
  cases k with
  | zero =>
      by_cases hi : id.index = i
      · subst hi
        simp only [holds, add, Array.getElem?_modify, if_true] at hk ⊢
        cases hget : f.nullable[id.index]? with
        | none => rw [hget] at hk; exact hk
        | some v =>
            rw [hget] at hk
            exact Bool.or_eq_true_iff.mpr (Or.inl hk)
      · simpa [holds, add, Array.getElem?_modify, hi] using hk
  | succ t =>
      by_cases hi : id.index = i
      · subst hi
        simp only [holds, add, Array.getElem?_modify, if_true] at hk ⊢
        cases hget : f.first[id.index]? with
        | none => rw [hget] at hk; exact hk
        | some v =>
            rw [hget] at hk
            simp only [Option.map_some, Option.getD_some] at hk ⊢
            rw [TerminalSet.has_union, hk, Bool.true_or]
      · simpa [holds, add, Array.getElem?_modify, hi] using hk

/-- What can begin a body can begin an alternative of a step that the body can begin to read in. -/
theorem has_bodyFirst {b : Body} {t : TerminalId} : (f.bodyFirst b).has t = true ↔
    ∃ s, b.Leads f.Null s ∧ ∃ l ∈ s.leaves, (f.leafFirst l).has t = true := by
  unfold bodyFirst stepFirst leavesFirst
  simp only [TerminalSet.has_foldl_union, TerminalSet.has_empty, Bool.false_eq_true, false_or,
    mem_leadingSteps]

theorem Fits.addNullable (h : f.Fits g) {id : RuleId} {b : Body} :
    (f.addNullable id b).Fits g :=
  ⟨by simpa [Facts.addNullable] using h.nullable, h.first, h.accepts, h.bounded⟩

theorem Fits.leafFirst_terminal (h : f.Fits g) {id t : TerminalId}
    (hid : g.terminals.contains id = true) :
    (f.leafFirst (.terminal id)).has t = true ↔ t ∈ g.terminals.accepted id := by
  have hid : id.index < g.terminals.size := of_decide_eq_true hid
  simp only [leafFirst, h.accepts, initial, TerminalTable.ids, List.map_map,
    List.getElem?_toArray, List.getElem?_map, List.getElem?_range hid, Option.map_some,
    Option.getD_some, Function.comp_apply, TerminalSet.has_ofList]

theorem Fits.accepts_lt (h : f.Fits g) {id t : TerminalId} (hid : g.terminals.contains id = true)
    (ht : (f.leafFirst (.terminal id)).has t = true) : t.index < g.terminals.size := by
  have hle := TerminalTable.index_le_of_mem_accepted ((h.leafFirst_terminal hid).mp ht)
  exact hle.trans_lt (of_decide_eq_true hid)

theorem Fits.add (h : f.Fits g) {id : RuleId} {r : Rule α} (hr : g.rule? id = some r)
    (hwf : r.WellFormed g) : (f.add id r.body).Fits g := by
  refine ⟨by simpa [Facts.add] using h.nullable, by simpa [Facts.add] using h.first, h.accepts, ?_⟩
  intro i t hit
  have hid : id.index < f.first.size := h.first ▸ Grammar.index_lt_of_rule? hr
  rcases (holds_add_succ hid).mp hit with hit | ⟨_, hit⟩
  · exact h.bounded i t hit
  · obtain ⟨s, hs, l, hl, ht⟩ := has_bodyFirst.mp hit
    cases l with
    | terminal x =>
        exact h.addNullable.accepts_lt ((hwf.steps s hs.mem_steps).contains hl) ht
    | rule q => exact h.bounded q.index t ht

theorem fits_initial : (initial g).Fits g := by
  refine ⟨by simp [initial], by simp [initial], rfl, fun i t h => ?_⟩
  by_cases hi : i < g.ruleCount <;> simp [holds, initial, hi] at h

/-! ## Rounds -/

section Rounds

variable {order : List RuleId}

/-- Every rule of the order is declared and well formed. -/
def Sound (g : Grammar α) (order : List RuleId) : Prop :=
  ∀ id ∈ order, ∃ r, g.rule? id = some r ∧ r.WellFormed g

theorem round_cons {id : RuleId} {r : Rule α} (hr : g.rule? id = some r) :
    round g (id :: order) f = round g order (f.add id r.body) := by
  unfold round
  rw [List.foldl_cons, hr]

/-- What is kept as the facts of one rule are added is kept by a round. -/
theorem round_induction {P : Facts → Prop} (hs : Sound g order)
    (hadd : ∀ f id r, g.rule? id = some r → r.WellFormed g → P f → P (f.add id r.body))
    (h : P f) : P (round g order f) := by
  induction order generalizing f with
  | nil => exact h
  | cons id order ih =>
      obtain ⟨⟨r, hr, hwf⟩, hs⟩ := List.forall_mem_cons.mp hs
      rw [round_cons hr]
      exact ih hs (hadd f id r hr hwf h)

theorem Fits.round (hs : Sound g order) (h : f.Fits g) : (round g order f).Fits g :=
  round_induction hs (fun _ _ _ hr hwf hfits => hfits.add hr hwf) h

theorem le_round (hs : Sound g order) : f.Le (round g order f) :=
  round_induction (P := f.Le) hs (fun _ _ _ _ _ hle => hle.trans le_add) fun _ _ hk => hk

/-- A round that adds nothing adds nothing at any of its rules. -/
theorem add_eq_of_round_eq (hs : Sound g order) (h : f.Fits g) (heq : round g order f = f)
    {id : RuleId} {r : Rule α} (hid : id ∈ order) (hr : g.rule? id = some r) :
    f.add id r.body = f := by
  induction order with
  | nil => cases hid
  | cons x order ih =>
      obtain ⟨⟨s, hx, hwf⟩, hs⟩ := List.forall_mem_cons.mp hs
      rw [round_cons hx] at heq
      have hadd : f.add x s.body = f := by
        refine ((h.eq_of_le (h.add hx hwf) le_add ?_)).symm
        have hle : (f.add x s.body).Le (Facts.round g order (f.add x s.body)) := le_round hs
        rwa [heq] at hle
      rcases List.mem_cons.mp hid with rfl | hid
      · rw [hx] at hr
        cases hr
        exact hadd
      · rw [hadd] at heq
        exact ih hs heq hid

/-- The facts that hold, as a finite set. -/
def known (g : Grammar α) (f : Facts) : Finset (Nat × Nat) :=
  (Finset.range g.ruleCount ×ˢ Finset.range (g.terminals.size + 1)).filter fun p =>
    f.holds p.1 p.2 = true

theorem card_known_le : (known g f).card ≤ g.ruleCount * (g.terminals.size + 1) := by
  refine (Finset.card_filter_le _ _).trans ?_
  rw [Finset.card_product, Finset.card_range, Finset.card_range]

theorem Fits.mem_known (h : f.Fits g) {i k : Nat} : (i, k) ∈ known g f ↔ f.holds i k = true := by
  unfold known
  rw [Finset.mem_filter, Finset.mem_product, Finset.mem_range, Finset.mem_range]
  refine ⟨And.right, fun hk => ⟨⟨?_, ?_⟩, hk⟩⟩
  · by_contra hi
    cases k with
    | zero =>
        have hnone : f.nullable[i]? = none :=
          Array.getElem?_eq_none (h.nullable.trans_le (Nat.not_lt.mp hi))
        simp [holds, hnone] at hk
    | succ t =>
        have hnone : f.first[i]? = none :=
          Array.getElem?_eq_none (h.first.trans_le (Nat.not_lt.mp hi))
        simp [holds, hnone] at hk
  · cases k with
    | zero => exact Nat.succ_pos _
    | succ t => exact Nat.succ_lt_succ (h.bounded i t hk)

/-- A round that is not the last adds a fact. -/
theorem card_known_lt (hs : Sound g order) (h : f.Fits g) (hne : round g order f ≠ f) :
    (known g f).card < (known g (round g order f)).card := by
  apply Finset.card_lt_card
  rw [Finset.ssubset_iff_subset_ne]
  constructor
  · rintro ⟨i, k⟩ hk
    exact (h.round hs).mem_known.mpr (le_round hs i k (h.mem_known.mp hk))
  · intro heq
    apply hne
    refine (h.round hs).eq_of_le h (fun i k hk => ?_) (le_round hs)
    rw [← h.mem_known, heq]
    exact (h.round hs).mem_known.mpr hk

/-- What a round keeps holds of the facts that are settled on. -/
theorem settle_induction {P : Facts → Prop} {fuel : Nat} (h : P f)
    (hround : ∀ f, P f → P (round g order f)) : P (settle g order fuel f) := by
  induction fuel generalizing f with
  | zero => exact h
  | succ fuel ih =>
      rw [settle]
      split
      · exact h
      · exact ih (hround f h)

theorem round_settle (hs : Sound g order) (h : f.Fits g) {fuel : Nat}
    (hfuel : g.ruleCount * (g.terminals.size + 1) < (known g f).card + fuel) :
    round g order (settle g order fuel f) = settle g order fuel f := by
  induction fuel generalizing f with
  | zero =>
      have hle := card_known_le (g := g) (f := f)
      omega
  | succ fuel ih =>
      rw [settle]
      split
      · next heq => exact heq
      · next hne =>
          have hlt := card_known_lt hs h hne
          exact ih (h.round hs) (by omega)

end Rounds

/-! ## The answer -/

section Answer

variable {order : List RuleId}

theorem fits_of (hs : Sound g order) : (Facts.of g order).Fits g :=
  settle_induction fits_initial fun _ h => h.round hs

theorem round_of (hs : Sound g order) : round g order (Facts.of g order) = Facts.of g order :=
  round_settle hs fits_initial (by omega)

/-- The facts follow from themselves no further. -/
structure Closed (g : Grammar α) (order : List RuleId) (f : Facts) : Prop where
  null : ∀ id ∈ order, ∀ r, g.rule? id = some r → r.body.NullableIn f.Null → f.Null id
  first : ∀ id ∈ order, ∀ r, g.rule? id = some r → ∀ t, (f.bodyFirst r.body).has t = true →
    (f.leafFirst (.rule id)).has t = true

theorem closed_of (hs : Sound g order) : Closed g order (Facts.of g order) := by
  have hfits := fits_of hs
  have hadd : ∀ id ∈ order, ∀ r, g.rule? id = some r →
      (Facts.of g order).add id r.body = Facts.of g order := fun id hid r hr =>
    add_eq_of_round_eq hs hfits (round_of hs) hid hr
  have hnull : ∀ id ∈ order, ∀ r, g.rule? id = some r →
      (Facts.of g order).bodyNullable r.body = true → (Facts.of g order).Null id := by
    intro id hid r hr hb
    have hlt : id.index < (Facts.of g order).nullable.size :=
      hfits.nullable ▸ Grammar.index_lt_of_rule? hr
    rw [null_iff_holds, ← hadd id hid r hr]
    exact (holds_add_zero hlt).mpr (Or.inr ⟨rfl, hb⟩)
  refine ⟨fun id hid r hr hb => hnull id hid r hr (bodyNullable_iff.mpr hb), ?_⟩
  intro id hid r hr t ht
  have hlt : id.index < (Facts.of g order).first.size :=
    hfits.first ▸ Grammar.index_lt_of_rule? hr
  -- the first half of `add` changes nothing either
  have hsame : (Facts.of g order).addNullable id r.body = Facts.of g order := by
    have heq := hadd id hid r hr
    have hn : ((Facts.of g order).add id r.body).nullable = (Facts.of g order).nullable := by
      rw [heq]
    unfold addNullable
    exact congrArg (fun n => { Facts.of g order with nullable := n }) hn
  show (Facts.of g order).holds id.index (t.index + 1) = true
  rw [← hadd id hid r hr]
  refine (holds_add_succ hlt).mpr (Or.inr ⟨rfl, ?_⟩)
  rwa [hsame]

end Answer

end Facts

end Descent
