import Descent.Compiled.Build
import Descent.Proofs.Grammar.Cycle
import Descent.Proofs.Grammar.Least

/-!
# Which grammars are compiled

`compile_iff_wellFormed` says that a grammar is compiled exactly when it is well formed, and what
the compiled grammar then holds: each reachable rule once, the root first, and the terminals sorted
by how they are matched.
-/

namespace Descent

open Relation

namespace Grammar

variable {α : Type} {g : Grammar α} {root : RuleId}

/-- What a grammar has to satisfy to be compiled from a root. -/
structure WellFormed (g : Grammar α) (root : RuleId) : Prop where
  /-- No misuse was recorded. -/
  unspoilt : g.errors = []
  declared : root.index < g.ruleCount
  rules : ∀ id r, g.Reachable root id → g.rule? id = some r → r.WellFormed g
  acyclic : ∀ id, g.Reachable root id → ¬ TransGen g.LeftEdge id id

/-- A reachable rule refers to the terminal. -/
def Uses (g : Grammar α) (root : RuleId) (t : TerminalId) : Prop :=
  ∃ id r, g.Reachable root id ∧ g.rule? id = some r ∧ t ∈ r.body.terminals

end Grammar

/-- The terminals are sorted as the rules reachable from the root need it. -/
structure TerminalOrder.Sorts {α : Type} (o : TerminalOrder) (g : Grammar α) (root : RuleId) :
    Prop where
  /-- No terminal stands in a list twice or in two lists. -/
  nodup : (o.ignored ++ o.literal ++ o.scanning).Nodup
  mem_ignored : ∀ t, t ∈ o.ignored ↔
    g.terminals.contains t = true ∧ g.terminals.isIgnored t = true
  mem_literal : ∀ t, t ∈ o.literal ↔
    g.terminals.contains t = true ∧ g.terminals.isIgnored t = false ∧ g.Uses root t ∧
      g.terminals.isLiteral t = true
  mem_scanning : ∀ t, t ∈ o.scanning ↔
    g.terminals.contains t = true ∧ g.terminals.isIgnored t = false ∧ g.Uses root t ∧
      g.terminals.isLiteral t = false
  ignored : o.ignored.Pairwise (·.index < ·.index)
  /-- Longer literals come first, and of equal length those registered first. -/
  literal : o.literal.Pairwise fun a b =>
    let length := fun t => (g.terminals.literalLength t).getD 0
    length b < length a ∨ (length a = length b ∧ a.index < b.index)
  scanning : o.scanning.Pairwise (·.index < ·.index)

/-- What a compiled grammar holds of the grammar it is made from. -/
structure CompiledGrammar.Covers {α : Type} (c : CompiledGrammar) (g : Grammar α) (root : RuleId) :
    Prop where
  root_eq : c.root = root
  nodup : c.order.Nodup
  head : c.order.head? = some root
  mem_order : ∀ id, id ∈ c.order ↔ g.Reachable root id
  compiled : ∀ id, (c.rule? id).isSome = true ↔ g.Reachable root id
  terminals : c.terminals.Sorts g root

theorem CompiledGrammar.Covers.root_mem_order {α : Type} {c : CompiledGrammar} {g : Grammar α}
    {root : RuleId} (h : c.Covers g root) : c.root ∈ c.order :=
  (h.mem_order c.root).mpr (h.root_eq ▸ .refl)

/-! ## Lists of terminals -/

namespace TerminalTable

theorem mem_ids {table : TerminalTable} {t : TerminalId} :
    t ∈ table.ids ↔ table.contains t = true := by
  unfold ids contains
  rw [List.mem_map, decide_eq_true_eq]
  constructor
  · rintro ⟨i, hi, rfl⟩
    exact List.mem_range.mp hi
  · intro h
    exact ⟨t.index, List.mem_range.mpr h, rfl⟩

theorem ids_increasing (table : TerminalTable) : table.ids.Pairwise (·.index < ·.index) := by
  unfold ids
  rw [List.pairwise_map]
  exact List.pairwise_lt_range

theorem nodup_of_increasing {ts : List TerminalId} (h : ts.Pairwise (·.index < ·.index)) :
    ts.Nodup :=
  List.Pairwise.imp (fun {a b} hab (heq : a = b) => Nat.lt_irrefl b.index (heq ▸ hab)) h

/-- Sorting by a length that falls keeps those of equal length as they are. -/
theorem sorted_by_length {ts : List TerminalId} {length : TerminalId → Nat}
    (h : ts.Pairwise (·.index < ·.index)) :
    (ts.mergeSort fun a b => decide (length b ≤ length a)).Pairwise fun a b =>
      length b < length a ∨ (length a = length b ∧ a.index < b.index) := by
  let le : TerminalId → TerminalId → Bool := fun a b => decide (length b ≤ length a)
  have htrans : ∀ a b c, le a b = true → le b c = true → le a c = true := by
    intro a b c hab hbc
    simp only [le, decide_eq_true_eq] at hab hbc ⊢
    omega
  have htotal : ∀ a b, (le a b || le b a) = true := by
    intro a b
    simp only [le, Bool.or_eq_true, decide_eq_true_eq]
    omega
  -- terminals of one length keep their order, since they are a sorted part of the list
  have hstable : ∀ k, (ts.mergeSort le).filter (length · = k) = ts.filter (length · = k) := by
    intro k
    have hpair : (ts.filter (length · = k)).Pairwise fun a b => le a b = true := by
      rw [List.pairwise_filter]
      refine h.imp fun {a b} _ ha hb => ?_
      simp only [decide_eq_true_eq] at ha hb
      simp only [le, decide_eq_true_eq]
      omega
    have hsub := (List.sublist_mergeSort htrans htotal hpair List.filter_sublist).filter
      (length · = k)
    simp only [List.filter_filter, Bool.and_self] at hsub
    exact (hsub.eq_of_length ((List.mergeSort_perm ts le).filter _).length_eq.symm).symm
  have hsorted : (ts.mergeSort le).Pairwise fun a b => le a b = true :=
    List.pairwise_mergeSort htrans htotal ts
  rw [List.pairwise_iff_forall_sublist] at hsorted ⊢
  intro a b hab
  have hle : length b ≤ length a := of_decide_eq_true (hsorted hab)
  rcases Nat.lt_or_eq_of_le hle with hlt | heq
  · exact Or.inl hlt
  · refine Or.inr ⟨heq.symm, ?_⟩
    have hkept := hab.filter (length · = length a)
    rw [hstable (length a)] at hkept
    simp only [heq, decide_true, List.filter_cons_of_pos, List.filter_nil] at hkept
    exact List.pairwise_iff_forall_sublist.mp h (hkept.trans List.filter_sublist)

end TerminalTable

namespace Grammar

variable {α : Type} {g : Grammar α} {root : RuleId} {order : List RuleId} {c : CompiledGrammar}

/-! ## Left edges -/

theorem mem_leftEdges {f : Facts} {a b : RuleId} : b ∈ g.leftEdges f a ↔
    ∃ r s, g.rule? a = some r ∧ r.body.Leads f.Null s ∧ b ∈ s.rules := by
  unfold leftEdges
  constructor
  · intro h
    split at h
    · cases h
    · next r hr =>
        obtain ⟨s, hs, hb⟩ := List.mem_flatMap.mp h
        exact ⟨r, s, hr, Facts.mem_leadingSteps.mp hs, hb⟩
  · rintro ⟨r, s, hr, hs, hb⟩
    rw [hr]
    exact List.mem_flatMap.mpr ⟨s, Facts.mem_leadingSteps.mpr hs, hb⟩

theorem LeftEdge.refers {a b : RuleId} (h : g.LeftEdge a b) : g.Refers a b := by
  obtain ⟨r, s, hr, hs, hb⟩ := h
  exact ⟨r, hr, Body.mem_rules.mpr ⟨s, hs.mem_steps, hb⟩⟩

/-- A path that begins in a set which its steps do not leave is one along any steps that are also
taken there. -/
theorem transGen_of_closed {β : Type} {r r' : β → β → Prop} {m : β → Prop} {a b : β}
    (hstep : ∀ x y, m x → r x y → r' x y ∧ m y) (ha : m a) (h : TransGen r a b) :
    TransGen r' a b ∧ m b := by
  induction h with
  | single h =>
      obtain ⟨hedge, hb⟩ := hstep _ _ ha h
      exact ⟨.single hedge, hb⟩
  | tail _ h ih =>
      obtain ⟨hedge, hb⟩ := hstep _ _ ih.2 h
      exact ⟨ih.1.tail hedge, hb⟩

section Order

variable (hs : Facts.Sound g order) (hclosed : ∀ id ∈ order, ∀ q, g.Refers id q → q ∈ order)

include hs hclosed

theorem mem_leftEdges_of_iff {a b : RuleId} (ha : a ∈ order) :
    b ∈ g.leftEdges (Facts.of g order) a ↔ g.LeftEdge a b := by
  rw [mem_leftEdges]
  refine exists_congr fun r => exists_congr fun s => and_congr_right fun hr => ?_
  exact and_congr (Facts.leads_of_iff hs hclosed ha hr) Iff.rfl

/-- The paths along computed left edges are those along left edges. -/
theorem transGen_leftEdges_iff {a b : RuleId} (ha : a ∈ order) :
    TransGen (LeftRecursion.Edge (g.leftEdges (Facts.of g order))) a b ↔
      TransGen g.LeftEdge a b := by
  have hstep : ∀ x y, x ∈ order →
      (LeftRecursion.Edge (g.leftEdges (Facts.of g order)) x y ↔ g.LeftEdge x y) :=
    fun x y => mem_leftEdges_of_iff hs hclosed
  constructor
  · intro h
    refine (transGen_of_closed (fun x y hx hxy => ?_) ha h).1
    have hedge := (hstep x y hx).mp hxy
    exact ⟨hedge, hclosed x hx y hedge.refers⟩
  · intro h
    refine (transGen_of_closed (fun x y hx hxy => ?_) ha h).1
    exact ⟨(hstep x y hx).mpr hxy, hclosed x hx y hxy.refers⟩

theorem leftRecursion?_eq_none_iff : g.leftRecursion? order (Facts.of g order) = none ↔
    ∀ id ∈ order, ¬ TransGen g.LeftEdge id id := by
  unfold leftRecursion?
  rw [Option.map_eq_none_iff, LeftRecursion.cycle?_eq_none_iff]
  · exact forall₂_congr fun id hid => not_congr (transGen_leftEdges_iff hs hclosed hid)
  · intro a ha b hb
    exact hclosed a ha b ((mem_leftEdges_of_iff hs hclosed ha).mp hb).refers

end Order

/-! ## The terminals of the reachable rules -/

theorem referenced_has {t : TerminalId} : (g.referenced order).has t = true ↔
    ∃ id ∈ order, ∃ r, g.rule? id = some r ∧ t ∈ r.body.terminals := by
  unfold referenced
  rw [TerminalSet.has_ofList, List.mem_flatMap]
  refine exists_congr fun id => and_congr_right fun _ => ?_
  cases hr : g.rule? id with
  | none => simp
  | some r => simp

theorem referenced_has_iff_uses (hmem : ∀ id, id ∈ order ↔ g.Reachable root id)
    {t : TerminalId} : (g.referenced order).has t = true ↔ g.Uses root t := by
  rw [referenced_has]
  constructor
  · rintro ⟨id, hid, r, hr, ht⟩
    exact ⟨id, r, (hmem id).mp hid, hr, ht⟩
  · rintro ⟨id, r, hid, hr, ht⟩
    exact ⟨id, (hmem id).mpr hid, r, hr, ht⟩

section TerminalOrder

variable {used : TerminalSet} {t : TerminalId}

theorem mem_ignored : t ∈ (g.terminalOrder used).ignored ↔
    g.terminals.contains t = true ∧ g.terminals.isIgnored t = true := by
  simp only [terminalOrder, List.mem_filter, TerminalTable.mem_ids]

theorem mem_literal : t ∈ (g.terminalOrder used).literal ↔
    g.terminals.contains t = true ∧ g.terminals.isIgnored t = false ∧ used.has t = true ∧
      g.terminals.isLiteral t = true := by
  simp only [terminalOrder, List.mem_mergeSort, List.mem_filter, TerminalTable.mem_ids,
    Bool.and_eq_true, Bool.not_eq_true', and_assoc]

theorem mem_scanning : t ∈ (g.terminalOrder used).scanning ↔
    g.terminals.contains t = true ∧ g.terminals.isIgnored t = false ∧ used.has t = true ∧
      g.terminals.isLiteral t = false := by
  simp only [terminalOrder, List.mem_filter, TerminalTable.mem_ids, Bool.and_eq_true,
    Bool.not_eq_true', and_assoc]

/-- Whether a terminal is ignored, and whether it is literal, tells its list from the others. -/
theorem nodup_terminalOrder : ((g.terminalOrder used).ignored ++ (g.terminalOrder used).literal ++
    (g.terminalOrder used).scanning).Nodup := by
  have hinc := g.terminals.ids_increasing
  have hliteral : (g.terminalOrder used).literal.Nodup :=
    (List.mergeSort_perm _ _).nodup_iff.mpr
      (TerminalTable.nodup_of_increasing ((hinc.filter _).filter _))
  rw [List.nodup_append, List.nodup_append]
  refine ⟨⟨TerminalTable.nodup_of_increasing (hinc.filter _), hliteral, ?_⟩,
    TerminalTable.nodup_of_increasing ((hinc.filter _).filter _), ?_⟩
  · rintro a ha b hb rfl
    have hig := (mem_ignored.mp ha).2
    rw [(mem_literal.mp hb).2.1] at hig
    cases hig
  · rintro a ha b hb rfl
    have hscan := mem_scanning.mp hb
    rcases List.mem_append.mp ha with ha | ha
    · have hig := (mem_ignored.mp ha).2
      rw [hscan.2.1] at hig
      cases hig
    · have hlit := (mem_literal.mp ha).2.2.2
      rw [hscan.2.2.2] at hlit
      cases hlit

end TerminalOrder

/-- The lists of terminals are sorted for the rules that are reachable. -/
theorem terminalOrder_sorts (hmem : ∀ id, id ∈ order ↔ g.Reachable root id) :
    (g.terminalOrder (g.referenced order)).Sorts g root := by
  have hinc := g.terminals.ids_increasing
  refine ⟨nodup_terminalOrder, fun t => mem_ignored, fun t => ?_, fun t => ?_, hinc.filter _,
    TerminalTable.sorted_by_length ((hinc.filter _).filter _), (hinc.filter _).filter _⟩
  · rw [mem_literal, referenced_has_iff_uses hmem]
  · rw [mem_scanning, referenced_has_iff_uses hmem]

/-! ## Compiling -/

theorem compile_eq_ok_iff : g.compile root = .ok c ↔
    g.errors = [] ∧ ∃ order, g.reachable root = .ok order ∧
      g.leftRecursion? order (Facts.of g order) = none ∧
      g.build root order (Facts.of g order) = c := by
  unfold compile
  -- the three ways to refuse, in the order they are tried
  cases g.errors with
  | cons e es => simp
  | nil =>
      cases hreach : g.reachable root with
      | error e =>
          constructor
          · intro h
            cases h
          · rintro ⟨_, order, h, _⟩
            cases h
      | ok order =>
          dsimp only [bind, Except.bind]
          cases hleft : g.leftRecursion? order (Facts.of g order) with
          | some cycle =>
              constructor
              · intro h
                cases h
              · rintro ⟨_, order', h, hnone, _⟩
                cases h
                rw [hleft] at hnone
                cases hnone
          | none =>
              constructor
              · intro h
                cases h
                exact ⟨rfl, order, rfl, hleft, rfl⟩
              · rintro ⟨_, order', h, _, rfl⟩
                cases h
                rfl

theorem rule?_build {f : Facts} {id : RuleId} : (g.build root order f).rule? id =
    if id ∈ order then (g.rule? id).map (compileRule f id) else none := by
  unfold CompiledGrammar.rule? build rule?
  rw [Array.getElem?_mapIdx]
  cases hr : g.rules[id.index]? with
  | none => simp
  | some r =>
      rw [Option.map_some, Option.join_some]
      by_cases hid : id ∈ order
      · rw [if_pos hid, if_pos (List.contains_iff_mem.mpr hid)]
        rfl
      · rw [if_neg hid, if_neg (fun h => hid (List.contains_iff_mem.mp h))]

theorem closed_of_reachable (hmem : ∀ id, id ∈ order ↔ g.Reachable root id) :
    ∀ id ∈ order, ∀ q, g.Refers id q → q ∈ order :=
  fun id hid q hq => (hmem q).mpr (((hmem id).mp hid).tail hq)

theorem covers_of_compile (h : g.compile root = .ok c) : c.Covers g root := by
  obtain ⟨_, order, hreach, _, rfl⟩ := compile_eq_ok_iff.mp h
  obtain ⟨hnodup, hhead, hmem, hs⟩ := reachable_spec hreach
  refine ⟨rfl, hnodup, hhead, hmem, fun id => ?_, terminalOrder_sorts hmem⟩
  rw [rule?_build, ← hmem id]
  by_cases hid : id ∈ order
  · obtain ⟨r, hr, _⟩ := hs id hid
    simp [hid, hr]
  · simp [hid]

theorem exists_compile_iff : (∃ c, g.compile root = .ok c) ↔ g.WellFormed root := by
  constructor
  · rintro ⟨c, hc⟩
    obtain ⟨herrors, order, hreach, hleft, _⟩ := compile_eq_ok_iff.mp hc
    obtain ⟨_, _, hmem, hs⟩ := reachable_spec hreach
    obtain ⟨hdeclared, hrules⟩ := reachable_ok_iff.mp ⟨order, hreach⟩
    refine ⟨herrors, hdeclared, hrules, fun id hid => ?_⟩
    exact (leftRecursion?_eq_none_iff hs (closed_of_reachable hmem)).mp hleft id ((hmem id).mpr hid)
  · rintro ⟨herrors, hdeclared, hrules, hacyclic⟩
    obtain ⟨order, hreach⟩ := reachable_ok_iff.mpr ⟨hdeclared, hrules⟩
    obtain ⟨_, _, hmem, hs⟩ := reachable_spec hreach
    refine ⟨_, compile_eq_ok_iff.mpr ⟨herrors, order, hreach, ?_, rfl⟩⟩
    rw [leftRecursion?_eq_none_iff hs (closed_of_reachable hmem)]
    exact fun id hid => hacyclic id ((hmem id).mp hid)

/-- A grammar is compiled exactly when it is well formed, and then the compiled grammar covers the
reachable rules and the terminals they need. -/
theorem compile_iff_wellFormed (g : Grammar α) (root : RuleId) :
    ((∃ c, g.compile root = .ok c) ↔ g.WellFormed root) ∧
      ∀ c, g.compile root = .ok c → c.Covers g root :=
  ⟨exists_compile_iff, fun _ => covers_of_compile⟩

/-- Lists of names and groups, a group being a list in parentheses: a choice within a choice, a set
of terminals, a nullable rule and an optional step. -/
def nested : Grammar Nat :=
  let g : Grammar Nat := {}
  let (opening, g) := g.addTerminal { matcher := .char '(' }
  let (closing, g) := g.addTerminal { matcher := .char ')' }
  let (comma, g) := g.addTerminal { matcher := .char ',' }
  let (short, g) := g.addTerminal { matcher := .literal "x" }
  let (long, g) := g.addTerminal { matcher := .literal "xy" }
  let (name, g) := g.addTerminal { matcher := .oneOf [long, short] }
  let (_, g) := g.addTerminal { matcher := .char ' ', ignored := true }
  let (list, g) := g.addRule "list"
  let (item, g) := g.addRule "item"
  let (group, g) := g.addRule "group"
  let g := g.define list [.separated (.rule item) (.terminal comma) true]
  let g := g.define item [.step (.choice [.terminal name, .choice [.rule group]])]
  g.define group [.step (.terminal opening), .optional (.rule list), .step (.terminal closing)]

/-- The bodies of its rules. -/
def nestedBodies : List Body :=
  [.separated (.rule ⟨1⟩) (.terminal ⟨2⟩) true,
    .sequence [⟨.choice [.terminal ⟨5⟩, .choice [.rule ⟨2⟩]], false⟩],
    .sequence [⟨.terminal ⟨0⟩, false⟩, ⟨.rule ⟨0⟩, true⟩, ⟨.terminal ⟨1⟩, false⟩]]

theorem body_nested (id : RuleId) :
    (nested.rule? id).map (·.body) = nestedBodies[id.index]? := by
  obtain ⟨_ | _ | _ | _⟩ := id <;> rfl

/-- A left edge leads from a list to an item or from an item to a group. A group begins to read at
its parenthesis. -/
theorem leftEdge_nested {a b : RuleId} (h : nested.LeftEdge a b) : a.index < b.index := by
  obtain ⟨r, s, hr, hleads, hb⟩ := h
  have hbody := body_nested a
  rw [hr, Option.map_some] at hbody
  obtain ⟨_ | _ | _ | _⟩ := a
  · rw [show r.body = _ from Option.some.inj hbody] at hleads
    rcases hleads with rfl | ⟨rfl, _⟩
    · cases List.mem_singleton.mp hb
      decide
    · cases hb
  · rw [show r.body = _ from Option.some.inj hbody] at hleads
    cases List.mem_singleton.mp hleads.mem_steps
    cases List.mem_singleton.mp hb
    decide
  · rw [show r.body = _ from Option.some.inj hbody] at hleads
    obtain ⟨before, slot, after, hslots, rfl, hall⟩ := hleads
    cases before with
    | nil =>
        cases hslots
        cases hb
    | cons first before =>
        obtain ⟨rfl, _⟩ := List.cons.inj hslots
        rcases hall _ List.mem_cons_self with hoptional | ⟨q, hq, _⟩
        · cases hoptional
        · cases hq
  · cases hbody

theorem exists_compile_nested : ∃ c, nested.compile ⟨0⟩ = .ok c := by
  have hok : (nested.reachable ⟨0⟩).isOk = true := by decide +kernel
  have hreach : ∃ order, nested.reachable ⟨0⟩ = .ok order := by
    cases h : nested.reachable ⟨0⟩ with
    | error e =>
        rw [h] at hok
        cases hok
    | ok order => exact ⟨order, rfl⟩
  have hpath : ∀ {a b}, TransGen nested.LeftEdge a b → a.index < b.index := by
    intro a b h
    induction h with
    | single h => exact leftEdge_nested h
    | tail _ h ih => exact Nat.lt_trans ih (leftEdge_nested h)
  obtain ⟨hdeclared, hrules⟩ := reachable_ok_iff.mp hreach
  refine exists_compile_iff.mpr ⟨rfl, hdeclared, hrules, fun id _ hcycle => ?_⟩
  exact Nat.lt_irrefl id.index (hpath hcycle)

theorem covers_nested : ∃ c, nested.compile ⟨0⟩ = .ok c ∧ c.Covers nested ⟨0⟩ := by
  obtain ⟨c, hc⟩ := exists_compile_nested
  exact ⟨c, hc, (compile_iff_wellFormed nested ⟨0⟩).2 c hc⟩

end Grammar

end Descent
