import Descent.Proofs.Match.Derivation
import Descent.Proofs.Match.First

/-!
# Match trees conform to the grammar

Every rule in a match tree comes from an evaluation of that rule somewhere within the match
(`Run.exists_run_of_mem`), and its children lie one behind the other from where it began to where it
ended: the steps of a sequence without gaps, each iteration of a repetition with something read, and
before each later item of a list room for a separator (`Run.lays`). So without lists nothing between
the symbols of a tree is lost (`Derives.positions_eq_range'`).
-/

namespace Descent

namespace MatchTree

/-- The trees lie one behind the other, from the first position to the last. -/
inductive Tiles (span : MatchTree → Nat → Nat → Prop) : Nat → List MatchTree → Nat → Prop where
  | nil {p} : Tiles span p [] p
  | cons {p q r t ts} (first : span t p q) (rest : Tiles span q ts r) : Tiles span p (t :: ts) r

end MatchTree

open MatchTree

/-! ## Where the trees lie -/

namespace CompiledGrammar

variable (c : CompiledGrammar) (symbols : Array Symbol)

/-- Where a tree begins and where it ends: that of a rule as the evaluation of the rule does. -/
def Spans : MatchTree → Nat → Nat → Prop
  | .absent, p, q => q = p
  | .symbol i, p, q => i = p ∧ q = p + 1
  | .rule id children, p, q => c.matched? symbols id p = some (.rule id children, q)

/-- The tree begins at or behind the position. -/
def SpansLater (t : MatchTree) (p q : Nat) : Prop := ∃ a, p ≤ a ∧ c.Spans symbols t a q

/-- Something is read from where the tree begins to where it ends. -/
def SpansMore (t : MatchTree) (p q : Nat) : Prop := p < q ∧ c.Spans symbols t p q

/-- Where the trees of a fragment that has matched lie. -/
def Lays (x : Fragment) (p : Nat) (ts : List MatchTree) (q : Nat) : Prop :=
  match x with
  | .leaf _ | .leaves _ | .step _ => ∃ t, ts = [t] ∧ c.Spans symbols t p q
  | .steps .. | .body _ (.sequence _) => Tiles (c.Spans symbols) p ts q
  | .more .. | .body _ (.separated ..) => Tiles (c.SpansLater symbols) p ts q
  | .again _ | .body _ (.cyclic _) => Tiles (c.SpansMore symbols) p ts q

end CompiledGrammar

namespace Run

variable {c : CompiledGrammar} {symbols : Array Symbol} {m p q : Nat} {x : Fragment}
  {o : Option (List MatchTree)} {ts : List MatchTree} {log : List Note}

/-- What a run keeps lies one behind the other. -/
theorem lays (hc : c.Consistent) (h : Run c symbols m x p o q log) (ho : o = some ts) :
    c.Lays symbols x p ts q := by
  induction h generalizing ts with
  | took =>
      cases ho
      exact ⟨_, rfl, rfl, rfl⟩
  | @rule m p id r o q log hr hlow body _ =>
      obtain ⟨children, rfl, rfl⟩ := Option.map_eq_some_iff.mp ho
      exact ⟨_, rfl, CompiledGrammar.matched?_of_run (o := some (.rule id children)) hc
        ((hc.mem_order id).mpr ⟨r, hr⟩) (.rule hr hlow body)⟩
  | first _ ih | next _ _ _ ih | step _ _ ih | sequence _ ih | cyclic _ ih => exact ih ho
  | done =>
      cases ho
      exact .nil
  | matched _ _ ih ihrest =>
      obtain ⟨us, rfl, rfl⟩ := Option.map_eq_some_iff.mp ho
      obtain ⟨t, rfl, ht⟩ := ih rfl
      exact .cons ht (ihrest rfl)
  | absent _ _ _ _ ihrest =>
      obtain ⟨us, rfl, rfl⟩ := Option.map_eq_some_iff.mp ho
      exact .cons rfl (ihrest rfl)
  | unseparated | givenBack | stalled | ended | idle | empty =>
      cases ho
      exact .nil
  | item sep _ _ _ _ ih ihmore =>
      cases ho
      obtain ⟨t, rfl, ht⟩ := ih rfl
      exact .cons ⟨_, (sep.progress hc rfl).le, ht⟩ (ihmore rfl)
  | again _ hread _ ih ihmore =>
      cases ho
      obtain ⟨t, rfl, ht⟩ := ih rfl
      exact .cons ⟨hread, ht⟩ (ihmore rfl)
  | separated _ _ ih ihmore =>
      cases ho
      obtain ⟨t, rfl, ht⟩ := ih rfl
      exact .cons ⟨_, Nat.le_refl _, ht⟩ (ihmore rfl)
  | missed | exhausted | failed | unmatched => cases ho

/-- A rule in the trees of a run has a run of its own, within it. -/
theorem exists_run_of_mem (hc : c.Consistent) (h : Run c symbols m x p o q log) (ho : o = some ts)
    {id : RuleId} {children : List MatchTree} (hmem : .rule id children ∈ postorderAll ts) :
    ∃ m' a z log', p ≤ a ∧ z ≤ q ∧
      Run c symbols m' (.leaf (.rule id)) a (some [.rule id children]) z log' := by
  -- the parts that a run is made of lie behind one another, so it is enough to have it in one
  have hafter : ∀ {p q r : Nat}, p ≤ q → (∃ m' a z log', q ≤ a ∧ z ≤ r ∧
      Run c symbols m' (.leaf (.rule id)) a (some [.rule id children]) z log') →
      ∃ m' a z log', p ≤ a ∧ z ≤ r ∧
        Run c symbols m' (.leaf (.rule id)) a (some [.rule id children]) z log' := by
    rintro p q r hpq ⟨m', a, z, log', ha, hz, hrun⟩
    exact ⟨m', a, z, log', hpq.trans ha, hz, hrun⟩
  have hbefore : ∀ {p q r : Nat}, q ≤ r → (∃ m' a z log', p ≤ a ∧ z ≤ q ∧
      Run c symbols m' (.leaf (.rule id)) a (some [.rule id children]) z log') →
      ∃ m' a z log', p ≤ a ∧ z ≤ r ∧
        Run c symbols m' (.leaf (.rule id)) a (some [.rule id children]) z log' := by
    rintro p q r hqr ⟨m', a, z, log', ha, hz, hrun⟩
    exact ⟨m', a, z, log', ha, hz.trans hqr, hrun⟩
  induction h generalizing ts with
  | took =>
      cases ho
      simp [postorderAll, postorder] at hmem
  | @rule m p b r o q log hr hlow body ih =>
      obtain ⟨us, rfl, rfl⟩ := Option.map_eq_some_iff.mp ho
      rw [postorderAll, postorderAll, List.append_nil, postorder, List.mem_append,
        List.mem_singleton] at hmem
      rcases hmem with hbelow | heq
      · exact ih rfl hbelow
      · cases heq
        exact ⟨m, p, q, _, Nat.le_refl p, Nat.le_refl q, .rule hr hlow body⟩
  | first _ ih | next _ _ _ ih | step _ _ ih | sequence _ ih | cyclic _ ih => exact ih ho hmem
  | matched step rest ih ihrest =>
      obtain ⟨us, rfl, rfl⟩ := Option.map_eq_some_iff.mp ho
      rw [postorderAll_append, List.mem_append] at hmem
      rcases hmem with hmem | hmem
      · exact hbefore (rest.progress hc rfl).le (ih rfl hmem)
      · exact hafter (step.progress hc rfl).le (ihrest rfl hmem)
  | absent _ _ _ _ ihrest =>
      obtain ⟨us, rfl, rfl⟩ := Option.map_eq_some_iff.mp ho
      rw [postorderAll, postorder, List.mem_append] at hmem
      rcases hmem with hmem | hmem
      · simp at hmem
      · exact ihrest rfl hmem
  | done | unseparated | givenBack | stalled | ended | idle | empty =>
      cases ho
      simp [postorderAll] at hmem
  | item sep step _ more _ ih ihmore =>
      cases ho
      have hsep := (sep.progress hc rfl).le
      rw [postorderAll_append, List.mem_append] at hmem
      rcases hmem with hmem | hmem
      · exact hafter hsep (hbefore (more.progress hc rfl).le (ih rfl hmem))
      · exact hafter (hsep.trans (step.progress hc rfl).le) (ihmore rfl hmem)
  | again step _ more ih ihmore | separated step more ih ihmore =>
      cases ho
      rw [postorderAll_append, List.mem_append] at hmem
      rcases hmem with hmem | hmem
      · exact hbefore (more.progress hc rfl).le (ih rfl hmem)
      · exact hafter (step.progress hc rfl).le (ihmore rfl hmem)
  | missed | exhausted | failed | unmatched => cases ho

end Run

/-! ## What the trees are -/

/-- The tree is of a kind that the step can leave: a symbol that some terminal of it accepts, or one
of its rules. -/
def Step.Fits {α : Type} (g : Grammar α) (symbols : Array Symbol) (s : Step) : MatchTree → Prop
  | .absent => False
  | .symbol i => ∃ id x, .terminal id ∈ s.leaves ∧ symbols[i]? = some x ∧
      x.terminal ∈ g.terminals.accepted id
  | .rule id _ => .rule id ∈ s.leaves

/-- The children of a rule with the body, when it is matched from `p` to `q`: for a sequence one for
each step, for a list one for each item and for a repetition one for each iteration. -/
def Body.Conforms {α : Type} (g : Grammar α) (c : CompiledGrammar) (symbols : Array Symbol)
    (p : Nat) (children : List MatchTree) (q : Nat) : Body → Prop
  | .undefined => False
  | .sequence slots =>
      List.Forall₂ (fun slot t => slot.step.Fits g symbols t ∨
        (slot.optional = true ∧ t = .absent)) slots children ∧
      Tiles (c.Spans symbols) p children q
  | .separated item _ allowEmpty =>
      (∀ t ∈ children, item.Fits g symbols t) ∧ (allowEmpty = false → children ≠ []) ∧
      Tiles (c.SpansLater symbols) p children q
  | .cyclic alternatives =>
      (∀ t ∈ children, (Step.choice alternatives).Fits g symbols t) ∧
      Tiles (c.SpansMore symbols) p children q

theorem Step.Fits.choice {α : Type} {g : Grammar α} {symbols : Array Symbol} {s : Step}
    {ss : List Step} {t : MatchTree} (hs : s ∈ ss) (h : s.Fits g symbols t) :
    (Step.choice ss).Fits g symbols t := by
  have hleaves : ∀ {l : Leaf}, l ∈ s.leaves → l ∈ (Step.choice ss).leaves := by
    intro l hl
    rw [Step.leaves]
    exact Step.mem_leavesOfAll.mpr ⟨s, hs, hl⟩
  cases t with
  | absent => exact h
  | symbol i =>
      obtain ⟨id, x, hid, hx, haccepts⟩ := h
      exact ⟨id, x, hleaves hid, hx, haccepts⟩
  | rule id children => exact hleaves h

namespace Derives

variable {α : Type} {g : Grammar α} {symbols : Array Symbol} {x : Part} {p q : Nat}
  {ts : List MatchTree}

theorem fits {s : Step} {t : MatchTree} (h : Derives g symbols (.step s) p [t] q) :
    s.Fits g symbols t := by
  generalize hx : Part.step s = x at h
  generalize hts : [t] = ts at h
  induction h generalizing s with
  | took hx haccepts =>
      cases hx
      cases hts
      exact ⟨_, _, by simp [Step.leaves], ‹_›, haccepts⟩
  | reference =>
      cases hx
      cases hts
      simp [Step.Fits, Step.leaves]
  | choice hs _ ih =>
      cases hx
      exact (ih rfl hts).choice hs
  | _ => cases hx

end Derives

/-! ## Which symbols are kept -/

/-- A list of items with separators between them. -/
def Body.IsList : Body → Prop
  | .separated .. => True
  | .undefined | .sequence _ | .cyclic _ => False

/-- What is kept of a match of the part may lack separators. -/
def Part.IsList : Part → Prop
  | .more .. => True
  | .body b => b.IsList
  | _ => False

/-- None of the rules in the trees is a list. -/
def Grammar.ListFree {α : Type} (g : Grammar α) (ts : List MatchTree) : Prop :=
  ∀ id children r, .rule id children ∈ postorderAll ts → g.rule? id = some r → ¬ r.body.IsList

namespace Grammar.ListFree

variable {α : Type} {g : Grammar α} {ts us : List MatchTree}

theorem append (h : g.ListFree (ts ++ us)) : g.ListFree ts ∧ g.ListFree us := by
  refine ⟨?_, ?_⟩
  · intro id children r hmem
    exact h id children r (by rw [postorderAll_append]; exact List.mem_append_left _ hmem)
  · intro id children r hmem
    exact h id children r (by rw [postorderAll_append]; exact List.mem_append_right _ hmem)

theorem body {id : RuleId} {r : Rule α} (h : g.ListFree [.rule id ts]) (hr : g.rule? id = some r) :
    g.ListFree ts ∧ ¬ r.body.IsList := by
  have hnodes : postorderAll [.rule id ts] = postorderAll ts ++ [.rule id ts] := by
    rw [postorderAll, postorderAll, List.append_nil, postorder]
  refine ⟨?_, h id ts r (by rw [hnodes]; simp) hr⟩
  intro b children x hmem
  exact h b children x (by rw [hnodes]; exact List.mem_append_left _ hmem)

end Grammar.ListFree

theorem range'_append_of_le {p q r : Nat} (hpq : p ≤ q) (hqr : q ≤ r) :
    List.range' p (q - p) ++ List.range' q (r - q) = List.range' p (r - p) := by
  have happend := List.range'_append_1 (s := p) (m := q - p) (n := r - q)
  rwa [Nat.add_sub_cancel' hpq, show q - p + (r - q) = r - p by omega] at happend

/-- Where there are no lists, every symbol that is read is kept. -/
theorem Derives.positions_eq_range' {α : Type} {g : Grammar α} {symbols : Array Symbol} {x : Part}
    {p q : Nat} {ts : List MatchTree} (h : Derives g symbols x p ts q) (hfree : g.ListFree ts)
    (hx : ¬ x.IsList) : positions ts = List.range' p (q - p) := by
  induction h with
  | @took p =>
      rw [Nat.add_sub_cancel_left]
      simp [positions, postorderAll, postorder, position?]
  | reference hr _ ih =>
      rw [positions_rule]
      exact ih (hfree.body hr).1 (hfree.body hr).2
  | choice _ _ ih | sequence _ ih | cyclic _ ih => exact ih hfree id
  | done | ended =>
      rw [Nat.sub_self]
      rfl
  | matched step rest ih ih' | again step _ rest ih ih' =>
      rw [positions_append, ih hfree.append.1 id, ih' hfree.append.2 id]
      exact range'_append_of_le step.ascend.le rest.ascend.le
  | @absent p slot slots us r _ _ ih =>
      have hrest : g.ListFree us := (show g.ListFree ([.absent] ++ us) from hfree).append.2
      rw [positions_absent]
      exact ih hrest id
  | noMore | item | empty | separated => exact absurd trivial hx

/-! ## A whole match -/

/-- The tree of a match of the rule from `p` to `q`: it is built as the grammar says, and it
accounts for the symbols. -/
structure MatchTree.Conforms {α : Type} (g : Grammar α) (c : CompiledGrammar)
    (symbols : Array Symbol) (id : RuleId) (p : Nat) (tree : MatchTree) (q : Nat) : Prop where
  root : ∃ children, tree = .rule id children
  spans : c.Spans symbols tree p q
  /-- Every rule in the tree was matched somewhere within, and has the children of its body. -/
  rules : ∀ b children, .rule b children ∈ tree.postorder → ∃ r a z, g.rule? b = some r ∧ p ≤ a ∧
    a ≤ z ∧ z ≤ q ∧ c.Spans symbols (.rule b children) a z ∧
    r.body.Conforms g c symbols a children z
  ascending : (positions [tree]).Pairwise (· < ·)
  bounds : ∀ i ∈ positions [tree], p ≤ i ∧ i < q
  gapless : g.ListFree [tree] → positions [tree] = List.range' p (q - p)
  /-- No symbol lies outside. -/
  symbol : ∀ i, .symbol i ∈ tree.postorder → ∃ x, symbols[i]? = some x
  /-- A rule of one step has one child. -/
  single : ∀ b children r st, .rule b children ∈ tree.postorder → c.rule? b = some r →
    r.body = .sequence [st] → ∃ t, children = [t]

theorem MatchTree.mem_positions {i : Nat} {ts : List MatchTree} (h : .symbol i ∈ postorderAll ts) :
    i ∈ positions ts :=
  List.mem_filterMap.mpr ⟨.symbol i, h, rfl⟩

namespace Grammar

variable {α : Type} {g : Grammar α} {root id : RuleId} {c : CompiledGrammar}

/-- What is matched of a body has the children of the body, and they lie where they should. -/
theorem conforms_of_lays {f : Facts} {symbols : Array Symbol} {p q : Nat} {b : Body}
    {children : List MatchTree} (hshape : b.Shape g symbols children)
    (hlays : c.Lays symbols (.body id (f.compileBody b)) p children q) :
    b.Conforms g c symbols p children q := by
  cases b with
  | undefined => exact hshape
  | sequence slots =>
      refine ⟨List.Forall₂.imp ?_ hshape, hlays⟩
      rintro slot t (⟨a, z, hstep⟩ | habsent)
      · exact Or.inl hstep.fits
      · exact Or.inr habsent
  | separated item separator allowEmpty =>
      refine ⟨?_, ?_, hlays⟩
      · intro t ht
        obtain ⟨a, z, hstep⟩ := hshape.1 t ht
        exact hstep.fits
      · rintro hsome rfl
        exact Bool.false_ne_true (hsome.symm.trans (hshape.2 rfl))
  | cyclic alternatives =>
      refine ⟨?_, hlays⟩
      intro t ht
      obtain ⟨a, z, _, hstep⟩ := hshape t ht
      exact hstep.fits

/-- A reachable rule of a compiled grammar is known to it, and the rules that it may try. -/
theorem rule?_isSome_of_compile (hcompile : g.compile root = .ok c) :
    (∀ id, g.Reachable root id → (c.rule? id).isSome = true) ∧
    ∀ a r, c.rule? a = some r → ∀ st ∈ r.body.steps, ∀ b, .rule b ∈ st.branches →
      (c.rule? b).isSome = true := by
  have hc := consistent_of_compile hcompile
  have hsome : ∀ {id : RuleId}, id ∈ c.order → (c.rule? id).isSome = true := by
    intro id hid
    obtain ⟨r, hr⟩ := hc.isSome hid
    rw [hr]
    rfl
  refine ⟨?_, ?_⟩
  · intro id hid
    exact hsome (((covers_of_compile hcompile).mem_order id).mpr hid)
  · intro a r hr st hst b hb
    exact hsome (hc.known a r hr st hst b hb)

/-- Each rule of a compiled grammar is compiled from the rule of the grammar. -/
theorem exists_compileRule (hcompile : g.compile root = .ok c) :
    ∃ f : Facts, ∀ id r, c.rule? id = some r →
      ∃ x, g.rule? id = some x ∧ r = compileRule f id x := by
  obtain ⟨_, order, _, _, rfl⟩ := compile_eq_ok_iff.mp hcompile
  exact ⟨Facts.of g order, fun id r hr => (rule?_build_eq_some hr).2⟩

/-- A rule within a match has the children of its body. -/
theorem exists_conforms_of_mem (hcompile : g.compile root = .ok c) {symbols : Array Symbol}
    {x : Part} {y : Fragment} {m p q : Nat} {ts : List MatchTree} {log : List Note}
    (hderives : Derives g symbols x p ts q) (hrun : Run c symbols m y p (some ts) q log)
    {children : List MatchTree} (hmem : .rule id children ∈ postorderAll ts) :
    ∃ r a z, g.rule? id = some r ∧ p ≤ a ∧ a ≤ z ∧ z ≤ q ∧
      c.Spans symbols (.rule id children) a z ∧ r.body.Conforms g c symbols a children z := by
  have hc := consistent_of_compile hcompile
  obtain ⟨f, hf⟩ := exists_compileRule hcompile
  obtain ⟨r, hr, hshape⟩ := hderives.shape_of_mem hmem
  obtain ⟨m', a, z, log', ha, hz, hrule⟩ := hrun.exists_run_of_mem hc rfl hmem
  obtain ⟨_, hsingle, hspan⟩ := hrule.lays hc rfl
  obtain rfl := List.singleton_inj.mp hsingle
  refine ⟨r, a, z, hr, ha, (hrule.progress hc rfl).le, hz, hspan, ?_⟩
  generalize ho : some [MatchTree.rule id children] = o at hrule
  cases hrule with
  | rule hknown _ hbody =>
      obtain ⟨us, rfl, heq⟩ := Option.map_eq_some_iff.mp ho.symm
      cases heq
      obtain ⟨y, hy, rfl⟩ := hf id _ hknown
      cases hr.symm.trans hy
      exact conforms_of_lays hshape (hbody.lays hc rfl)

theorem conforms_of_matched? (hcompile : g.compile root = .ok c) (hid : g.Reachable root id)
    {symbols : Array Symbol} {p q : Nat} {tree : MatchTree}
    (h : c.matched? symbols id p = some (tree, q)) : tree.Conforms g c symbols id p q := by
  have hc := consistent_of_compile hcompile
  have hmem : id ∈ c.order := ((covers_of_compile hcompile).mem_order id).mpr hid
  have hnodes : postorderAll [tree] = tree.postorder := by
    rw [postorderAll, postorderAll, List.append_nil]
  have hderives := derives_of_matched? hcompile hid h
  have hascend := hderives.ascend
  obtain ⟨m, log, hrun⟩ := c.run_of_matched? hc hmem h
  have hrules : ∀ b children, .rule b children ∈ tree.postorder → ∃ r a z, g.rule? b = some r ∧
      p ≤ a ∧ a ≤ z ∧ z ≤ q ∧ c.Spans symbols (.rule b children) a z ∧
      r.body.Conforms g c symbols a children z := by
    intro b children hb
    exact exists_conforms_of_mem hcompile hderives hrun (hnodes ▸ hb)
  obtain ⟨_, ht, hspans⟩ := hrun.lays hc rfl
  obtain rfl := List.singleton_inj.mp ht
  exact
    { root := by
        cases hderives with
        | reference => exact ⟨_, rfl⟩
      spans := hspans
      rules := hrules
      ascending := hascend.ascending
      bounds := hascend.bounds
      gapless := fun hfree => hderives.positions_eq_range' hfree not_false
      symbol := by
        intro i hi
        obtain ⟨hpi, hiq⟩ := hascend.bounds i (mem_positions (hnodes ▸ hi))
        rcases hrun.progress hc rfl with ⟨rfl, _⟩ | ⟨_, hsize, _⟩
        · omega
        · exact ⟨symbols[i], Array.getElem?_eq_getElem (hiq.trans_le hsize)⟩
      single := by
        intro b children r st hb hr hbody
        obtain ⟨f, hf⟩ := exists_compileRule hcompile
        obtain ⟨x, hx, rfl⟩ := hf b r hr
        obtain ⟨y, a, z, hy, _, _, _, _, hconforms⟩ := hrules b children hb
        cases hx.symm.trans hy
        replace hbody : f.compileBody x.body = .sequence [st] := hbody
        cases hkind : x.body with
        | undefined | separated | cyclic =>
            rw [hkind] at hbody
            cases hbody
        | sequence slots =>
            rw [hkind] at hbody hconforms
            obtain ⟨slot, slots, rfl, _, hnil⟩ :=
              List.map_eq_cons_iff.mp (CompiledBody.sequence.inj hbody)
            obtain rfl := List.map_eq_nil_iff.mp hnil
            cases hconforms.1 with
            | cons _ hrest =>
                cases hrest
                exact ⟨_, rfl⟩ }

/-- What a reachable rule of a compiled grammar matches, under any caps, has a tree that is built as
the grammar says and that accounts for the symbols from where the rule was tried to where it ended.
The rules that an evaluation tries are known. -/
theorem evaluate_conforms (hcompile : g.compile root = .ok c) (hid : g.Reachable root id) :
    (∀ (limits : Limits) (s t : EvalState) (tree : MatchTree), s.Ready c →
      c.evaluate limits id s = .ok (some tree) t →
      tree.Conforms g c s.cursor.symbols id s.cursor.position t.cursor.position) ∧
    (c.rule? id).isSome = true ∧
    ∀ a r, c.rule? a = some r → ∀ st ∈ r.body.steps, ∀ b, .rule b ∈ st.branches →
      (c.rule? b).isSome = true := by
  obtain ⟨hreachable, hbranches⟩ := rule?_isSome_of_compile hcompile
  refine ⟨?_, hreachable id hid, hbranches⟩
  intro limits s t tree hs heval
  have hmem : id ∈ c.order := ((covers_of_compile hcompile).mem_order id).mpr hid
  exact conforms_of_matched? hcompile hid
    (CompiledGrammar.matched?_of_evaluate (consistent_of_compile hcompile) hmem hs heval)

/-- A sum of two marks and one: the sign between them is read and not kept. -/
theorem evaluate_tally_conforms :
    let s := EvalState.initial tallyCompiled {} #[⟨⟨0⟩, 0, "i", false⟩, ⟨⟨0⟩, 1, "i", false⟩,
      ⟨⟨1⟩, 2, "+", false⟩, ⟨⟨0⟩, 3, "i", false⟩]
    tally.compile ⟨0⟩ = .ok tallyCompiled ∧ ∃ tree t,
      tallyCompiled.evaluate {} ⟨0⟩ s = .ok (some tree) t ∧
      positions [tree] = [0, 1, 3] ∧ t.cursor.position = 4 ∧
      tree.Conforms tally tallyCompiled s.cursor.symbols ⟨0⟩ 0 4 := by
  intro s
  have hconforms := (evaluate_conforms compile_tally .refl).1 {} s
  have hends : (tallyCompiled.matched? s.cursor.symbols ⟨0⟩ 0).map
      (fun found => (positions [found.1], found.2)) = some ([0, 1, 3], 4) := by decide +kernel
  unfold CompiledGrammar.matched? at hends
  split at hends
  · next tree t heval =>
      obtain ⟨hpositions, hend⟩ := Prod.mk.inj (Option.some.inj hends)
      have hend : t.cursor.position = 4 := hend
      have htree := hconforms t tree (EvalState.ready_initial tallyCompiled {} _) heval
      rw [hend] at htree
      exact ⟨compile_tally, tree, t, heval, hpositions, hend, htree⟩
  · cases hends

end Grammar

end Descent
