import Descent.Proofs.Calc.Reads
import Descent.Proofs.Calc.Rules
import Descent.Proofs.Match.Derivation

/-!
# Derived words match

Whatever is derived from the grammar of the calculator the rules match, where an operator that they
would read on at does not follow, and the actions build the tree of the derivation
(`Reads.fits`, `ReadsStatements.fits`). The induction is on the derivation. `Suited` says along with
it that every action uses all of its children.
-/

namespace Descent.Calc

open MatchTree Sign Phrase

/-! ## Children that an action uses -/

/-- What the children of a rule are where its action leaves none of them out. -/
def Phrase.Suits : Phrase → Children Node → Prop
  | program, cs => ∃ ss : List Statement, cs = ss.map fun s => .node (.statement s)
  | letStatement, cs => ∃ k name a e s,
      cs = [.token k, .node (.expr (.variable name)), .token a, .node (.expr e), .token s]
  | printStatement, cs => ∃ k es s, cs = [.token k, .node (.args es), .token s]
  | args, cs => ∃ es : List Expr, cs = es.map fun e => .node (.expr e)
  | expr, cs | term, cs => ∃ e os, cs = [.node (.expr e), .node (.tail os)]
  | sumTail, cs | productTail, cs =>
      ∃ os : List (Operator × Expr), cs = os.map fun o => .node (.operation o.1 o.2)
  | sumStep, cs | productStep, cs =>
      ∃ t op e, Operator.ofSymbol? t.text = some op ∧ cs = [.token t, .node (.expr e)]
  | factor, cs => ∃ e, cs = [.node (.expr e)]
  | negation, cs => ∃ t e, cs = [.token t, .node (.expr e)]
  | group, cs => ∃ o e s, cs = [.token o, .node (.expr e), .token s]

section

variable (ss : List Statement) (es : List Expr) (os : List (Operator × Expr))

theorem buildArgs_eq : buildArgs (es.map fun e => .node (.expr e)) = .args es := by
  simp [buildArgs, List.filterMap_map, Value.node?, Node.expr?]

theorem buildTail_eq : buildTail (os.map fun o => .node (.operation o.1 o.2)) = .tail os := by
  simp [buildTail, List.filterMap_map, Value.node?, Node.operation?]

theorem buildChain_eq (e : Expr) : buildChain [.node (.expr e), .node (.tail os)] =
    .expr (os.foldl (fun left o => .binary o.1 left o.2) e) :=
  rfl

theorem buildOperation_eq {t : Token} {op : Operator} (h : Operator.ofSymbol? t.text = some op)
    (e : Expr) : buildOperation [.token t, .node (.expr e)] = .operation op e := by
  simp [buildOperation, Children.tokenAt?, exprAt?, Children.nodeAt?, Value.token?, Value.node?,
    Node.expr?, h]

end

namespace Level

/-- The rule for operands with operators of the level between them. -/
def chain : Level → Phrase
  | product => term
  | sum => expr

def tail : Level → Phrase
  | product => productTail
  | sum => sumTail

/-- The rule for an operator of the level and its right operand. -/
def operation : Level → Phrase
  | product => productStep
  | sum => sumStep

def operandPhrase : Level → Phrase
  | product => Phrase.factor
  | sum => term

def signs : Level → List Sign
  | product => [star, slash]
  | sum => [plus, minus]

variable (l : Level)

theorem body_chain :
    l.chain.body = .sequence [needed l.operandPhrase.step, needed l.tail.step] := by
  cases l <;> rfl

theorem body_tail : l.tail.body = .cyclic [l.operation.step] := by
  cases l <;> rfl

theorem body_operation : l.operation.body =
    .sequence [needed (.choice (l.signs.map Sign.step)), needed l.operandPhrase.step] := by
  cases l <;> rfl

end Level

/-! ## Trees that fit -/

section

variable (c : CompiledGrammar) (symbols : Array Symbol)

/-- What the trees build. -/
def values (ts : List MatchTree) : Children Node := ts.map (·.value grammar c symbols)

/-- Every rule in the trees has children that its action uses. -/
def Suited (ts : List MatchTree) : Prop :=
  ∀ id children, .rule id children ∈ postorderAll ts →
    ∃ p : Phrase, id = p.id ∧ p.Suits (values c symbols children)

/-- The part matches from `p` to `q` with these trees, and every action in them uses all of its
children. -/
structure Fits (x : Part) (p : Nat) (ts : List MatchTree) (q : Nat) : Prop where
  plain : Plain grammar symbols x p (some (ts, q))
  suited : Suited c symbols ts

/-- Operators have their own texts. -/
def Lexed : Prop :=
  ∀ x ∈ symbols, ∀ op : Operator, x.terminal = op.sign.id → x.text = op.symbol

end

section

variable {c : CompiledGrammar} {symbols : Array Symbol} {p q r : Nat} {x : Symbol} {s : Sign}
  {ts us : List MatchTree}

theorem values_append : values c symbols (ts ++ us) = values c symbols ts ++ values c symbols us :=
  List.map_append

theorem Suited.nil : Suited c symbols [] := fun _ _ h => by simp [postorderAll] at h

theorem Suited.append (h : Suited c symbols ts) (h' : Suited c symbols us) :
    Suited c symbols (ts ++ us) := by
  intro id children hmem
  rw [postorderAll_append, List.mem_append] at hmem
  rcases hmem with hmem | hmem
  · exact h id children hmem
  · exact h' id children hmem

/-- A sign that is not there is missed. -/
theorem misses_sign (h : ∀ x, symbols[p]? = some x → x.terminal ≠ s.id) :
    Plain grammar symbols (.step s.step) p none := by
  refine .missed fun x hx hmem => h x hx ?_
  rw [accepted_sign] at hmem
  exact List.mem_singleton.mp hmem

theorem misses_of_symbol {s' : Sign} (hx : symbols[p]? = some x) (hs : x.terminal = s.id)
    (hne : s ≠ s') : Plain grammar symbols (.step s'.step) p none := by
  refine misses_sign fun y hy hterminal => hne ?_
  cases hx.symm.trans hy
  exact Sign.id_injective (hs.symm.trans hterminal)

/-- A rule that has to read a step first fails where the step does. -/
theorem misses_phrase {phrase : Phrase} {first : Step} {slots : List Slot}
    (hbody : phrase.body = .sequence (needed first :: slots))
    (h : Plain grammar symbols (.step first) p none) :
    Plain grammar symbols (.step phrase.step) p none := by
  refine .reference (.rule (rule?_grammar phrase) (o := none) ?_)
  dsimp only
  rw [hbody]
  exact .sequence (.failed h rfl)

namespace Fits

theorem sign (hx : symbols[p]? = some x) (hs : x.terminal = s.id) :
    Fits c symbols (.step s.step) p [.symbol p] (p + 1) where
  plain := by
    refine .took hx ?_
    rw [accepted_sign, hs]
    exact List.mem_singleton_self _
  suited := fun _ _ h => by simp [postorderAll, postorder] at h

theorem phrase (phrase : Phrase) (h : Fits c symbols (.body phrase.body) p ts q)
    (hsuits : phrase.Suits (values c symbols ts)) :
    Fits c symbols (.step phrase.step) p [.rule phrase.id ts] q where
  plain := .reference (.rule (rule?_grammar phrase) h.plain)
  suited := by
    intro id children hmem
    rw [postorderAll, postorderAll, List.append_nil, postorder, List.mem_append,
      List.mem_singleton] at hmem
    rcases hmem with hmem | heq
    · exact h.suited id children hmem
    · cases heq
      exact ⟨phrase, rfl, hsuits⟩

theorem done : Fits c symbols (.slots []) p [] p := ⟨.done, .nil⟩

theorem slot {first : Step} {slots : List Slot} (h : Fits c symbols (.step first) p ts q)
    (h' : Fits c symbols (.slots slots) q us r) :
    Fits c symbols (.slots (needed first :: slots)) p (ts ++ us) r :=
  ⟨.matched h.plain h'.plain, h.suited.append h'.suited⟩

theorem sequence {slots : List Slot} (h : Fits c symbols (.slots slots) p ts q) :
    Fits c symbols (.body (.sequence slots)) p ts q :=
  ⟨.sequence h.plain, h.suited⟩

theorem first {first : Step} {rest : List Step} (h : Fits c symbols (.step first) p ts q) :
    Fits c symbols (.alternatives (first :: rest)) p ts q :=
  ⟨.first h.plain, h.suited⟩

theorem next {first : Step} {rest : List Step} (hfirst : Plain grammar symbols (.step first) p none)
    (h : Fits c symbols (.alternatives rest) p ts q) :
    Fits c symbols (.alternatives (first :: rest)) p ts q :=
  ⟨.next hfirst h.plain, h.suited⟩

theorem choice {alternatives : List Step} (h : Fits c symbols (.alternatives alternatives) p ts q) :
    Fits c symbols (.step (.choice alternatives)) p ts q :=
  ⟨.choice h.plain, h.suited⟩

theorem again {alternatives : List Step} (h : Fits c symbols (.alternatives alternatives) p ts q)
    (hread : p < q) (h' : Fits c symbols (.again alternatives) q us r) :
    Fits c symbols (.again alternatives) p (ts ++ us) r :=
  ⟨.again h.plain hread h'.plain, h.suited.append h'.suited⟩

end Fits

/-- The value of a rule with an action. -/
theorem values_phrase {phrase : Phrase} {build : Children Node → Node}
    (hbuild : phrase.build? = some build) :
    values c symbols [.rule phrase.id ts] = [.node (build (values c symbols ts))] := by
  unfold values
  rw [List.map_singleton, value_rule, action?_grammar, hbuild]

theorem values_symbol (hx : symbols[p]? = some x) (hs : x.terminal = s.id)
    (hnone : grammar.transform? s.id = none) : values c symbols [.symbol p] = [.token x.token] := by
  unfold values
  rw [List.map_singleton, value_symbol hx, hs, hnone]

theorem values_transformed {build : Token → Node} (hx : symbols[p]? = some x)
    (hs : x.terminal = s.id) (hbuild : grammar.transform? s.id = some build) :
    values c symbols [.symbol p] = [.node (build x.token)] := by
  unfold values
  rw [List.map_singleton, value_symbol hx, hs, hbuild]

theorem values_factor (hcompile : grammar.compile program.id = .ok c) {v : Value Node}
    (h : values c symbols ts = [v]) : values c symbols [.rule factor.id ts] = [v] := by
  obtain ⟨s, hs⟩ := body_factor hcompile
  unfold values at h ⊢
  rw [List.map_singleton, value_rule, action?_grammar, hs, h]
  rfl

end

/-! ## Expressions -/

namespace Form

/-- The part of the grammar that is matched. -/
def part : Form → Part
  | factor => .step Phrase.factor.step
  | chain l => .step l.chain.step
  | tail l _ => .again [l.operation.step]

/-- What is built from the expression. -/
def Means : Form → Children Node → Expr → Prop
  | factor, vs, e => vs = [.node (.expr e)]
  | chain _, vs, e => vs = [.node (.expr e)]
  | tail _ left, vs, e => ∃ os : List (Operator × Expr),
      vs = os.map (fun o => .node (.operation o.1 o.2)) ∧
        os.foldl (fun left o => .binary o.1 left o.2) left = e

/-- The operator would be read on at. -/
def GoesOn : Form → Operator → Prop
  | factor, _ => False
  | chain l, op => l = .sum ∨ op.level = .product
  | tail l _, op => l = .sum ∨ op.level = .product

/-- No operator that would be read on at stands at `p`. -/
def Stops (f : Form) (symbols : Array Symbol) (p : Nat) : Prop :=
  ∀ x (op : Operator), symbols[p]? = some x → x.terminal = op.sign.id → ¬ f.GoesOn op

end Form

theorem Operator.sign_injective {op op' : Operator} (h : op.sign = op'.sign) : op = op' := by
  cases op <;> cases op' <;> first | rfl | cases h

section

variable {c : CompiledGrammar} {symbols : Array Symbol} {p q r : Nat} {x : Symbol} {s : Sign}
  {ts us : List MatchTree}

/-- No form goes on behind a sign that can stand behind an expression and is no operator. -/
theorem stops_of_sign (f : Form) (hx : symbols[p]? = some x) (hs : x.terminal = s.id)
    (hclose : s ∈ [closeParen, comma, semicolon]) : f.Stops symbols p := by
  intro y op hy hop
  cases hx.symm.trans hy
  have hsign : s = op.sign := Sign.id_injective (hs.symm.trans hop)
  subst hsign
  cases op <;> exact absurd hclose (by decide)

/-- Where the operators behind an operand are read, the operand itself stops. -/
theorem Form.Stops.operand {l : Level} {left : Expr} {w : List Symbol} {e : Expr}
    (h : (Form.chain l).Stops symbols q) (htail : Reads (.tail l left) w e)
    (hw : Spans symbols p w q) : l.operand.Stops symbols p := by
  cases l with
  | product => exact fun _ _ _ _ hon => hon
  | sum =>
      intro x op hx hop hon
      rcases hon with hlevel | hlevel
      · cases hlevel
      cases htail with
      | nothing =>
          obtain rfl : p = q := hw
          exact h x op hx hop (.inl rfl)
      | @operation _ y op' _ _ _ _ _ hy hsum =>
          cases hw.1.symm.trans hx
          obtain rfl := Operator.sign_injective (Sign.id_injective (hop.symm.trans hy))
          rw [hsum] at hlevel
          cases hlevel

/-- An operator is one of the signs of its level. -/
theorem Fits.operator {op : Operator} (hx : symbols[p]? = some x) (hop : x.terminal = op.sign.id) :
    Fits c symbols (.step (.choice (op.level.signs.map Sign.step))) p [.symbol p] (p + 1) := by
  refine .choice ?_
  cases op with
  | add => exact .first (.sign hx hop)
  | sub => exact .next (misses_of_symbol hx hop (by decide)) (.first (.sign hx hop))
  | mul => exact .first (.sign hx hop)
  | div => exact .next (misses_of_symbol hx hop (by decide)) (.first (.sign hx hop))

theorem misses_signs {signs : List Sign}
    (h : ∀ s ∈ signs, ∀ x, symbols[p]? = some x → x.terminal ≠ s.id) :
    Plain grammar symbols (.alternatives (signs.map Sign.step)) p none := by
  induction signs with
  | nil => exact .exhausted
  | cons s signs ih =>
      obtain ⟨hs, hsigns⟩ := List.forall_mem_cons.mp h
      exact .next (misses_sign hs) (ih hsigns)

/-- Without an operator of its level a tail is empty. -/
theorem Fits.nothing {l : Level} {left : Expr} (h : (Form.tail l left).Stops symbols p) :
    Fits c symbols (.again [l.operation.step]) p [] p := by
  have hsigns : ∀ s ∈ l.signs, ∀ x, symbols[p]? = some x → x.terminal ≠ s.id := by
    intro s hs x hx hterminal
    cases l with
    | product =>
        rcases List.mem_pair.mp hs with rfl | rfl
        · exact h x .mul hx hterminal (.inr rfl)
        · exact h x .div hx hterminal (.inr rfl)
    | sum =>
        rcases List.mem_pair.mp hs with rfl | rfl
        · exact h x .add hx hterminal (.inl rfl)
        · exact h x .sub hx hterminal (.inl rfl)
  have hchoice := Plain.choice (misses_signs hsigns)
  exact ⟨.ended (.next (misses_phrase l.body_operation hchoice) .exhausted), .nil⟩

theorem Level.part_operand (l : Level) : l.operand.part = .step l.operandPhrase.step := by
  cases l <;> rfl

theorem Level.means_operand {l : Level} {vs : Children Node} {e : Expr} :
    l.operand.Means vs e ↔ vs = [.node (.expr e)] := by
  cases l <;> exact Iff.rfl

theorem fits_factor (hcompile : grammar.compile program.id = .ok c) {e : Expr}
    (h : Fits c symbols (.alternatives
      [Sign.number.step, Sign.name.step, negation.step, group.step]) p ts q)
    (hvalues : values c symbols ts = [.node (.expr e)]) :
    ∃ us, Fits c symbols (.step factor.step) p us q ∧ values c symbols us = [.node (.expr e)] := by
  rw [← List.append_nil ts] at hvalues
  exact ⟨_, .phrase factor (.sequence (.slot (.choice h) .done)) ⟨e, hvalues⟩,
    values_factor hcompile hvalues⟩

theorem fits_negation (hcompile : grammar.compile program.id = .ok c) {e : Expr}
    (hp : symbols[p]? = some x) (hx : x.terminal = minus.id)
    (h : Fits c symbols (.step factor.step) (p + 1) ts q)
    (hvalues : values c symbols ts = [.node (.expr e)]) :
    ∃ us, Fits c symbols (.step factor.step) p us q ∧
      values c symbols us = [.node (.expr (.negate e))] := by
  have hchildren : values c symbols ([.symbol p] ++ (ts ++ [])) =
      [.token x.token, .node (.expr e)] := by
    rw [List.append_nil, values_append, values_symbol hp hx (transform?_sign _), hvalues]
    rfl
  have hnegation : Fits c symbols (.step negation.step) p
      [.rule negation.id ([.symbol p] ++ (ts ++ []))] q :=
    .phrase negation (.sequence (.slot (.sign hp hx) (.slot h .done))) ⟨x.token, e, hchildren⟩
  refine fits_factor hcompile (.next (misses_of_symbol hp hx (by decide))
    (.next (misses_of_symbol hp hx (by decide)) (.first hnegation))) ?_
  rw [values_phrase rfl, hchildren]
  rfl

theorem fits_group (hcompile : grammar.compile program.id = .ok c) {y : Symbol} {e : Expr}
    (hp : symbols[p]? = some x) (hx : x.terminal = openParen.id)
    (h : Fits c symbols (.step expr.step) (p + 1) ts q)
    (hvalues : values c symbols ts = [.node (.expr e)])
    (hq : symbols[q]? = some y) (hy : y.terminal = closeParen.id) :
    ∃ us, Fits c symbols (.step factor.step) p us (q + 1) ∧
      values c symbols us = [.node (.expr e)] := by
  have hchildren : values c symbols ([.symbol p] ++ (ts ++ ([.symbol q] ++ []))) =
      [.token x.token, .node (.expr e), .token y.token] := by
    rw [List.append_nil, values_append, values_append, values_symbol hp hx (transform?_sign _),
      values_symbol hq hy (transform?_sign _), hvalues]
    rfl
  have hgroup : Fits c symbols (.step group.step) p
      [.rule group.id ([.symbol p] ++ (ts ++ ([.symbol q] ++ [])))] (q + 1) :=
    .phrase group (.sequence (.slot (.sign hp hx) (.slot h (.slot (.sign hq hy) .done))))
      ⟨x.token, e, y.token, hchildren⟩
  have hnone : Plain grammar symbols (.step negation.step) p none :=
    misses_phrase rfl (misses_of_symbol hp hx (by decide))
  refine fits_factor hcompile (.next (misses_of_symbol hp hx (by decide))
    (.next (misses_of_symbol hp hx (by decide)) (.next hnone (.first hgroup)))) ?_
  rw [values_phrase rfl, hchildren]
  rfl

/-- An operand and the operators behind it. -/
theorem fits_chain {l : Level} {left : Expr} {os : List (Operator × Expr)}
    (h : Fits c symbols (.step l.operandPhrase.step) p ts q)
    (hvalues : values c symbols ts = [.node (.expr left)])
    (htail : Fits c symbols (.again [l.operation.step]) q us r)
    (hos : values c symbols us = os.map fun o => .node (.operation o.1 o.2)) :
    ∃ vs, Fits c symbols (.step l.chain.step) p vs r ∧ values c symbols vs =
      [.node (.expr (os.foldl (fun left o => .binary o.1 left o.2) left))] := by
  have htailphrase : Fits c symbols (.step l.tail.step) q [.rule l.tail.id us] r := by
    refine .phrase l.tail ?_ ?_
    · rw [Level.body_tail]
      exact ⟨.cyclic htail.plain, htail.suited⟩
    · cases l <;> exact ⟨os, hos⟩
  have hchildren : values c symbols (ts ++ ([.rule l.tail.id us] ++ [])) =
      [.node (.expr left), .node (.tail os)] := by
    have hbuild : l.tail.build? = some buildTail := by cases l <;> rfl
    rw [List.append_nil, values_append, hvalues, values_phrase hbuild, hos, buildTail_eq]
    rfl
  refine ⟨[.rule l.chain.id (ts ++ ([.rule l.tail.id us] ++ []))], .phrase l.chain ?_ ?_, ?_⟩
  · rw [Level.body_chain]
    exact .sequence (.slot h (.slot htailphrase .done))
  · cases l <;> exact ⟨left, os, hchildren⟩
  · have hbuild : l.chain.build? = some buildChain := by cases l <;> rfl
    rw [values_phrase hbuild, hchildren, buildChain_eq]

/-- An operator and its right operand. -/
theorem fits_operation (hlexed : Lexed symbols) {op : Operator} {right : Expr}
    (hp : symbols[p]? = some x) (hop : x.terminal = op.sign.id)
    (h : Fits c symbols (.step op.level.operandPhrase.step) (p + 1) ts q)
    (hvalues : values c symbols ts = [.node (.expr right)]) :
    ∃ us, Fits c symbols (.step op.level.operation.step) p us q ∧
      values c symbols us = [.node (.operation op right)] := by
  have hnone : grammar.transform? op.sign.id = none := by
    rw [transform?_sign]
    cases op <;> rfl
  have hsymbol : Operator.ofSymbol? x.token.text = some op := by
    show Operator.ofSymbol? x.text = some op
    rw [hlexed x (Array.mem_of_getElem? hp) op hop, Operator.ofSymbol?_symbol]
  have hchildren : values c symbols ([.symbol p] ++ (ts ++ [])) =
      [.token x.token, .node (.expr right)] := by
    rw [List.append_nil, values_append, values_symbol hp hop hnone, hvalues]
    rfl
  refine ⟨[.rule op.level.operation.id ([.symbol p] ++ (ts ++ []))], .phrase _ ?_ ?_, ?_⟩
  · rw [Level.body_operation]
    exact .sequence (.slot (.operator hp hop) (.slot h .done))
  · cases op <;> exact ⟨x.token, _, right, hsymbol, hchildren⟩
  · have hbuild : op.level.operation.build? = some buildOperation := by cases op <;> rfl
    rw [values_phrase hbuild, hchildren, buildOperation_eq hsymbol]

/-- What is derived from a form is matched, where the form stops behind it. -/
theorem Reads.fits (hcompile : grammar.compile program.id = .ok c) (hlexed : Lexed symbols)
    {f : Form} {w : List Symbol} {e : Expr} (h : Reads f w e) (hw : Spans symbols p w q)
    (hstops : f.Stops symbols q) :
    ∃ ts, Fits c symbols f.part p ts q ∧ f.Means (values c symbols ts) e := by
  induction h generalizing p q with
  | @number x hx =>
      obtain ⟨hp, rfl⟩ := hw
      exact fits_factor hcompile (.first (.sign hp hx))
        (values_transformed hp hx (transform?_sign _))
  | @name x hx =>
      obtain ⟨hp, rfl⟩ := hw
      exact fits_factor hcompile
        (.next (misses_of_symbol hp hx (by decide)) (.first (.sign hp hx)))
        (values_transformed hp hx (transform?_sign _))
  | negation hx _ ih =>
      obtain ⟨hp, hw⟩ := hw
      obtain ⟨ts, hfits, hvalues⟩ := ih hw fun _ _ _ _ hon => hon
      exact fits_negation hcompile hp hx hfits hvalues
  | group hx _ hy ih =>
      obtain ⟨hp, hrest⟩ := hw
      obtain ⟨m, hinner, hm, rfl⟩ := Spans.append_iff.mp hrest
      obtain ⟨ts, hfits, hvalues⟩ := ih hinner (stops_of_sign _ hm hy (by decide))
      exact fits_group hcompile hp hx hfits hvalues hm hy
  | @chain l u w left e _ htail ih ihtail =>
      obtain ⟨m, hu, hrest⟩ := Spans.append_iff.mp hw
      obtain ⟨ts, hfits, hmeans⟩ := ih hu (Form.Stops.operand hstops htail hrest)
      obtain ⟨us, htailfits, os, hos, rfl⟩ := ihtail hrest hstops
      rw [Level.part_operand] at hfits
      exact fits_chain hfits (Level.means_operand.mp hmeans) htailfits hos
  | nothing =>
      obtain rfl : p = q := hw
      exact ⟨[], .nothing hstops, [], rfl, rfl⟩
  | @operation l x op u w left right e hx hop _ hrest ih ihrest =>
      subst hop
      obtain ⟨hp, hwords⟩ := hw
      obtain ⟨m, hu, hwrest⟩ := Spans.append_iff.mp hwords
      obtain ⟨ts, hfits, hmeans⟩ := ih hu (Form.Stops.operand (l := op.level) hstops hrest hwrest)
      obtain ⟨us, hrestfits, os, hos, hfold⟩ := ihrest hwrest hstops
      rw [Level.part_operand] at hfits
      obtain ⟨vs, hstep, hvs⟩ := fits_operation hlexed hp hx hfits (Level.means_operand.mp hmeans)
      have hread : p < m := by
        have hlength := hu.eq_add
        omega
      refine ⟨vs ++ us, .again (.first hstep) hread hrestfits, (op, right) :: os, ?_, hfold⟩
      rw [values_append, hvs, hos]
      rfl

/-! ## Statements -/

/-- A list of arguments is matched where a semicolon follows. -/
theorem ReadsArgs.fits (hcompile : grammar.compile program.id = .ok c) (hlexed : Lexed symbols)
    {w : List Symbol} {es : List Expr} (h : ReadsArgs w es) (hw : Spans symbols p w q)
    (hq : symbols[q]? = some x) (hx : x.terminal = semicolon.id) :
    ∃ m ts us, p ≤ m ∧ Fits c symbols (.step expr.step) p ts m ∧
      Fits c symbols (.more expr.step comma.step) m us q ∧
      values c symbols (ts ++ us) = es.map fun e => .node (.expr e) := by
  induction h generalizing p with
  | last h =>
      obtain ⟨ts, hfits, hvalues⟩ := h.fits hcompile hlexed hw (stops_of_sign _ hq hx (by decide))
      have hlength := hw.eq_add
      refine ⟨q, ts, [], by omega, hfits, ⟨.unseparated ?_, .nil⟩, ?_⟩
      · exact misses_of_symbol hq hx (by decide)
      · rw [List.append_nil]
        exact hvalues
  | @more u w e es y h hy _ ih =>
      obtain ⟨m, hu, hm, hrest⟩ := Spans.append_iff.mp hw
      obtain ⟨ts, hfits, hvalues⟩ := h.fits hcompile hlexed hu (stops_of_sign _ hm hy (by decide))
      obtain ⟨n, ts', us, hle, hfirst, hmore, hothers⟩ := ih hrest
      have hlength := hu.eq_add
      refine ⟨m, ts, ts' ++ us, by omega, hfits, ⟨?_, hfirst.suited.append hmore.suited⟩, ?_⟩
      · exact .item (Fits.sign (c := c) hm hy).plain hfirst.plain (by omega) hmore.plain
      · rw [values_append, hothers, show values c symbols ts = _ from hvalues]
        rfl

/-- The statements of the language. -/
def statementSteps : List Step := [letStatement.step, printStatement.step]

theorem ReadsStatement.length_pos {w : List Symbol} {s : Statement} (h : ReadsStatement w s) :
    0 < w.length := by
  cases h <;> exact Nat.succ_pos _

theorem fits_let {x k y a : Symbol} {e : Expr} (hp : symbols[p]? = some k)
    (hk : k.terminal = letWord.id) (hp1 : symbols[p + 1]? = some x) (hx : x.terminal = Sign.name.id)
    (hp2 : symbols[p + 1 + 1]? = some a) (ha : a.terminal = assign.id)
    (h : Fits c symbols (.step expr.step) (p + 1 + 1 + 1) ts q)
    (hvalues : values c symbols ts = [.node (.expr e)])
    (hq : symbols[q]? = some y) (hy : y.terminal = semicolon.id) :
    ∃ us, Fits c symbols (.alternatives statementSteps) p us (q + 1) ∧
      values c symbols us = [.node (.statement (.bind x.text e))] := by
  have hname : values c symbols [.symbol (p + 1)] = [.node (.expr (.variable x.text))] :=
    values_transformed hp1 hx (transform?_sign _)
  have hchildren : values c symbols ([.symbol p] ++ ([.symbol (p + 1)] ++
      ([.symbol (p + 1 + 1)] ++ (ts ++ ([.symbol q] ++ []))))) =
      [.token k.token, .node (.expr (.variable x.text)), .token a.token, .node (.expr e),
        .token y.token] := by
    rw [List.append_nil, values_append, values_append, values_append, values_append, hname,
      values_symbol hp hk (transform?_sign _), values_symbol hp2 ha (transform?_sign _),
      values_symbol hq hy (transform?_sign _), hvalues]
    rfl
  refine ⟨_, .first (.phrase letStatement (.sequence (.slot (.sign hp hk)
    (.slot (.sign hp1 hx) (.slot (.sign hp2 ha) (.slot h (.slot (.sign hq hy) .done))))))
    ⟨_, _, _, _, _, hchildren⟩), ?_⟩
  rw [values_phrase rfl, hchildren]
  rfl

theorem fits_print {k y : Symbol} {es : List Expr} (hp : symbols[p]? = some k)
    (hk : k.terminal = printWord.id) (h : Fits c symbols (.step args.step) (p + 1) ts q)
    (hvalues : values c symbols ts = [.node (.args es)])
    (hq : symbols[q]? = some y) (hy : y.terminal = semicolon.id) :
    ∃ us, Fits c symbols (.alternatives statementSteps) p us (q + 1) ∧
      values c symbols us = [.node (.statement (.print es))] := by
  have hchildren : values c symbols ([.symbol p] ++ (ts ++ ([.symbol q] ++ []))) =
      [.token k.token, .node (.args es), .token y.token] := by
    rw [List.append_nil, values_append, values_append, hvalues,
      values_symbol hp hk (transform?_sign _), values_symbol hq hy (transform?_sign _)]
    rfl
  have hnone : Plain grammar symbols (.step letStatement.step) p none :=
    misses_phrase rfl (misses_of_symbol hp hk (by decide))
  refine ⟨_, .next hnone (.first (.phrase printStatement (.sequence
    (.slot (.sign hp hk) (.slot h (.slot (.sign hq hy) .done)))) ⟨_, _, _, hchildren⟩)), ?_⟩
  rw [values_phrase rfl, hchildren]
  rfl

theorem ReadsStatement.fits (hcompile : grammar.compile program.id = .ok c)
    (hlexed : Lexed symbols) {w : List Symbol} {s : Statement} (h : ReadsStatement w s)
    (hw : Spans symbols p w q) :
    ∃ ts, Fits c symbols (.alternatives statementSteps) p ts q ∧
      values c symbols ts = [.node (.statement s)] := by
  cases h with
  | bind hk hx ha h hy =>
      obtain ⟨hp, hp1, hp2, hrest⟩ := hw
      obtain ⟨m, hw, hm, rfl⟩ := Spans.append_iff.mp hrest
      obtain ⟨ts, hfits, hvalues⟩ := h.fits hcompile hlexed hw (stops_of_sign _ hm hy (by decide))
      exact fits_let hp hk hp1 hx hp2 ha hfits hvalues hm hy
  | @print k y w es hk h hy =>
      obtain ⟨hp, hrest⟩ := hw
      obtain ⟨m, hw, hm, rfl⟩ := Spans.append_iff.mp hrest
      obtain ⟨n, ts, us, _, hfirst, hmore, hvalues⟩ := h.fits hcompile hlexed hw hm hy
      have hargs : Fits c symbols (.step args.step) (p + 1) [.rule args.id (ts ++ us)] m :=
        .phrase args ⟨.separated hfirst.plain hmore.plain, hfirst.suited.append hmore.suited⟩
          ⟨es, hvalues⟩
      refine fits_print hp hk hargs ?_ hm hy
      rw [values_phrase rfl, hvalues, buildArgs_eq]

/-- Statements are matched one by one, whatever is matched behind them. -/
theorem ReadsStatements.fits (hcompile : grammar.compile program.id = .ok c)
    (hlexed : Lexed symbols) {w : List Symbol} {ss : List Statement} (h : ReadsStatements w ss)
    (hw : Spans symbols p w q) :
    ∃ ts, Suited c symbols ts ∧ values c symbols ts = (ss.map fun s => .node (.statement s)) ∧
      ∀ us r, Plain grammar symbols (.again statementSteps) q (some (us, r)) →
        Plain grammar symbols (.again statementSteps) p (some (ts ++ us, r)) := by
  induction h generalizing p with
  | nil =>
      obtain rfl : p = q := hw
      exact ⟨[], .nil, rfl, fun _ _ hrest => hrest⟩
  | @cons u w s ss h _ ih =>
      obtain ⟨m, hu, hw⟩ := Spans.append_iff.mp hw
      obtain ⟨ts, hfits, hvalues⟩ := h.fits hcompile hlexed hu
      obtain ⟨ts', hsuited, hvalues', hothers⟩ := ih hw
      have hread : p < m := by
        have hlength := hu.eq_add
        have hpos := h.length_pos
        omega
      refine ⟨ts ++ ts', hfits.suited.append hsuited, ?_, ?_⟩
      · rw [values_append, hvalues, hvalues']
        rfl
      · intro us r hrest
        rw [List.append_assoc]
        exact .again hfits.plain hread (hothers us r hrest)

end

end Descent.Calc
