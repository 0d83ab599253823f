import Descent.Compiled.Build
import Descent.Proofs.Grammar.Reachable
import Descent.Proofs.Terminal.Layered

/-!
# Misuse of the building calls

A grammar is built by a row of calls (`Declaration`), in any order and any number of them wrong.
Misuse is recorded and has no other effect (`Grammar.recordsMisuse`): each call adds what is wrong
with it to the errors, and a call that is refused gives the grammar back with one more error, so
the rules are those of the calls that were not refused.

What is wrong with a call is read off what the grammar has got so far (`Declaration.misuses`), not
off what the call does. What becomes of a rule is said without the grammar: its body is `Body.grown`
by the clauses for it, the first of which decides about its kind, and its action is the first that
it is given. One call grows a rule by at most one clause, and the row is an induction on its calls.
-/

namespace Descent

/-! ## Calls -/

/-- A call that builds a grammar. To define a rule is to name it, and then to add clauses. -/
inductive Declaration (α : Type) where
  | terminal (t : Terminal)
  | transform (id : TerminalId) (build : Token → α)
  | rule (name : String)
  | definition (id : RuleId)
  | clause (id : RuleId) (c : Clause α)

variable {α : Type}

namespace Declaration

def isTerminal : Declaration α → Bool
  | terminal _ => true
  | _ => false

def isRule : Declaration α → Bool
  | rule _ => true
  | _ => false

/-- The clause that the call adds to the rule, if it is one for this rule. -/
def clausesFor (id : RuleId) : Declaration α → List (Clause α)
  | clause q c => if q = id then [c] else []
  | _ => []

end Declaration

namespace Grammar

def declare (g : Grammar α) : Declaration α → Grammar α
  | .terminal t => (g.addTerminal t).2
  | .transform id build => g.setTransform id build
  | .rule name => (g.addRule name).2
  | .definition id => g.define id []
  | .clause id c => g.addClause id c

/-- What the calls make of an empty grammar. -/
def declareAll (ds : List (Declaration α)) : Grammar α := ds.foldl declare {}

theorem declareAll_append (ds more : List (Declaration α)) :
    declareAll (ds ++ more) = more.foldl declare (declareAll ds) :=
  List.foldl_append

/-- A definition with its clauses is a row of calls. -/
theorem define_eq_foldl (g : Grammar α) (id : RuleId) (clauses : List (Clause α)) :
    g.define id clauses = (.definition id :: clauses.map (.clause id)).foldl declare g := by
  rw [List.foldl_cons, List.foldl_map]
  rfl

end Grammar

/-! ## What is wrong with a call -/

/-- Whether a body of this kind takes more steps of the kind `attempted`. One that is undefined
takes any, and a list with separators has all its steps from the first. -/
def BodyKind.takes (existing attempted : BodyKind) : Bool :=
  existing = .undefined || (existing = attempted && attempted ≠ .separated)

namespace Clause

/-- The kind of body that the clause is for; an action is for all. -/
def kind? : Clause α → Option BodyKind
  | step _ => some .sequence
  | optional _ => some .sequence
  | separated .. => some .separated
  | cyclic _ => some .cyclic
  | action _ => none

/-- What is wrong with the clause for a rule: the rule has got an action, or a body that does not
take what the clause brings. -/
def misuse? (c : Clause α) (r : Rule α) : Option GrammarError :=
  match c.kind? with
  | none => if r.action.isSome then some (.duplicateAction r.name) else none
  | some attempted =>
    if r.body.kind.takes attempted then none
    else some (.mixedKinds r.name r.body.kind attempted)

end Clause

/-- What is wrong with the call for a grammar that has got as far as `g`. Clauses for a rule that is
not declared are not wrong once more: its definition was. -/
def Declaration.misuses (g : Grammar α) : Declaration α → List GrammarError
  | terminal t =>
    match t.matcher with
    | .literal text => if text = "" then [.emptyLiteral ⟨g.terminals.size⟩] else []
    | .oneOf members =>
      ((members.find? fun m => g.terminals.size ≤ m.index).map
        (.unknownTerminal (.member ⟨g.terminals.size⟩))).toList
    | _ => []
  | transform id _ => if id.index < g.terminals.size then [] else [.unknownTerminal .transform id]
  | rule _ => []
  | definition id => if id.index < g.ruleCount then [] else [.unknownRule .definition id]
  | clause id c => ((g.rule? id).bind c.misuse?).toList

/-- What is wrong with the calls of a row, each judged by what those before it have made. -/
def Grammar.misuses (g : Grammar α) : List (Declaration α) → List GrammarError
  | [] => []
  | d :: ds => d.misuses g ++ misuses (g.declare d) ds

/-! ## What becomes of a rule -/

namespace Clause

/-- What the clause appends to a sequence. -/
def slots : Clause α → List Slot
  | step s => [⟨s, false⟩]
  | optional s => [⟨s, true⟩]
  | _ => []

/-- What the clause appends to a repeated choice. -/
def alternatives : Clause α → List Step
  | cyclic alternatives => alternatives
  | _ => []

def action? : Clause α → Option (Children α → α)
  | action build => some build
  | _ => none

end Clause

namespace Body

/-- The body that the clauses come to. The first that is about the body decides what it is, and
those that do not go with it change nothing. -/
def ofClauses : List (Clause α) → Body
  | [] => .undefined
  | .step s :: cs => .sequence (⟨s, false⟩ :: cs.flatMap (·.slots))
  | .optional s :: cs => .sequence (⟨s, true⟩ :: cs.flatMap (·.slots))
  | .separated item separator allowEmpty :: _ => .separated item separator allowEmpty
  | .cyclic alternatives :: cs => .cyclic (alternatives ++ cs.flatMap (·.alternatives))
  | .action _ :: cs => ofClauses cs

/-- A body after more clauses. -/
def grown (b : Body) (cs : List (Clause α)) : Body :=
  match b with
  | .undefined => ofClauses cs
  | .sequence slots => .sequence (slots ++ cs.flatMap (·.slots))
  | .separated item separator allowEmpty => .separated item separator allowEmpty
  | .cyclic alternatives => .cyclic (alternatives ++ cs.flatMap (·.alternatives))

theorem ofClauses_append (cs ds : List (Clause α)) :
    ofClauses (cs ++ ds) = (ofClauses cs).grown ds := by
  induction cs with
  | nil => rfl
  | cons c cs ih =>
      cases c with
      | action build => exact ih
      | step | optional | cyclic | separated => simp [ofClauses, grown]

@[simp] theorem grown_nil (b : Body) : b.grown ([] : List (Clause α)) = b := by
  cases b <;> simp [grown, ofClauses]

theorem grown_append (b : Body) (cs ds : List (Clause α)) :
    b.grown (cs ++ ds) = (b.grown cs).grown ds := by
  cases b with
  | undefined => exact ofClauses_append cs ds
  | sequence | separated | cyclic => simp [grown]

theorem kind_grown {b : Body} (h : b ≠ .undefined) (cs : List (Clause α)) :
    (b.grown cs).kind = b.kind := by
  cases b with
  | undefined => exact absurd rfl h
  | sequence | separated | cyclic => rfl

end Body

namespace Rule

variable {r r' : Rule α}

def grown (r : Rule α) (cs : List (Clause α)) : Rule α :=
  { r with body := r.body.grown cs, action := r.action.or (cs.findSome? (·.action?)) }

@[simp] theorem grown_nil (r : Rule α) : r.grown [] = r := by
  simp [grown]

theorem grown_append (r : Rule α) (cs ds : List (Clause α)) :
    r.grown (cs ++ ds) = (r.grown cs).grown ds := by
  simp [grown, Body.grown_append, Option.or_assoc]

/-- What is left of a rule `r` in a rule `r'` that it has become by more clauses. -/
structure Lasts (r r' : Rule α) (clauses : List (Clause α)) : Prop where
  name : r'.name = r.name
  kind : r.body ≠ .undefined → r'.body.kind = r.body.kind
  sequence : ∀ slots, r.body = .sequence slots →
    r'.body = .sequence (slots ++ clauses.flatMap (·.slots))
  separated : ∀ item separator allowEmpty, r.body = .separated item separator allowEmpty →
    r'.body = r.body
  cyclic : ∀ alternatives, r.body = .cyclic alternatives →
    r'.body = .cyclic (alternatives ++ clauses.flatMap (·.alternatives))
  undefined : r.body = .undefined → r'.body = Body.ofClauses clauses
  action : ∀ build, r.action = some build → r'.action = some build

theorem lasts_grown (r : Rule α) (cs : List (Clause α)) : r.Lasts (r.grown cs) cs := by
  refine ⟨rfl, fun h => Body.kind_grown h cs, ?_, ?_, ?_, ?_, ?_⟩
  · intro slots h
    simp only [grown, h, Body.grown]
  · intro item separator allowEmpty h
    simp only [grown, h, Body.grown]
  · intro alternatives h
    simp only [grown, h, Body.grown]
  · intro h
    simp only [grown, h, Body.grown]
  · intro build h
    simp only [grown, h, Option.some_or]

/-- A rule grows by a clause with which nothing is wrong. By any other it would not. -/
theorem extend_cases (r : Rule α) (c : Clause α) :
    c.misuse? r = none ∧ r.extend c = .ok (r.grown [c]) ∨
      ∃ e, c.misuse? r = some e ∧ r.extend c = .error e ∧ r.grown [c] = r := by
  obtain ⟨name, body, action⟩ := r
  cases c with
  | action build =>
      cases action with
      | none =>
          refine .inl ⟨rfl, ?_⟩
          cases body <;> simp [extend, grown, Body.grown, Body.ofClauses, Clause.action?,
            Clause.slots, Clause.alternatives]
      | some first =>
          refine .inr ⟨_, rfl, rfl, ?_⟩
          cases body <;> simp [grown, Body.grown, Body.ofClauses, Clause.action?, Clause.slots,
            Clause.alternatives]
  | step | optional | separated | cyclic =>
      cases body <;> simp [Clause.misuse?, Clause.kind?, BodyKind.takes, Body.kind, extend,
        extend.addSlot, grown, Body.grown, Body.ofClauses, Clause.action?, Clause.slots,
        Clause.alternatives]

end Rule

namespace Grammar

variable {g h : Grammar α} {id : RuleId} {r : Rule α}

/-! ## One call -/

/-- A call with which nothing is wrong adds no error, and any other gives the grammar back with one
more. -/
theorem declare_cases (hg : g.transforms.size = g.terminals.size) {d : Declaration α}
    (hd : d.isTerminal = false) :
    d.misuses g = [] ∧ (g.declare d).errors = g.errors ∨
      ∃ e, d.misuses g = [e] ∧ g.declare d = g.record e := by
  cases d with
  | terminal t => cases hd
  | transform id build =>
      unfold declare setTransform Declaration.misuses
      dsimp only
      rw [hg]
      split
      · exact .inl ⟨rfl, rfl⟩
      · exact .inr ⟨_, rfl, rfl⟩
  | rule name => exact .inl ⟨rfl, rfl⟩
  | definition id =>
      unfold declare define Declaration.misuses ruleCount
      dsimp only [List.foldl_nil]
      split
      · exact .inl ⟨rfl, rfl⟩
      · exact .inr ⟨_, rfl, rfl⟩
  | clause id c =>
      unfold declare addClause Declaration.misuses
      dsimp only
      cases g.rule? id with
      | none => exact .inl ⟨rfl, rfl⟩
      | some r =>
          dsimp only [Option.bind_some]
          rcases r.extend_cases c with ⟨hnone, hok⟩ | ⟨e, hsome, herror, _⟩
          · rw [hnone, hok]
            exact .inl ⟨rfl, rfl⟩
          · rw [hsome, herror]
            exact .inr ⟨e, rfl, rfl⟩

theorem terminalErrors_eq (g : Grammar α) (t : Terminal) :
    g.terminalErrors t = (Declaration.terminal t).misuses g := by
  obtain ⟨matcher⟩ := t
  cases matcher with
  | literal text =>
      have hempty : text.isEmpty = decide (text = "") := by
        rw [Bool.eq_iff_iff, String.isEmpty_iff, decide_eq_true_iff]
      show (if text.isEmpty then _ else _) ++ [] = if text = "" then _ else _
      simp only [hempty, decide_eq_true_eq, List.append_nil]
      rfl
  | oneOf members =>
      have hunknown : (fun m => !g.terminals.contains m) =
          fun m : TerminalId => decide (g.terminals.size ≤ m.index) := by
        funext m
        rw [TerminalTable.contains, ← decide_not, decide_eq_decide, Nat.not_lt]
      show ((members.find? _).map _).toList = ((members.find? _).map _).toList
      rw [hunknown]
      rfl
  | char | scan | pattern => rfl

/-- A call adds what is wrong with it to the errors, behind those of the calls before it. -/
theorem errors_declare (hg : g.transforms.size = g.terminals.size) (d : Declaration α) :
    (g.declare d).errors = g.errors ++ d.misuses g := by
  cases hd : d.isTerminal with
  | true =>
      cases d with
      | terminal t => exact congrArg (g.errors ++ ·) (g.terminalErrors_eq t)
      | transform | rule | definition | clause => cases hd
  | false =>
      rcases declare_cases hg hd with ⟨hnone, hsame⟩ | ⟨e, hone, hrecord⟩
      · rw [hnone, hsame, List.append_nil]
      · rw [hone, hrecord]
        rfl

theorem rules_setTransform (g : Grammar α) (t : TerminalId) (build : Token → α) :
    (g.setTransform t build).rules = g.rules := by
  unfold setTransform
  split <;> rfl

theorem rules_define_nil (g : Grammar α) (id : RuleId) : (g.define id []).rules = g.rules := by
  unfold define
  dsimp only [List.foldl_nil]
  split <;> rfl

theorem rule?_addClause (h : g.rule? id = some r) (q : RuleId) (c : Clause α) :
    (g.addClause q c).rule? id = some (r.grown (if q = id then [c] else [])) := by
  unfold addClause
  by_cases hq : q = id
  · subst hq
    rw [h, if_pos rfl]
    dsimp only
    rcases r.extend_cases c with ⟨_, hok⟩ | ⟨e, _, herror, hsame⟩
    · rw [hok]
      have hlt : q.index < g.rules.size := (Array.getElem?_eq_some_iff.mp h).1
      exact Array.getElem?_setIfInBounds_self_of_lt hlt
    · rw [herror, hsame]
      exact h
  · rw [if_neg hq, Rule.grown_nil]
    cases g.rule? q with
    | none => exact h
    | some s =>
        dsimp only
        cases s.extend c with
        | error e => exact h
        | ok s' =>
            show (g.rules.setIfInBounds q.index s')[id.index]? = _
            rw [Array.getElem?_setIfInBounds_ne fun hindex => hq (RuleId.eq_of_index hindex)]
            exact h

/-- A call makes a rule grow by the clauses for it, and leaves it alone otherwise. -/
theorem rule?_declare (h : g.rule? id = some r) (d : Declaration α) :
    (g.declare d).rule? id = some (r.grown (d.clausesFor id)) := by
  cases d with
  | terminal t =>
      dsimp only [Declaration.clausesFor]
      rw [Rule.grown_nil]
      exact h
  | transform t build =>
      show (g.setTransform t build).rules[id.index]? = some (r.grown [])
      rw [rules_setTransform, Rule.grown_nil]
      exact h
  | rule name =>
      have hlt : id.index < g.rules.size := (Array.getElem?_eq_some_iff.mp h).1
      show (g.rules.push _)[id.index]? = some (r.grown [])
      rw [Array.getElem?_push_lt hlt, ← Array.getElem?_eq_getElem hlt, Rule.grown_nil]
      exact h
  | definition q =>
      show (g.define q []).rules[id.index]? = some (r.grown [])
      rw [rules_define_nil, Rule.grown_nil]
      exact h
  | clause q c => exact rule?_addClause h q c

/-- What a call makes of the rules depends on the rules only. -/
theorem rules_declare_congr (hrules : g.rules = h.rules) (d : Declaration α) :
    (g.declare d).rules = (h.declare d).rules := by
  cases d with
  | terminal t => exact hrules
  | transform t build =>
      show (g.setTransform t build).rules = (h.setTransform t build).rules
      rw [rules_setTransform, rules_setTransform, hrules]
  | rule name =>
      show g.rules.push _ = h.rules.push _
      rw [hrules]
  | definition id =>
      show (g.define id []).rules = (h.define id []).rules
      rw [rules_define_nil, rules_define_nil, hrules]
  | clause id c =>
      show (g.addClause id c).rules = (h.addClause id c).rules
      have hrule : g.rule? id = h.rule? id := by rw [rule?, rule?, hrules]
      unfold addClause
      rw [hrule]
      cases h.rule? id with
      | none => exact hrules
      | some r =>
          dsimp only
          cases r.extend c with
          | ok r => rw [hrules]
          | error e => exact hrules

/-- A call that records an error leaves the rules alone, if it registers a terminal or not. -/
theorem rules_declare_of_misuse (hg : g.transforms.size = g.terminals.size) {d : Declaration α}
    (hmisuse : (g.declare d).errors ≠ g.errors) : (g.declare d).rules = g.rules := by
  cases hd : d.isTerminal with
  | true =>
      cases d with
      | terminal t => rfl
      | transform | rule | definition | clause => cases hd
  | false =>
      rcases declare_cases hg hd with ⟨_, hsame⟩ | ⟨e, _, hrecord⟩
      · exact absurd hsame hmisuse
      · rw [hrecord]
        rfl

/-- As many rules and terminals as there are calls for them, and a place for a transform with each
terminal. -/
theorem sizes_declare (g : Grammar α) (d : Declaration α) :
    (g.declare d).ruleCount = g.ruleCount + (if d.isRule then 1 else 0) ∧
      (g.declare d).terminals.size = g.terminals.size + (if d.isTerminal then 1 else 0) ∧
      (g.declare d).transforms.size = g.transforms.size + (if d.isTerminal then 1 else 0) := by
  cases d with
  | terminal t => exact ⟨rfl, Array.size_push _, Array.size_push _⟩
  | transform t build =>
      refine ⟨congrArg Array.size (g.rules_setTransform t build), ?_⟩
      unfold declare setTransform
      dsimp only
      split
      · exact ⟨rfl, Array.size_setIfInBounds⟩
      · exact ⟨rfl, rfl⟩
  | rule name => exact ⟨Array.size_push _, rfl, rfl⟩
  | definition id =>
      refine ⟨congrArg Array.size (g.rules_define_nil id), ?_⟩
      unfold declare define
      dsimp only [List.foldl_nil]
      split
      · exact ⟨rfl, rfl⟩
      · exact ⟨rfl, rfl⟩
  | clause id c =>
      unfold declare addClause
      dsimp only
      cases g.rule? id with
      | none => exact ⟨rfl, rfl, rfl⟩
      | some r =>
          dsimp only
          cases r.extend c with
          | ok r => exact ⟨Array.size_setIfInBounds, rfl, rfl⟩
          | error e => exact ⟨rfl, rfl, rfl⟩

/-! ## Rows of calls -/

theorem size_transforms_declare (hg : g.transforms.size = g.terminals.size) (d : Declaration α) :
    (g.declare d).transforms.size = (g.declare d).terminals.size := by
  obtain ⟨_, hterminals, htransforms⟩ := g.sizes_declare d
  rw [htransforms, hterminals, hg]

theorem errors_foldl (hg : g.transforms.size = g.terminals.size) (ds : List (Declaration α)) :
    (ds.foldl declare g).errors = g.errors ++ g.misuses ds := by
  induction ds generalizing g with
  | nil => exact (List.append_nil _).symm
  | cons d ds ih =>
      rw [List.foldl_cons, ih (size_transforms_declare hg d), errors_declare hg d,
        List.append_assoc]
      rfl

theorem rule?_foldl (h : g.rule? id = some r) (ds : List (Declaration α)) :
    (ds.foldl declare g).rule? id = some (r.grown (ds.flatMap (·.clausesFor id))) := by
  induction ds generalizing g r with
  | nil => rw [List.flatMap_nil, Rule.grown_nil]; exact h
  | cons d ds ih =>
      rw [List.flatMap_cons, Rule.grown_append]
      exact ih (rule?_declare h d)

/-- The calls that record no error, where each begins with what those before it have made. -/
def faultless (g : Grammar α) : List (Declaration α) → List (Declaration α)
  | [] => []
  | d :: ds =>
    if (g.declare d).errors = g.errors then d :: faultless (g.declare d) ds
    else faultless (g.declare d) ds

theorem rules_foldl_faultless (hg : g.transforms.size = g.terminals.size)
    (hrules : g.rules = h.rules) (ds : List (Declaration α)) :
    ((g.faultless ds).foldl declare h).rules = (ds.foldl declare g).rules := by
  induction ds generalizing g h with
  | nil => exact hrules.symm
  | cons d ds ih =>
      have hd := size_transforms_declare hg d
      rw [faultless]
      by_cases hsame : (g.declare d).errors = g.errors
      · rw [if_pos hsame]
        exact ih hd (rules_declare_congr hrules d)
      · rw [if_neg hsame]
        exact ih hd ((rules_declare_of_misuse hg hsame).trans hrules)

theorem sizes_declareAll (ds : List (Declaration α)) :
    (declareAll ds).ruleCount = ds.countP (·.isRule) ∧
      (declareAll ds).terminals.size = ds.countP (·.isTerminal) ∧
      (declareAll ds).transforms.size = ds.countP (·.isTerminal) := by
  induction ds using List.reverseRecOn with
  | nil => exact ⟨rfl, rfl, rfl⟩
  | append_singleton ds d ih =>
      obtain ⟨hrules, hterminals, htransforms⟩ := ih
      obtain ⟨hrules', hterminals', htransforms'⟩ := (declareAll ds).sizes_declare d
      rw [declareAll_append, List.foldl_cons, List.foldl_nil, List.countP_append,
        List.countP_append, List.countP_singleton, List.countP_singleton]
      rw [hrules', hterminals', htransforms', hrules, hterminals, htransforms]
      exact ⟨rfl, rfl, rfl⟩

theorem declareAll_snoc (ds : List (Declaration α)) (d : Declaration α) :
    declareAll (ds ++ [d]) = (declareAll ds).declare d :=
  declareAll_append ds [d]

theorem size_transforms_declareAll (ds : List (Declaration α)) :
    (declareAll ds).transforms.size = (declareAll ds).terminals.size := by
  obtain ⟨_, hterminals, htransforms⟩ := sizes_declareAll ds
  rw [hterminals, htransforms]

theorem errors_declareAll_append (ds more : List (Declaration α)) :
    (declareAll (ds ++ more)).errors =
      (declareAll ds).errors ++ (declareAll ds).misuses more := by
  rw [declareAll_append]
  exact errors_foldl (size_transforms_declareAll ds) more

theorem errors_declareAll_snoc (ds : List (Declaration α)) (d : Declaration α) :
    (declareAll (ds ++ [d])).errors = (declareAll ds).errors ++ d.misuses (declareAll ds) := by
  rw [declareAll_snoc]
  exact errors_declare (size_transforms_declareAll ds) d

theorem compile_eq_error {root : RuleId} {e : GrammarError} (h : g.errors.head? = some e) :
    g.compile root = .error e := by
  unfold compile
  cases herrors : g.errors with
  | nil => rw [herrors] at h; cases h
  | cons e' es =>
      rw [herrors] at h
      cases h
      rfl

/-- The earliest error stays the one that compiling reports, whatever is called later. -/
theorem compile_declareAll_append {ds : List (Declaration α)} {root : RuleId} {e : GrammarError}
    (he : (declareAll ds).errors.head? = some e) (more : List (Declaration α)) :
    (declareAll (ds ++ more)).compile root = .error e := by
  refine compile_eq_error ?_
  rw [errors_declareAll_append, List.head?_append, he]
  rfl

/-- A clause for a rule that is not declared has no effect, not even an error. -/
theorem addClause_of_undeclared (h : g.ruleCount ≤ id.index) (c : Clause α) :
    g.addClause id c = g := by
  have hnone : g.rule? id = none := Array.getElem?_eq_none_iff.mpr h
  rw [addClause, hnone]

/-- After the calls `ds`, whatever calls `more` follow, misuse is recorded and nothing else. -/
structure RecordsMisuse (ds more : List (Declaration α)) : Prop where
  /-- The errors are what is wrong with the calls, one call after the other. -/
  recorded : (declareAll ds).errors = misuses {} ds
  /-- One more call adds what is wrong with it. -/
  records : ∀ d : Declaration α,
    (declareAll (ds ++ [d])).errors = (declareAll ds).errors ++ d.misuses (declareAll ds)
  errors : (declareAll ds).errors <+: (declareAll (ds ++ more)).errors
  earliest : ∀ root e, (declareAll ds).errors.head? = some e →
    (declareAll (ds ++ more)).compile root = .error e
  /-- The first call with which something is wrong decides, whatever is called after it. -/
  first : ∀ root (d : Declaration α) e, misuses {} ds = [] →
    (d.misuses (declareAll ds)).head? = some e →
    (declareAll (ds ++ d :: more)).compile root = .error e
  refused : ∀ d : Declaration α, d.isTerminal = false →
    (declareAll (ds ++ [d])).errors ≠ (declareAll ds).errors →
    ∃ e, d.misuses (declareAll ds) = [e] ∧ declareAll (ds ++ [d]) = (declareAll ds).record e
  undeclared : ∀ id c, (declareAll ds).ruleCount ≤ id.index →
    declareAll (ds ++ [.clause id c]) = declareAll ds
  /-- A definition with its clauses is a row of calls. -/
  definition : ∀ id clauses, (declareAll ds).define id clauses =
    declareAll (ds ++ .definition id :: clauses.map (.clause id))
  lasts : ∀ id r, (declareAll ds).rule? id = some r →
    ∃ r', (declareAll (ds ++ more)).rule? id = some r' ∧
      r.Lasts r' (more.flatMap (·.clausesFor id))
  terminals : ∀ t, ((declareAll ds).addTerminal t).1.number = ds.countP (·.isTerminal) + 1 ∧
    (declareAll (ds ++ [.terminal t])).terminals.get? ((declareAll ds).addTerminal t).1 = some t
  rules : ∀ name, ((declareAll ds).addRule name).1.index = ds.countP (·.isRule) ∧
    (declareAll (ds ++ [.rule name])).rule? ((declareAll ds).addRule name).1 = some { name }
  /-- The table holds the length of a literal with its terminal. -/
  sizes : (declareAll ds).transforms.size = (declareAll ds).terminals.size
  replay : (declareAll (faultless {} ds)).rules = (declareAll ds).rules

theorem recordsMisuse (ds more : List (Declaration α)) : RecordsMisuse ds more := by
  obtain ⟨hrules, hterminals, _⟩ := sizes_declareAll ds
  have hsizes := size_transforms_declareAll ds
  have hrecorded : (declareAll ds).errors = misuses {} ds := errors_foldl rfl ds
  refine ⟨hrecorded, errors_declareAll_snoc ds, ?_,
    fun root e he => compile_declareAll_append he more, fun root d e hnone he => ?_,
    fun d hd hmisuse => ?_, fun id c hid => ?_, fun id clauses => ?_, fun id r hr => ?_,
    fun t => ⟨?_, ?_⟩, fun name => ⟨hrules, ?_⟩, hsizes, ?_⟩
  · rw [errors_declareAll_append]
    exact List.prefix_append _ _
  · have hfirst : (declareAll (ds ++ [d])).errors.head? = some e := by
      rw [errors_declareAll_snoc, hrecorded, hnone, List.nil_append]
      exact he
    rw [List.append_cons]
    exact compile_declareAll_append hfirst more
  · rw [declareAll_snoc] at hmisuse ⊢
    exact (declare_cases hsizes hd).resolve_left fun hnone => hmisuse hnone.2
  · rw [declareAll_snoc]
    exact addClause_of_undeclared hid c
  · rw [declareAll_append]
    exact define_eq_foldl _ id clauses
  · rw [declareAll_append]
    exact ⟨_, rule?_foldl hr more, r.lasts_grown _⟩
  · show (declareAll ds).terminals.size + 1 = _
    rw [hterminals]
  · rw [declareAll_snoc]
    exact TerminalTable.get?_push.trans (if_pos rfl)
  · rw [declareAll_snoc]
    exact Array.getElem?_push_size
  · exact rules_foldl_faultless rfl rfl ds

/-- Calls of which most are wrong, each in another way. The last is for a rule that is not declared,
and is not wrong once more. -/
def misused : List (Declaration Unit) :=
  let x : Step := .terminal ⟨0⟩
  [.terminal { matcher := .char 'x' }, .rule "list", .clause ⟨0⟩ (.step x),
    .clause ⟨0⟩ (.separated x x false), .clause ⟨0⟩ (.cyclic [x]),
    .clause ⟨0⟩ (.action fun _ => ()), .clause ⟨0⟩ (.action fun _ => ()),
    .transform ⟨3⟩ fun _ => (), .terminal { matcher := .literal "" },
    .terminal { matcher := .oneOf [⟨0⟩, ⟨5⟩, ⟨4⟩] }, .definition ⟨7⟩, .clause ⟨7⟩ (.step x)]

theorem recordsMisuse_misused : RecordsMisuse misused [.rule "later"] ∧
    (declareAll misused).errors =
      [.mixedKinds "list" .sequence .separated, .mixedKinds "list" .sequence .cyclic,
        .duplicateAction "list", .unknownTerminal .transform ⟨3⟩, .emptyLiteral ⟨1⟩,
        .unknownTerminal (.member ⟨2⟩) ⟨5⟩, .unknownRule .definition ⟨7⟩] ∧
    (declareAll (misused ++ [.rule "later"])).compile ⟨0⟩ =
      .error (.mixedKinds "list" .sequence .separated) ∧
    (declareAll misused).rules.toList.map (·.body) = [.sequence [⟨.terminal ⟨0⟩, false⟩]] := by
  have hall := recordsMisuse misused [.rule "later"]
  exact ⟨hall, hall.recorded.trans rfl, hall.earliest ⟨0⟩ _ rfl, rfl⟩

end Grammar

end Descent
