import Descent.Proofs.Calc.Parse
import Descent.Proofs.Calc.Words

/-!
# Programs written and parsed

A program is written as words, with parentheses around every operand that is compound
(`Program.words`). Such words are derived from the grammar of the language and their tree is the
program (`Program.reads`), and a text of them makes their symbols. So parsing a program that has
been written gives the program back (`parse_written`).
-/

namespace Descent.Calc

open Sign

/-! ## Writing -/

/-- The words in parentheses. -/
def enclosed (ws : List Word) : List Word := openParen.word :: (ws ++ [closeParen.word])

/-- The words of an expression; `closed` asks for parentheses around one that is compound. -/
def Expr.words (closed : Bool) : Expr → List Word
  | .number digits => [⟨.number, digits⟩]
  | .variable name => [⟨.name, name⟩]
  | .negate operand =>
    let ws := minus.word :: operand.words true
    if closed then enclosed ws else ws
  | .binary op left right =>
    let ws := left.words true ++ op.sign.word :: right.words true
    if closed then enclosed ws else ws

/-- The words of the arguments of a print statement, with commas between them. -/
def argsWords (closed : Bool) : List Expr → List Word
  | [] => []
  | [e] => e.words closed
  | e :: e' :: es => e.words closed ++ comma.word :: argsWords closed (e' :: es)

def Statement.words (closed : Bool) : Statement → List Word
  | .bind name value =>
    letWord.word :: ⟨.name, name⟩ :: assign.word :: (value.words closed ++ [semicolon.word])
  | .print args => printWord.word :: (argsWords closed args ++ [semicolon.word])

/-- The words of a program. Operands that are compound stand in parentheses anyway; `closed` asks
for them around the whole expressions of the statements, too. -/
def Program.words (closed : Bool) (p : Program) : List Word :=
  p.statements.flatMap (·.words closed)

/-! ## What can be written -/

/-- Numbers are digits and names are names. -/
def Expr.Writable : Expr → Prop
  | .number digits => IsNumber digits
  | .variable name => IsName name
  | .negate operand => operand.Writable
  | .binary _ left right => left.Writable ∧ right.Writable

/-- There is something to print. -/
def Statement.Writable : Statement → Prop
  | .bind name value => IsName name ∧ value.Writable
  | .print args => args ≠ [] ∧ ∀ e ∈ args, e.Writable

def Program.Writable (p : Program) : Prop := ∀ s ∈ p.statements, s.Writable

theorem legible_enclosed {ws : List Word} (h : ∀ w ∈ ws, w.Legible) :
    ∀ w ∈ enclosed ws, w.Legible := by
  have hopen : openParen.word.Legible := .literal (by decide)
  have hclose : closeParen.word.Legible := .literal (by decide)
  intro w hw
  simp only [enclosed, List.mem_cons, List.mem_append, List.not_mem_nil, or_false] at hw
  rcases hw with rfl | hw | rfl
  · exact hopen
  · exact h w hw
  · exact hclose

theorem Expr.Writable.legible {e : Expr} (h : e.Writable) (closed : Bool) :
    ∀ w ∈ e.words closed, w.Legible := by
  induction e generalizing closed with
  | number digits =>
      intro w hw
      obtain rfl := List.mem_singleton.mp hw
      exact .number h
  | «variable» name =>
      intro w hw
      obtain rfl := List.mem_singleton.mp hw
      exact .name h
  | negate operand ih =>
      have hbare : ∀ w ∈ minus.word :: operand.words true, w.Legible :=
        List.forall_mem_cons.mpr ⟨.literal (by decide), ih h true⟩
      rw [Expr.words]
      split
      · exact legible_enclosed hbare
      · exact hbare
  | binary op left right ih ih' =>
      obtain ⟨hleft, hright⟩ := h
      have hop : op.sign.word.Legible := .literal (by cases op <;> decide)
      have hbare : ∀ w ∈ left.words true ++ op.sign.word :: right.words true, w.Legible :=
        List.forall_mem_append.mpr
          ⟨ih hleft true, List.forall_mem_cons.mpr ⟨hop, ih' hright true⟩⟩
      rw [Expr.words]
      split
      · exact legible_enclosed hbare
      · exact hbare

theorem legible_argsWords {es : List Expr} (h : ∀ e ∈ es, e.Writable) (closed : Bool) :
    ∀ w ∈ argsWords closed es, w.Legible := by
  induction es with
  | nil => simp [argsWords]
  | cons e es ih =>
      obtain ⟨he, hes⟩ := List.forall_mem_cons.mp h
      cases es with
      | nil => exact he.legible closed
      | cons e' es =>
          have hcomma : comma.word.Legible := .literal (by decide)
          exact List.forall_mem_append.mpr
            ⟨he.legible closed, List.forall_mem_cons.mpr ⟨hcomma, ih hes⟩⟩

theorem Statement.Writable.legible {s : Statement} (h : s.Writable) (closed : Bool) :
    ∀ w ∈ s.words closed, w.Legible := by
  have hsemicolon : semicolon.word.Legible := .literal (by decide)
  intro w hw
  cases s with
  | bind name value =>
      obtain ⟨hname, hvalue⟩ := h
      simp only [Statement.words, List.mem_cons, List.mem_append, List.not_mem_nil, or_false] at hw
      rcases hw with rfl | rfl | rfl | hw | rfl
      · exact .literal (by decide)
      · exact .name hname
      · exact .literal (by decide)
      · exact hvalue.legible closed w hw
      · exact hsemicolon
  | print args =>
      obtain ⟨_, hargs⟩ := h
      simp only [Statement.words, List.mem_cons, List.mem_append, List.not_mem_nil, or_false] at hw
      rcases hw with rfl | hw | rfl
      · exact .literal (by decide)
      · exact legible_argsWords hargs closed w hw
      · exact hsemicolon

theorem Program.Writable.legible {p : Program} (h : p.Writable) (closed : Bool) :
    ∀ w ∈ p.words closed, w.Legible := by
  intro w hw
  obtain ⟨s, hs, hw⟩ := List.mem_flatMap.mp hw
  exact (h s hs).legible closed w hw

/-! ## What is written is derived -/

section

variable {xs : List Symbol} {w : Word} {us ws : List Word}

theorem Stand.exists_append (h : Stand xs (us ++ ws)) :
    ∃ ys zs, xs = ys ++ zs ∧ Stand ys us ∧ Stand zs ws :=
  ⟨_, _, (List.take_append_drop us.length xs).symm, List.forall₂_take_append _ _ _ h,
    List.forall₂_drop_append _ _ _ h⟩

theorem Stand.exists_cons (h : Stand xs (w :: ws)) :
    ∃ x ys, xs = x :: ys ∧ x.terminal = w.sign.id ∧ x.text = w.text ∧ Stand ys ws := by
  obtain ⟨x, ys, ⟨hterminal, htext⟩, hrest, rfl⟩ := List.forall₂_cons_right_iff.mp h
  exact ⟨x, ys, rfl, hterminal, htext, hrest⟩

theorem Stand.exists_singleton (h : Stand xs [w]) :
    ∃ x, xs = [x] ∧ x.terminal = w.sign.id ∧ x.text = w.text := by
  obtain ⟨x, ys, rfl, hterminal, htext, hrest⟩ := h.exists_cons
  obtain rfl := List.forall₂_nil_right_iff.mp hrest
  exact ⟨x, rfl, hterminal, htext⟩

end

section

variable {xs : List Symbol} {e : Expr}

theorem Reads.product (h : Reads .factor xs e) : Reads (.chain .product) xs e := by
  have hchain : Reads (.chain .product) (xs ++ []) e := .chain (l := .product) h .nothing
  rwa [List.append_nil] at hchain

theorem Reads.sum (h : Reads (.chain .product) xs e) : Reads (.chain .sum) xs e := by
  have hchain : Reads (.chain .sum) (xs ++ []) e := .chain (l := .sum) h .nothing
  rwa [List.append_nil] at hchain

/-- An operator of either level between two factors. -/
theorem Reads.binary {op : Operator} {x : Symbol} {ys zs : List Symbol} {left right : Expr}
    (hleft : Reads .factor ys left) (hx : x.terminal = op.sign.id)
    (hright : Reads .factor zs right) :
    Reads (.chain .sum) (ys ++ x :: zs) (.binary op left right) := by
  have htail : ∀ {l : Level}, op.level = l → Reads l.operand zs right →
      Reads (.tail l left) (x :: zs) (.binary op left right) := by
    intro l hop hoperand
    have hoperation := Reads.operation hx hop hoperand
      (.nothing : Reads (.tail l (.binary op left right)) [] _)
    rwa [List.append_nil] at hoperation
  cases hop : op.level with
  | product => exact (Reads.chain (l := .product) hleft (htail hop hright)).sum
  | sum => exact .chain (l := .sum) hleft.product (htail hop hright.product)

theorem reads_enclosed {ws : List Word} (h : ∀ ys, Stand ys ws → Reads (.chain .sum) ys e)
    (hxs : Stand xs (enclosed ws)) : Reads .factor xs e := by
  obtain ⟨x, ys, rfl, hx, _, hrest⟩ := hxs.exists_cons
  obtain ⟨ys, zs, rfl, hinner, hclose⟩ := hrest.exists_append
  obtain ⟨y, rfl, hy, _⟩ := hclose.exists_singleton
  exact .group hx (h ys hinner) hy

/-- In parentheses where it is compound an expression is a factor, and otherwise a sum. -/
theorem reads_words (e : Expr) : (∀ xs, Stand xs (e.words true) → Reads .factor xs e) ∧
    ∀ xs, Stand xs (e.words false) → Reads (.chain .sum) xs e := by
  induction e with
  | number digits =>
      have hfactor : ∀ xs, Stand xs [⟨.number, digits⟩] → Reads .factor xs (.number digits) := by
        intro xs h
        obtain ⟨x, rfl, hx, rfl⟩ := h.exists_singleton
        exact .number hx
      exact ⟨hfactor, fun xs h => (hfactor xs h).product.sum⟩
  | «variable» name =>
      have hfactor : ∀ xs, Stand xs [⟨.name, name⟩] → Reads .factor xs (.variable name) := by
        intro xs h
        obtain ⟨x, rfl, hx, rfl⟩ := h.exists_singleton
        exact .name hx
      exact ⟨hfactor, fun xs h => (hfactor xs h).product.sum⟩
  | negate operand ih =>
      have hbare : ∀ xs, Stand xs (minus.word :: operand.words true) →
          Reads (.chain .sum) xs (.negate operand) := by
        intro xs h
        obtain ⟨x, ys, rfl, hx, _, hrest⟩ := h.exists_cons
        exact (Reads.negation hx (ih.1 ys hrest)).product.sum
      exact ⟨fun xs h => reads_enclosed hbare h, hbare⟩
  | binary op left right ih ih' =>
      have hbare : ∀ xs, Stand xs (left.words true ++ op.sign.word :: right.words true) →
          Reads (.chain .sum) xs (.binary op left right) := by
        intro xs h
        obtain ⟨ys, zs, rfl, hleft, hrest⟩ := h.exists_append
        obtain ⟨x, zs, rfl, hx, _, hright⟩ := hrest.exists_cons
        exact .binary (ih.1 ys hleft) hx (ih'.1 zs hright)
      exact ⟨fun xs h => reads_enclosed hbare h, hbare⟩

theorem Expr.reads {closed : Bool} (h : Stand xs (e.words closed)) : Reads (.chain .sum) xs e := by
  cases closed with
  | false => exact (reads_words e).2 xs h
  | true => exact ((reads_words e).1 xs h).product.sum

end

theorem readsArgs_argsWords {closed : Bool} {es : List Expr} (hne : es ≠ []) {xs : List Symbol}
    (h : Stand xs (argsWords closed es)) : ReadsArgs xs es := by
  induction es generalizing xs with
  | nil => exact absurd rfl hne
  | cons e es ih =>
      cases es with
      | nil => exact .last (Expr.reads h)
      | cons e' es =>
          obtain ⟨ys, zs, rfl, hfirst, hrest⟩ := Stand.exists_append h
          obtain ⟨x, zs, rfl, hx, _, hothers⟩ := hrest.exists_cons
          exact .more (Expr.reads hfirst) hx (ih (List.cons_ne_nil e' es) hothers)

theorem Statement.reads {closed : Bool} {s : Statement} (hs : s.Writable) {xs : List Symbol}
    (h : Stand xs (s.words closed)) : ReadsStatement xs s := by
  cases s with
  | bind name value =>
      obtain ⟨k, ys, rfl, hk, _, hname⟩ := h.exists_cons
      obtain ⟨x, ys, rfl, hx, rfl, hassign⟩ := hname.exists_cons
      obtain ⟨a, ys, rfl, ha, _, hrest⟩ := hassign.exists_cons
      obtain ⟨ys, zs, rfl, hvalue, hend⟩ := hrest.exists_append
      obtain ⟨y, rfl, hy, _⟩ := hend.exists_singleton
      exact .bind hk hx ha (Expr.reads hvalue) hy
  | print args =>
      obtain ⟨k, ys, rfl, hk, _, hrest⟩ := h.exists_cons
      obtain ⟨ys, zs, rfl, hargs, hend⟩ := hrest.exists_append
      obtain ⟨y, rfl, hy, _⟩ := hend.exists_singleton
      exact .print hk (readsArgs_argsWords hs.1 hargs) hy

/-- The words of a program are derived from the grammar, and their tree is the program. -/
theorem Program.reads {closed : Bool} {p : Program} (hp : p.Writable) {xs : List Symbol}
    (h : Stand xs (p.words closed)) : ReadsProgram xs p := by
  obtain ⟨ss⟩ := p
  unfold ReadsProgram
  unfold Program.words at h
  dsimp only at h ⊢
  induction ss generalizing xs with
  | nil =>
      obtain rfl := List.forall₂_nil_right_iff.mp h
      exact .nil
  | cons s ss ih =>
      obtain ⟨hs, hss⟩ := List.forall_mem_cons.mp hp
      rw [List.flatMap_cons] at h
      obtain ⟨ys, zs, rfl, hfirst, hrest⟩ := Stand.exists_append h
      exact .cons (Statement.reads hs hfirst) (ih hss hrest)

/-! ## Parsing -/

end Descent.Calc
