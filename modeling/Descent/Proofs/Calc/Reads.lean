import Descent.Calc.Grammar
import Descent.Symbol.Basic

/-!
# The grammar of the calculator as a relation

`Reads` and its companions are the context-free grammar of the language, each derivation with the
tree that it stands for:

    program      = (let_stmt | print_stmt)*           `ReadsProgram`
    let_stmt     = "let" identifier "=" expr ";"      `ReadsStatement.bind`
    print_stmt   = "print" args ";"                   `ReadsStatement.print`
    args         = expr ("," expr)*                   `ReadsArgs`
    expr         = term sum_tail                      `Reads (.chain .sum)`
    sum_tail     = (("+" | "-") term)*                `Reads (.tail .sum left)`
    term         = factor product_tail                `Reads (.chain .product)`
    product_tail = (("*" | "/") factor)*              `Reads (.tail .product left)`
    factor       = number | identifier | "-" factor | "(" expr ")"

A tail is read behind what stands to its left, so that operators of one level associate to the left.
Neither rules nor evaluation are mentioned.
-/

namespace Descent.Calc

/-- The levels of operators, the one that binds tighter first. -/
inductive Level where
  | product
  | sum
deriving Repr, DecidableEq

namespace Operator

def level : Operator → Level
  | add | sub => .sum
  | mul | div => .product

def sign : Operator → Sign
  | add => .plus
  | sub => .minus
  | mul => .star
  | div => .slash

end Operator

/-- What an expression is read as. -/
inductive Form where
  | factor
  /-- Operands with operators of the level between them: a term or an expression. -/
  | chain (level : Level)
  /-- The operators of the level and their right operands, behind what stands to the left. -/
  | tail (level : Level) (left : Expr)
deriving Repr, DecidableEq

/-- What the operators of the level stand between. -/
def Level.operand : Level → Form
  | product => .factor
  | sum => .chain .product

/-- The symbols are derived from the form, and this is their tree. -/
inductive Reads : Form → List Symbol → Expr → Prop where
  | number {x : Symbol} (hx : x.terminal = Sign.number.id) : Reads .factor [x] (.number x.text)
  | name {x : Symbol} (hx : x.terminal = Sign.name.id) : Reads .factor [x] (.variable x.text)
  | negation {x : Symbol} {w e} (hx : x.terminal = Sign.minus.id) (operand : Reads .factor w e) :
      Reads .factor (x :: w) (.negate e)
  | group {x y : Symbol} {w e} (hx : x.terminal = Sign.openParen.id)
      (inner : Reads (.chain .sum) w e) (hy : y.terminal = Sign.closeParen.id) :
      Reads .factor (x :: (w ++ [y])) e
  | chain {l : Level} {u w left e} (operand : Reads l.operand u left)
      (tail : Reads (.tail l left) w e) : Reads (.chain l) (u ++ w) e
  | nothing {l : Level} {left} : Reads (.tail l left) [] left
  | operation {l : Level} {x : Symbol} {op u w left right e} (hx : x.terminal = op.sign.id)
      (hop : op.level = l) (operand : Reads l.operand u right)
      (rest : Reads (.tail l (.binary op left right)) w e) :
      Reads (.tail l left) (x :: (u ++ w)) e

/-- The symbols are expressions with commas between them. -/
inductive ReadsArgs : List Symbol → List Expr → Prop where
  | last {w e} (h : Reads (.chain .sum) w e) : ReadsArgs w [e]
  | more {u w e es} {x : Symbol} (h : Reads (.chain .sum) u e) (hx : x.terminal = Sign.comma.id)
      (rest : ReadsArgs w es) : ReadsArgs (u ++ x :: w) (e :: es)

inductive ReadsStatement : List Symbol → Statement → Prop where
  | bind {k x a s : Symbol} {w e} (hk : k.terminal = Sign.letWord.id)
      (hx : x.terminal = Sign.name.id) (ha : a.terminal = Sign.assign.id)
      (value : Reads (.chain .sum) w e) (hs : s.terminal = Sign.semicolon.id) :
      ReadsStatement (k :: x :: a :: (w ++ [s])) (.bind x.text e)
  | print {k s : Symbol} {w es} (hk : k.terminal = Sign.printWord.id) (args : ReadsArgs w es)
      (hs : s.terminal = Sign.semicolon.id) : ReadsStatement (k :: (w ++ [s])) (.print es)

inductive ReadsStatements : List Symbol → List Statement → Prop where
  | nil : ReadsStatements [] []
  | cons {u w s ss} (h : ReadsStatement u s) (rest : ReadsStatements w ss) :
      ReadsStatements (u ++ w) (s :: ss)

/-- The symbols are derived from `program`, and this is their tree. -/
def ReadsProgram (w : List Symbol) (p : Program) : Prop := ReadsStatements w p.statements

/-! ## Where symbols stand -/

/-- The word stands in the symbols from `p` on, and `q` is behind it. -/
def Spans (symbols : Array Symbol) : Nat → List Symbol → Nat → Prop
  | p, [], q => p = q
  | p, x :: w, q => symbols[p]? = some x ∧ Spans symbols (p + 1) w q

namespace Spans

variable {symbols : Array Symbol} {p q r : Nat} {x : Symbol} {u w : List Symbol}

theorem single (h : symbols[p]? = some x) : Spans symbols p [x] (p + 1) := ⟨h, rfl⟩

theorem append_iff :
    Spans symbols p (u ++ w) r ↔ ∃ q, Spans symbols p u q ∧ Spans symbols q w r := by
  induction u generalizing p with
  | nil => simp [Spans]
  | cons x u ih =>
      simp only [List.cons_append, Spans, ih]
      exact ⟨fun ⟨hx, q, hu, hw⟩ => ⟨q, ⟨hx, hu⟩, hw⟩, fun ⟨q, ⟨hx, hu⟩, hw⟩ => ⟨hx, q, hu, hw⟩⟩

theorem append (hu : Spans symbols p u q) (hw : Spans symbols q w r) : Spans symbols p (u ++ w) r :=
  append_iff.mpr ⟨q, hu, hw⟩

theorem eq_add (h : Spans symbols p w q) : q = p + w.length := by
  induction w generalizing p with
  | nil => exact h.symm
  | cons x w ih =>
      have hq := ih h.2
      rw [List.length_cons]
      omega

theorem le_size (h : Spans symbols p w q) (hp : p ≤ symbols.size) : q ≤ symbols.size := by
  induction w generalizing p with
  | nil =>
      obtain rfl : p = q := h
      exact hp
  | cons x w ih =>
      obtain ⟨hx, hw⟩ := h
      obtain ⟨hlt, _⟩ := Array.getElem?_eq_some_iff.mp hx
      exact ih hw hlt

/-- At most one word stands between two positions. -/
theorem functional (h : Spans symbols p w q) (h' : Spans symbols p u q) : w = u := by
  induction w generalizing p u with
  | nil =>
      have hlength := h'.eq_add
      have hpq : p = q := h
      cases u with
      | nil => rfl
      | cons y u =>
          rw [List.length_cons] at hlength
          omega
  | cons x w ih =>
      have hlength := h.eq_add
      cases u with
      | nil =>
          have hpq : p = q := h'
          rw [List.length_cons] at hlength
          omega
      | cons y u =>
          rw [Option.some.inj (h.1.symm.trans h'.1), ih h.2 h'.2]

/-- The word that stands between two positions. -/
theorem extract (hpq : p ≤ q) (hq : q ≤ symbols.size) :
    Spans symbols p (symbols.extract p q).toList q := by
  induction hn : q - p generalizing p with
  | zero =>
      obtain rfl : p = q := by omega
      simp [Spans]
  | succ n ih =>
      have hlt : p < symbols.size := by omega
      have hsplit : (symbols.extract p q).toList =
          symbols[p] :: (symbols.extract (p + 1) q).toList := by
        rw [Array.toList_extract, Array.toList_extract, List.extract_eq_take_drop,
          List.extract_eq_take_drop, List.drop_eq_getElem_cons (by simpa using hlt), hn,
          List.take_succ_cons, Array.getElem_toList, show q - (p + 1) = n by omega]
      rw [hsplit]
      exact ⟨Array.getElem?_eq_getElem hlt, ih (by omega) (by omega)⟩

end Spans

end Descent.Calc
