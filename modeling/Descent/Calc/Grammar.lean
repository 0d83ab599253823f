import Descent.Calc.Syntax
import Descent.Parser

/-! # The calculator language: grammar

    program      = (let_stmt | print_stmt)*
    let_stmt     = "let" identifier "=" expr ";"
    print_stmt   = "print" args ";"
    args         = expr ("," expr)*
    expr         = term sum_tail
    sum_tail     = (("+" | "-") term)*
    term         = factor product_tail
    product_tail = (("*" | "/") factor)*
    factor       = number | identifier | "-" factor | "(" expr ")"

White space and line comments, which begin with `//`, are ignored. The tails of operators are folded
to the left, so that operators of one level associate to the left and products bind tighter than
sums.
-/

namespace Descent.Calc

open Pattern (Regex CharSet)

/-! ## Values -/

/-- What the actions of the grammar build. -/
inductive Node where
  | program (p : Program)
  | statement (s : Statement)
  | expr (e : Expr)
  | args (es : List Expr)
  /-- An operator with the operand behind it. -/
  | operation (op : Operator) (operand : Expr)
  | tail (operations : List (Operator × Expr))
  /-- Stands for what an action could not use. -/
  | missing
deriving Repr, DecidableEq

namespace Node

def statement? : Node → Option Statement
  | statement s => some s
  | _ => none

def expr? : Node → Option Expr
  | expr e => some e
  | _ => none

def program? : Node → Option Program
  | program p => some p
  | _ => none

def operation? : Node → Option (Operator × Expr)
  | operation op e => some (op, e)
  | _ => none

end Node

/-! ## Terminals -/

/-- Matches of the set, one after the other, as many as there are. -/
def run (set : CharSet) : Regex := .repeated (.read set) 1 none true

def blanks : Pattern := .ofRegex "\\s+" (run .blank)

example : Pattern.ofSource "\\s+" = .ok blanks := rfl

def comment : Pattern :=
  .ofRegex "//[^\\n]*"
    (.ofPieces [.read (.single '/'), .read (.single '/'),
      .repeated (.read (.compl (.single '\n'))) 0 none true])

example : Pattern.ofSource "//[^\\n]*" = .ok comment := rfl

def number : Pattern := .ofRegex "[0-9]+" (run (.range '0' '9'))

example : Pattern.ofSource "[0-9]+" = .ok number := rfl

/-- The letters and the low line. -/
def nameStart : CharSet := .union (.union (.range 'A' 'Z') (.range 'a' 'z')) (.single '_')

/-- The letters, the digits and the low line. -/
def nameRest : CharSet :=
  .union (.union (.union (.range 'A' 'Z') (.range 'a' 'z')) (.range '0' '9')) (.single '_')

def name : Pattern :=
  .ofRegex "[A-Za-z_][A-Za-z0-9_]*"
    (.ofPieces [.read nameStart, .repeated (.read nameRest) 0 none true])

example : Pattern.ofSource "[A-Za-z_][A-Za-z0-9_]*" = .ok name := rfl

/-- The terminals in the order of their numbers. -/
inductive Sign where
  | blanks
  | comment
  | letWord
  | printWord
  | number
  | name
  | assign
  | semicolon
  | comma
  | openParen
  | closeParen
  | plus
  | minus
  | star
  | slash
deriving Repr, DecidableEq

namespace Sign

def id (s : Sign) : TerminalId := ⟨s.ctorIdx⟩

def all : List Sign :=
  [blanks, comment, letWord, printWord, number, name, assign, semicolon, comma, openParen,
    closeParen, plus, minus, star, slash]

def terminal : Sign → Terminal
  | blanks => { matcher := .pattern Calc.blanks, ignored := true }
  | comment => { matcher := .pattern Calc.comment, ignored := true }
  | letWord => { matcher := .literal "let" }
  | printWord => { matcher := .literal "print" }
  | number => { matcher := .pattern Calc.number, name := some "number" }
  | name => { matcher := .pattern Calc.name, name := some "identifier" }
  | assign => { matcher := .char '=' }
  | semicolon => { matcher := .char ';' }
  | comma => { matcher := .char ',' }
  | openParen => { matcher := .char '(' }
  | closeParen => { matcher := .char ')' }
  | plus => { matcher := .char '+' }
  | minus => { matcher := .char '-' }
  | star => { matcher := .char '*' }
  | slash => { matcher := .char '/' }

def step (s : Sign) : Step := .terminal s.id

end Sign

/-! ## Rules -/

/-- The rules in the order of their numbers. -/
inductive Phrase where
  | program
  | letStatement
  | printStatement
  | args
  | expr
  | sumTail
  | sumStep
  | term
  | productTail
  | productStep
  | factor
  | negation
  | group
deriving Repr, DecidableEq

namespace Phrase

def id (p : Phrase) : RuleId := ⟨p.ctorIdx⟩

def all : List Phrase :=
  [program, letStatement, printStatement, args, expr, sumTail, sumStep, term, productTail,
    productStep, factor, negation, group]

def step (p : Phrase) : Step := .rule p.id

def name : Phrase → String
  | program => "program"
  | letStatement => "let_stmt"
  | printStatement => "print_stmt"
  | args => "args"
  | expr => "expr"
  | sumTail => "sum_tail"
  | sumStep => "sum_step"
  | term => "term"
  | productTail => "product_tail"
  | productStep => "product_step"
  | factor => "factor"
  | negation => "negation"
  | group => "group"

end Phrase

/-- The expression built for the child at a position. -/
def exprAt? (cs : Children Node) (i : Nat) : Option Expr := (cs.nodeAt? i).bind (·.expr?)

def buildProgram (cs : Children Node) : Node :=
  .program ⟨(cs.filterMap (·.node?)).filterMap (·.statement?)⟩

def buildLet (cs : Children Node) : Node :=
  match exprAt? cs 1, exprAt? cs 3 with
  | some (.variable name), some value => .statement (.bind name value)
  | _, _ => .missing

def buildPrint (cs : Children Node) : Node :=
  match cs.nodeAt? 1 with
  | some (.args es) => .statement (.print es)
  | _ => .missing

def buildArgs (cs : Children Node) : Node :=
  .args ((cs.filterMap (·.node?)).filterMap (·.expr?))

/-- An operand and its tail as a chain to the left. -/
def buildChain (cs : Children Node) : Node :=
  match exprAt? cs 0 with
  | none => .missing
  | some first =>
    let operations := match cs.nodeAt? 1 with
      | some (.tail operations) => operations
      | _ => []
    .expr (operations.foldl (fun left o => .binary o.1 left o.2) first)

def buildTail (cs : Children Node) : Node :=
  .tail ((cs.filterMap (·.node?)).filterMap (·.operation?))

def buildOperation (cs : Children Node) : Node :=
  match (cs.tokenAt? 0).bind fun t => Operator.ofSymbol? t.text, exprAt? cs 1 with
  | some op, some operand => .operation op operand
  | _, _ => .missing

def buildNegation (cs : Children Node) : Node :=
  match exprAt? cs 1 with
  | some operand => .expr (.negate operand)
  | none => .missing

def buildGroup (cs : Children Node) : Node := (cs.nodeAt? 1).getD .missing

open Sign Phrase in
/-- The definition of each rule. -/
def Phrase.clauses : Phrase → List (Clause Node)
  | program => [.cyclic [letStatement.step, printStatement.step], .action buildProgram]
  | letStatement =>
    [.step letWord.step, .step Sign.name.step, .step assign.step, .step expr.step,
      .step semicolon.step, .action buildLet]
  | printStatement =>
    [.step printWord.step, .step args.step, .step semicolon.step, .action buildPrint]
  | args => [.separated expr.step comma.step false, .action buildArgs]
  | expr => [.step term.step, .step sumTail.step, .action buildChain]
  | sumTail => [.cyclic [sumStep.step], .action buildTail]
  | sumStep => [.step (.choice [plus.step, minus.step]), .step term.step, .action buildOperation]
  | term => [.step factor.step, .step productTail.step, .action buildChain]
  | productTail => [.cyclic [productStep.step], .action buildTail]
  | productStep =>
    [.step (.choice [star.step, slash.step]), .step factor.step, .action buildOperation]
  | factor =>
    [.step (.choice [Sign.number.step, Sign.name.step, negation.step, group.step])]
  | negation => [.step minus.step, .step factor.step, .action buildNegation]
  | group => [.step openParen.step, .step expr.step, .step closeParen.step, .action buildGroup]

/-- The grammar of the language. -/
def grammar : Grammar Node :=
  let g : Grammar Node := {}
  let g := Sign.all.foldl (fun (g : Grammar Node) s => (g.addTerminal s.terminal).2) g
  let g := g.setTransform Sign.number.id fun t => .expr (.number t.text)
  let g := g.setTransform Sign.name.id fun t => .expr (.variable t.text)
  let g := Phrase.all.foldl (fun (g : Grammar Node) p => (g.addRule p.name).2) g
  Phrase.all.foldl (fun (g : Grammar Node) p => g.define p.id p.clauses) g

/-- The parser of the language. -/
def parser (limits : Limits) : Parser Node :=
  { grammar, root := Phrase.program.id, limits }

/-- The program a match of the root has built. -/
def programOf? (v : Value Node) : Option Program := v.node?.bind (·.program?)

end Descent.Calc
