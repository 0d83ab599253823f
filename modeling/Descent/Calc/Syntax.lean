import Descent.Json

/-! # The calculator language: syntax

A program is a list of statements that bind names to values and print values. Expressions are
numbers, names and arithmetic on them. Numbers are kept as they are written.
-/

namespace Descent.Calc

inductive Operator where
  | add
  | sub
  | mul
  | div
deriving Repr, DecidableEq

namespace Operator

def ofSymbol? : String → Option Operator
  | "+" => some add
  | "-" => some sub
  | "*" => some mul
  | "/" => some div
  | _ => none

def symbol : Operator → String
  | add => "+"
  | sub => "-"
  | mul => "*"
  | div => "/"

def name : Operator → String
  | add => "add"
  | sub => "sub"
  | mul => "mul"
  | div => "div"

@[simp] theorem ofSymbol?_symbol (op : Operator) : ofSymbol? op.symbol = some op := by
  cases op <;> rfl

end Operator

inductive Expr where
  | number (digits : String)
  | variable (name : String)
  | negate (operand : Expr)
  | binary (op : Operator) (left right : Expr)
deriving Repr, DecidableEq

inductive Statement where
  | bind (name : String) (value : Expr)
  | print (args : List Expr)
deriving Repr, DecidableEq

structure Program where
  statements : List Statement := []
deriving Repr, DecidableEq

/-! ## As JSON -/

namespace Expr

def toJson : Expr → Json
  | number digits => .obj [("kind", .str "number"), ("digits", .str digits)]
  | «variable» name => .obj [("kind", .str "variable"), ("name", .str name)]
  | negate operand => .obj [("kind", .str "negate"), ("operand", operand.toJson)]
  | binary op left right =>
    .obj [("kind", .str "binary"), ("op", .str op.name), ("lhs", left.toJson),
      ("rhs", right.toJson)]

end Expr

def Statement.toJson : Statement → Json
  | bind name value => .obj [("kind", .str "let"), ("name", .str name), ("value", value.toJson)]
  | print args => .obj [("kind", .str "print"), ("args", .arr (args.map (·.toJson)))]

def Program.toJson (p : Program) : Json :=
  .obj [("statements", .arr (p.statements.map (·.toJson)))]

end Descent.Calc
