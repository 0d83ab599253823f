import Descent.Calc.Syntax

/-! # The calculator language: evaluation

Values are signed 64-bit integers. Every operation is carried out exactly and its result kept only
if it is such an integer. The operands of an expression are evaluated left to right, and the first
failure ends the program.
-/

namespace Descent.Calc

inductive EvalError where
  | undefinedVariable (name : String)
  | numberOutOfRange (digits : String)
  | divisionByZero
  | overflow
deriving Repr, DecidableEq

def EvalError.message : EvalError → String
  | undefinedVariable name => s!"undefined variable `{name}`"
  | numberOutOfRange digits => s!"number `{digits}` is out of range"
  | divisionByZero => "division by zero"
  | overflow => "arithmetic overflow"

/-- The integer as a value, if it is in range. -/
def value? (n : Int) : Option Int64 :=
  if Int64.minValue.toInt ≤ n ∧ n ≤ Int64.maxValue.toInt then some (Int64.ofInt n) else none

/-- The number that decimal digits spell, if there are digits and nothing else. -/
def natural? (digits : List Char) : Option Nat :=
  if digits.isEmpty || !digits.all Char.isDigit then none
  else some (digits.foldl (fun n d => 10 * n + (d.toNat - '0'.toNat)) 0)

/-- The integer that a text spells: digits, and there may be a sign in front of them. -/
def integer? (text : String) : Option Int :=
  match text.toList with
  | '-' :: digits => (natural? digits).map fun n => -(n : Int)
  | '+' :: digits => (natural? digits).map fun n => (n : Int)
  | digits => (natural? digits).map fun n => (n : Int)

/-- The bindings in force, latest first. -/
abbrev Bindings := List (String × Int64)

def Operator.apply (op : Operator) (a b : Int64) : Except EvalError Int64 :=
  let exact (n : Int) : Except EvalError Int64 :=
    match value? n with
    | some v => .ok v
    | none => .error .overflow
  match op with
  | add => exact (a.toInt + b.toInt)
  | sub => exact (a.toInt - b.toInt)
  | mul => exact (a.toInt * b.toInt)
  | div => if b = 0 then .error .divisionByZero else exact (a.toInt.tdiv b.toInt)

def Expr.evaluate (env : Bindings) : Expr → Except EvalError Int64
  | number digits =>
    match (integer? digits).bind value? with
    | some v => .ok v
    | none => .error (.numberOutOfRange digits)
  | «variable» name =>
    match env.lookup name with
    | some v => .ok v
    | none => .error (.undefinedVariable name)
  | negate operand => do
    let a ← operand.evaluate env
    match value? (-a.toInt) with
    | some v => .ok v
    | none => .error .overflow
  | binary op left right => do
    let a ← left.evaluate env
    let b ← right.evaluate env
    op.apply a b

/-- The line that a print statement writes. -/
def line (values : List Int64) : String := " ".intercalate (values.map fun v => s!"{v.toInt}")

/-- Runs statements; answers the lines they print. -/
def evaluateFrom (env : Bindings) : List Statement → Except EvalError (List String)
  | [] => .ok []
  | .bind name value :: rest => do
    let v ← value.evaluate env
    evaluateFrom ((name, v) :: env) rest
  | .print args :: rest => do
    let values ← args.mapM (·.evaluate env)
    let lines ← evaluateFrom env rest
    .ok (line values :: lines)

/-- Runs a program; answers one line for each print statement. -/
def Program.evaluate (p : Program) : Except EvalError (List String) :=
  evaluateFrom [] p.statements

end Descent.Calc
