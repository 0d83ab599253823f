import Descent.Calc.Evaluate
import Descent.Proofs.Calc.Words
import Mathlib.Data.List.Forall2
import Mathlib.Data.Nat.Digits.Defs

/-!
# Exact arithmetic

What a program means is told over all integers and with no account of range: what an expression is
worth where names stand for integers (`Expr.worth?`), the nodes of the expressions in the order of
evaluation, each with what names stand for there (`visits`), and the lines that are written
(`Writes`). A node fits if it is worth something in range, and where its operands fit and it does
not, there is one error that says why (`Expr.Faulty`).

Evaluation in 64 bits then does what the visits say (`Program.evaluate_exact`): it writes the lines
if every node fits, and else ends with the error of the first that does not. That each part of a
program settles so is carried by `Settles`, from one part to the next (`Settles.bind`).
-/

namespace Descent.Calc

/-! ## Meaning over all integers -/

/-- The integers that are values. -/
def InRange (n : Int) : Prop := -2 ^ 63 ≤ n ∧ n ≤ 2 ^ 63 - 1

/-- The integer that a number is in the decimal system. -/
def spelled? (digits : String) : Option Int :=
  if IsNumber digits then
    some (Nat.ofDigits 10 (digits.toList.map fun d => d.toNat - '0'.toNat).reverse : Nat)
  else none

/-- What names stand for. -/
abbrev Scope := String → Option Int

/-- The integer that the operation makes of two others. Division truncates toward zero. -/
def Operator.worth? (op : Operator) (a b : Int) : Option Int :=
  match op with
  | add => some (a + b)
  | sub => some (a - b)
  | mul => some (a * b)
  | div => if b = 0 then none else some (a.tdiv b)

namespace Expr

/-- What the expression is worth. -/
def worth? (ρ : Scope) : Expr → Option Int
  | number digits => spelled? digits
  | «variable» name => ρ name
  | negate operand => (operand.worth? ρ).map fun a => -a
  | binary op left right => do op.worth? (← left.worth? ρ) (← right.worth? ρ)

/-- The nodes of the expression in the order in which they are evaluated. -/
def nodes : Expr → List Expr
  | number digits => [number digits]
  | «variable» name => [«variable» name]
  | negate operand => operand.nodes ++ [negate operand]
  | binary op left right => left.nodes ++ (right.nodes ++ [binary op left right])

/-- The numbers in the expression, as they are written. -/
def numbers : Expr → List String
  | number digits => [digits]
  | «variable» _ => []
  | negate operand => operand.numbers
  | binary _ left right => left.numbers ++ right.numbers

/-- The expression is worth something, and that is in range. -/
def Fits (ρ : Scope) (e : Expr) : Prop := ∃ n, e.worth? ρ = some n ∧ InRange n

/-- What is wrong with the root of the expression, if its operands fit. -/
inductive Faulty (ρ : Scope) : Expr → EvalError → Prop where
  | number {digits n} (hexact : (number digits).worth? ρ = some n) (hout : ¬ InRange n) :
      Faulty ρ (number digits) (.numberOutOfRange digits)
  | unbound {name} (h : ρ name = none) : Faulty ρ («variable» name) (.undefinedVariable name)
  | negate {operand n} (hexact : (negate operand).worth? ρ = some n) (hout : ¬ InRange n) :
      Faulty ρ (negate operand) .overflow
  | division {left right} (h : right.worth? ρ = some 0) :
      Faulty ρ (binary .div left right) .divisionByZero
  | binary {op left right n} (hexact : (binary op left right).worth? ρ = some n)
      (hout : ¬ InRange n) : Faulty ρ (binary op left right) .overflow

end Expr

namespace Statement

def exprs : Statement → List Expr
  | bind _ value => [value]
  | print args => args

/-- What names stand for behind the statement. -/
def scope (ρ : Scope) : Statement → Scope
  | bind name value => Function.update ρ name (value.worth? ρ)
  | print _ => ρ

/-- What is printed, if the statement prints. -/
def printed? : Statement → Option (List Expr)
  | bind _ _ => none
  | print args => some args

end Statement

/-- The statements, each with what names stand for there. -/
def inScope (ρ : Scope) : List Statement → List (Scope × Statement)
  | [] => []
  | s :: rest => (ρ, s) :: inScope (s.scope ρ) rest

/-- The nodes of their expressions in the order in which they are evaluated, each with what names
stand for there. -/
def visits (ρ : Scope) (statements : List Statement) : List (Scope × Expr) :=
  (inScope ρ statements).flatMap fun x => x.2.exprs.flatMap fun e => e.nodes.map (x.1, ·)

/-- What the print statements print. -/
def prints (ρ : Scope) (statements : List Statement) : List (Scope × List Expr) :=
  (inScope ρ statements).filterMap fun x => x.2.printed?.map (x.1, ·)

/-- The line shows what the expressions are worth, in the decimal system and with single spaces
between them. -/
def Writes (x : Scope × List Expr) (line : String) : Prop :=
  ∃ ns : List Int, x.2.map (·.worth? x.1) = ns.map some ∧ line = " ".intercalate (ns.map toString)

def AllFit (vs : List (Scope × Expr)) : Prop := ∀ v ∈ vs, v.2.Fits v.1

/-- All before the first that is faulty fit. -/
inductive FirstFault : List (Scope × Expr) → EvalError → Prop where
  | here {ρ e error vs} (h : Expr.Faulty ρ e error) : FirstFault ((ρ, e) :: vs) error
  | later {v error vs} (hfits : v.2.Fits v.1) (h : FirstFault vs error) :
      FirstFault (v :: vs) error

/-- Initially names stand for nothing. -/
def Program.visits (p : Program) : List (Scope × Expr) :=
  Calc.visits (fun _ => none) p.statements

def Program.prints (p : Program) : List (Scope × List Expr) :=
  Calc.prints (fun _ => none) p.statements

/-- Its numbers are digits, and at least one. -/
def Program.Numeric (p : Program) : Prop :=
  ∀ s ∈ p.statements, ∀ e ∈ s.exprs, ∀ digits ∈ e.numbers, IsNumber digits

/-! ## Faults -/

variable {ρ : Scope} {vs ws : List (Scope × Expr)} {error error' : EvalError}

theorem Expr.worth?_binary {op : Operator} {left right : Expr} {n : Int} :
    (binary op left right).worth? ρ = some n ↔ ∃ a b, left.worth? ρ = some a ∧
      right.worth? ρ = some b ∧ op.worth? a b = some n := by
  simp [worth?, Option.bind_eq_some_iff]

/-- Where the divisor is zero there is nothing to be out of range. -/
theorem Expr.worth?_div_zero {left right : Expr} {n : Int} (h : right.worth? ρ = some 0) :
    (binary .div left right).worth? ρ ≠ some n := by
  intro hexact
  obtain ⟨a, b, _, hright, hop⟩ := worth?_binary.mp hexact
  cases h.symm.trans hright
  cases hop

theorem Expr.Faulty.not_fits {e : Expr} (h : e.Faulty ρ error) : ¬ e.Fits ρ := by
  rintro ⟨n, hexact, hin⟩
  cases h with
  | number hexact' hout | negate hexact' hout | binary hexact' hout =>
      cases hexact.symm.trans hexact'
      exact hout hin
  | unbound h => cases h.symm.trans hexact
  | division h => exact worth?_div_zero h hexact

/-- A node has one fault. -/
theorem Expr.Faulty.unique {e : Expr} (h : e.Faulty ρ error) (h' : e.Faulty ρ error') :
    error = error' := by
  cases h with
  | number | unbound | negate =>
      cases h'
      rfl
  | division h =>
      cases h' with
      | division => rfl
      | binary hexact => exact absurd hexact (worth?_div_zero h)
  | binary hexact =>
      cases h' with
      | division h => exact absurd hexact (worth?_div_zero h)
      | binary => rfl

theorem FirstFault.not_allFit (h : FirstFault vs error) : ¬ AllFit vs := by
  intro hall
  induction h with
  | here h => exact h.not_fits (hall _ List.mem_cons_self)
  | later _ _ ih => exact ih fun v hv => hall v (List.mem_cons_of_mem _ hv)

theorem FirstFault.unique (h : FirstFault vs error) (h' : FirstFault vs error') :
    error = error' := by
  induction h with
  | here h =>
      cases h' with
      | here h' => exact h.unique h'
      | later hfits _ => exact absurd hfits h.not_fits
  | later hfits _ ih =>
      cases h' with
      | here h' => exact absurd hfits h'.not_fits
      | later _ h' => exact ih h'

theorem FirstFault.exists_faulty (h : FirstFault vs error) : ∃ v ∈ vs, v.2.Faulty v.1 error := by
  induction h with
  | here h => exact ⟨_, List.mem_cons_self, h⟩
  | later _ _ ih =>
      obtain ⟨v, hv, h⟩ := ih
      exact ⟨v, List.mem_cons_of_mem _ hv, h⟩

theorem FirstFault.append_left (h : FirstFault vs error) : FirstFault (vs ++ ws) error := by
  induction h with
  | here h => exact .here h
  | later hfits _ ih => exact .later hfits ih

theorem FirstFault.append_right (hall : AllFit vs) (h : FirstFault ws error) :
    FirstFault (vs ++ ws) error := by
  induction vs with
  | nil => exact h
  | cons v vs ih =>
      obtain ⟨hfits, hall⟩ := List.forall_mem_cons.mp hall
      exact .later hfits (ih hall)

/-! ## What the visits say -/

/-- The evaluation ends as the nodes say: with a result like that if all fit, else with the error of
the first that does not. -/
def Settles {β : Type} (vs : List (Scope × Expr)) (P : β → Prop) : Except EvalError β → Prop
  | .ok b => AllFit vs ∧ P b
  | .error e => FirstFault vs e

namespace Settles

variable {β γ : Type} {P : β → Prop} {Q : γ → Prop} {x : Except EvalError β}
  {f : β → Except EvalError γ}

theorem pure {b : β} (h : P b) : Settles [] P (.ok b) :=
  ⟨fun _ hv => absurd hv List.not_mem_nil, h⟩

theorem bind (hx : Settles vs P x) (hf : ∀ b, P b → Settles ws Q (f b)) :
    Settles (vs ++ ws) Q (x >>= f) := by
  cases x with
  | error e => exact hx.append_left
  | ok b =>
      obtain ⟨hall, hb⟩ := hx
      have hrest := hf b hb
      show Settles (vs ++ ws) Q (f b)
      cases hy : f b with
      | error e =>
          rw [hy] at hrest
          exact .append_right hall hrest
      | ok y =>
          rw [hy] at hrest
          exact ⟨List.forall_mem_append.mpr ⟨hall, hrest.1⟩, hrest.2⟩

/-- The last part of an evaluation that only forms the result. -/
theorem map {h : β → γ} (hx : Settles vs P x) (hP : ∀ b, P b → Q (h b)) :
    Settles vs Q (x >>= fun b => .ok (h b)) := by
  have hbind := hx.bind (f := fun b => .ok (h b)) fun b hb => pure (hP b hb)
  rwa [List.append_nil] at hbind

theorem allFit_iff (h : Settles vs P x) : (∃ b, x = .ok b) ↔ AllFit vs := by
  cases x with
  | ok b => exact ⟨fun _ => h.1, fun _ => ⟨b, rfl⟩⟩
  | error e =>
      constructor
      · rintro ⟨b, hb⟩
        cases hb
      · exact fun hall => absurd hall (FirstFault.not_allFit h)

theorem error_iff (h : Settles vs P x) : x = .error error ↔ FirstFault vs error := by
  cases x with
  | ok b =>
      constructor
      · intro heq
        cases heq
      · exact fun hfault => absurd h.1 hfault.not_allFit
  | error e =>
      constructor
      · rintro ⟨⟩
        exact h
      · intro hfault
        rw [FirstFault.unique h hfault]

end Settles

/-! ## Values -/

theorem inRange_toInt (v : Int64) : InRange v.toInt := by
  have hlow := v.le_toInt
  have hhigh := v.toInt_lt
  constructor
  · exact hlow
  · omega

theorem toInt_of_value? {n : Int} {v : Int64} (h : value? n = some v) : v.toInt = n := by
  unfold value? at h
  split at h
  · next hin =>
      cases h
      obtain ⟨hlow, hhigh⟩ : InRange n := hin
      exact Int64.toInt_ofInt_of_le hlow (by omega)
  · cases h

theorem not_inRange_of_value? {n : Int} (h : value? n = none) : ¬ InRange n := by
  intro hin
  have hsome : value? n = some (Int64.ofInt n) := if_pos hin
  rw [h] at hsome
  cases hsome

/-- Each digit from the left makes ten times as much of those before it. -/
theorem foldl_eq_ofDigits (cs : List Char) :
    cs.foldl (fun n d => 10 * n + (d.toNat - '0'.toNat)) 0 =
      Nat.ofDigits 10 (cs.map fun d => d.toNat - '0'.toNat).reverse := by
  induction cs using List.reverseRecOn with
  | nil => rfl
  | append_singleton cs c ih =>
      rw [List.foldl_append, ih, List.map_append, List.reverse_append]
      show _ = Nat.ofDigits 10 ((c.toNat - '0'.toNat) :: _)
      rw [Nat.ofDigits_cons, Nat.add_comm]
      rfl

/-- Digits alone are no text with a sign. -/
theorem integer?_eq_spelled? {digits : String} (h : IsNumber digits) :
    integer? digits = spelled? digits := by
  have hnatural : natural? digits.toList =
      some (Nat.ofDigits 10 (digits.toList.map fun d => d.toNat - '0'.toNat).reverse) := by
    have hempty : digits.toList.isEmpty = false := List.isEmpty_eq_false_iff.mpr h.1
    have hdigits : digits.toList.all Char.isDigit = true := List.all_eq_true.mpr h.2
    rw [natural?, hempty, hdigits, ← foldl_eq_ofDigits]
    rfl
  unfold integer? spelled?
  rw [if_pos h]
  split
  · next hsign => exact absurd (h.2 '-' (hsign ▸ List.mem_cons_self)) (by decide)
  · next hsign => exact absurd (h.2 '+' (hsign ▸ List.mem_cons_self)) (by decide)
  · rw [hnatural]
    rfl

/-- A node whose operands fit settles by itself: its worth is kept if it is in range. -/
theorem settles_value? {e : Expr} {n : Int} (hexact : e.worth? ρ = some n)
    (hfault : ¬ InRange n → e.Faulty ρ error) :
    Settles [(ρ, e)] (fun v : Int64 => e.worth? ρ = some v.toInt)
      (match value? n with
        | some v => .ok v
        | none => .error error) := by
  cases hv : value? n with
  | some v =>
      have heq := toInt_of_value? hv
      have hfits : e.Fits ρ := ⟨n, hexact, heq ▸ inRange_toInt v⟩
      refine ⟨List.forall_mem_singleton.mpr hfits, ?_⟩
      show e.worth? ρ = some v.toInt
      rw [heq]
      exact hexact
  | none => exact .here (hfault (not_inRange_of_value? hv))

/-! ## Evaluation -/

/-- Names stand for what they are bound to. -/
def InForce (env : Bindings) (ρ : Scope) : Prop :=
  ∀ name, ρ name = (env.lookup name).map Int64.toInt

variable {env : Bindings}

theorem InForce.bind (h : InForce env ρ) (name : String) (v : Int64) :
    InForce ((name, v) :: env) (Function.update ρ name (some v.toInt)) := by
  intro other
  rw [List.lookup_cons]
  by_cases hname : other = name
  · subst hname
    rw [Function.update_self, beq_self_eq_true]
    rfl
  · rw [Function.update_of_ne hname, beq_false_of_ne hname]
    exact h other

theorem settles_apply {op : Operator} {left right : Expr} {a b : Int64}
    (hleft : left.worth? ρ = some a.toInt) (hright : right.worth? ρ = some b.toInt) :
    Settles [(ρ, .binary op left right)]
      (fun v : Int64 => (Expr.binary op left right).worth? ρ = some v.toInt) (op.apply a b) := by
  have hexact : ∀ {n}, op.worth? a.toInt b.toInt = some n →
      (Expr.binary op left right).worth? ρ = some n :=
    fun hop => Expr.worth?_binary.mpr ⟨_, _, hleft, hright, hop⟩
  cases op with
  | add | sub | mul => exact settles_value? (hexact rfl) (.binary (hexact rfl))
  | div =>
      by_cases hzero : b = 0
      · subst hzero
        exact .here (.division hright)
      · have hne : b.toInt ≠ 0 := fun h => hzero (Int64.toInt_inj.mp h)
        have hop : Operator.worth? .div a.toInt b.toInt = some (a.toInt.tdiv b.toInt) := if_neg hne
        have happly : Operator.apply .div a b =
            match value? (a.toInt.tdiv b.toInt) with
            | some v => .ok v
            | none => .error .overflow := if_neg hzero
        rw [happly]
        exact settles_value? (hexact hop) (.binary (hexact hop))

/-- An expression settles as its nodes say. -/
theorem Expr.settles (hρ : InForce env ρ) (e : Expr)
    (hnumeric : ∀ digits ∈ e.numbers, IsNumber digits) :
    Settles (e.nodes.map (ρ, ·)) (fun v : Int64 => e.worth? ρ = some v.toInt)
      (e.evaluate env) := by
  -- the operands settle first, the left one before the right one, and the node itself last
  induction e with
  | number digits =>
      obtain ⟨n, hexact⟩ : ∃ n, (number digits).worth? ρ = some n :=
        ⟨_, if_pos (hnumeric digits List.mem_cons_self)⟩
      have hread : integer? digits = some n :=
        (integer?_eq_spelled? (hnumeric digits List.mem_cons_self)).trans hexact
      rw [evaluate, hread, Option.bind_some]
      exact settles_value? hexact (.number hexact)
  | «variable» name =>
      unfold Expr.evaluate
      cases hlookup : env.lookup name with
      | none =>
          have hnone : ρ name = none := by rw [hρ, hlookup, Option.map_none]
          exact .here (.unbound hnone)
      | some v =>
          have hsome : ρ name = some v.toInt := by rw [hρ, hlookup, Option.map_some]
          exact ⟨List.forall_mem_singleton.mpr ⟨_, hsome, inRange_toInt v⟩, hsome⟩
  | negate operand ih =>
      rw [nodes, List.map_append]
      refine (ih hnumeric).bind fun a ha => ?_
      have hexact : (negate operand).worth? ρ = some (-a.toInt) := by
        rw [worth?, ha, Option.map_some]
      exact settles_value? hexact (.negate hexact)
  | binary op left right ihleft ihright =>
      obtain ⟨hleft, hright⟩ := List.forall_mem_append.mp hnumeric
      rw [nodes, List.map_append, List.map_append]
      refine (ihleft hleft).bind fun a ha => (ihright hright).bind fun b hb => ?_
      exact settles_apply ha hb

theorem settles_args (hρ : InForce env ρ) (args : List Expr)
    (hnumeric : ∀ e ∈ args, ∀ digits ∈ e.numbers, IsNumber digits) :
    Settles (args.flatMap fun e => e.nodes.map (ρ, ·))
      (fun vs : List Int64 => args.map (·.worth? ρ) = vs.map fun v => some v.toInt)
      (args.mapM (·.evaluate env)) := by
  induction args with
  | nil => exact .pure rfl
  | cons e args ih =>
      obtain ⟨he, hargs⟩ := List.forall_mem_cons.mp hnumeric
      rw [List.mapM_cons, List.flatMap_cons]
      refine (e.settles hρ he).bind fun v hv => (ih hargs).map fun vs hvs => ?_
      rw [List.map_cons, List.map_cons, hv, hvs]

/-- Statements settle as the nodes of their expressions say. -/
theorem settles_statements (hρ : InForce env ρ) (statements : List Statement)
    (hnumeric : ∀ s ∈ statements, ∀ e ∈ s.exprs, ∀ digits ∈ e.numbers, IsNumber digits) :
    Settles (visits ρ statements) (fun lines => List.Forall₂ Writes (prints ρ statements) lines)
      (evaluateFrom env statements) := by
  -- what holds of bindings and scope holds behind a binding, too, as the value is what it is worth
  induction statements generalizing env ρ with
  | nil => exact .pure .nil
  | cons s rest ih =>
      obtain ⟨hs, hrest⟩ := List.forall_mem_cons.mp hnumeric
      cases s with
      | bind name value =>
          have hvalue := value.settles hρ (hs value List.mem_cons_self)
          have hvisits : visits ρ (.bind name value :: rest) = value.nodes.map (ρ, ·) ++
              visits (Function.update ρ name (value.worth? ρ)) rest :=
            congrArg (· ++ _) (List.flatMap_singleton _ _)
          rw [hvisits]
          refine hvalue.bind fun v hv => ?_
          have hbehind := ih (hρ.bind name v) hrest
          rw [← hv] at hbehind
          exact hbehind
      | print args =>
          have hargs := settles_args hρ args hs
          refine hargs.bind fun vs hvs => (ih hρ hrest).map fun lines hlines => ?_
          have hline : Writes (ρ, args) (line vs) := by
            refine ⟨vs.map Int64.toInt, ?_, ?_⟩
            · rw [List.map_map]
              exact hvs
            · rw [List.map_map]
              rfl
          exact .cons hline hlines

/-! ## Programs -/

/-- In 64 bits a program comes to what it means over all integers. It has a result just if each
node that is evaluated is worth something in range, and then it has one line for each print
statement, with what its expressions are worth. Else it ends with the error of the first node that
does not fit. The nodes all fit if none is faulty: each number and each result is in range, no
divisor is zero and each name is bound. -/
theorem Program.evaluate_exact (p : Program) (hnumeric : p.Numeric) :
    ((∃ lines, p.evaluate = .ok lines) ↔ AllFit p.visits) ∧
    (∀ lines, p.evaluate = .ok lines → List.Forall₂ Writes p.prints lines) ∧
    (∀ error, p.evaluate = .error error ↔ FirstFault p.visits error) ∧
    (AllFit p.visits ↔ ∀ v ∈ p.visits, ∀ error, ¬ v.2.Faulty v.1 error) := by
  have hsettles : Settles p.visits (fun lines => List.Forall₂ Writes p.prints lines) p.evaluate :=
    settles_statements (fun _ => rfl) p.statements hnumeric
  refine ⟨hsettles.allFit_iff, ?_, fun _ => hsettles.error_iff, ?_⟩
  · intro lines hok
    rw [hok] at hsettles
    exact hsettles.2
  · constructor
    · intro hall v hv error hfault
      exact hfault.not_fits (hall v hv)
    · intro hclean
      rw [← hsettles.allFit_iff]
      cases hresult : p.evaluate with
      | ok lines => exact ⟨lines, rfl⟩
      | error error =>
          obtain ⟨v, hv, hfault⟩ := (hsettles.error_iff.mp hresult).exists_faulty
          exact absurd hfault (hclean v hv error)

/-- A name is bound again by its own value, and is then worth the least integer in range. -/
def brink (last : Expr) : Program where
  statements := [
    .bind "low" (.number "0009223372036854775807"),
    .bind "low" (.binary .sub (.negate (.variable "low")) (.number "1")),
    .print [.variable "low", .binary .div (.number "7") (.negate (.number "2"))],
    .print [last]]

theorem numeric_brink {last : Expr} (h : ∀ digits ∈ last.numbers, digits = "0" ∨ digits = "1") :
    (brink last).Numeric := by
  have hlong : IsNumber "0009223372036854775807" := ⟨by decide, List.all_eq_true.mp (by decide)⟩
  have hzero : IsNumber "0" := ⟨by decide, List.all_eq_true.mp (by decide)⟩
  have hone : IsNumber "1" := ⟨by decide, List.all_eq_true.mp (by decide)⟩
  have htwo : IsNumber "2" := ⟨by decide, List.all_eq_true.mp (by decide)⟩
  have hseven : IsNumber "7" := ⟨by decide, List.all_eq_true.mp (by decide)⟩
  have hlast : ∀ digits ∈ last.numbers, IsNumber digits := by
    intro digits hmem
    rcases h digits hmem with rfl | rfl
    · exact hzero
    · exact hone
  simpa [Program.Numeric, brink, Statement.exprs, Expr.numbers, hlong, hone, htwo, hseven]
    using hlast

/-- One can be added to it. It cannot be divided by its negative, and to divide it by zero is an
error although what comes next is out of range. -/
theorem evaluate_exact_brink :
    let low : Expr := .variable "low"
    let fits := brink (.binary .add low (.number "1"))
    let beyond := brink (.binary .div low (.negate (.number "1")))
    let zero := brink (.binary .sub (.binary .div low (.number "0")) (.negate low))
    (fits.Numeric ∧ beyond.Numeric ∧ zero.Numeric) ∧
    (fits.evaluate = .ok ["-9223372036854775808 -3", "-9223372036854775807"] ∧ AllFit fits.visits ∧
      List.Forall₂ Writes fits.prints ["-9223372036854775808 -3", "-9223372036854775807"]) ∧
    (beyond.evaluate = .error .overflow ∧ FirstFault beyond.visits .overflow) ∧
    (zero.evaluate = .error .divisionByZero ∧ FirstFault zero.visits .divisionByZero) := by
  intro low fits beyond zero
  have hfits : fits.Numeric := numeric_brink (by decide)
  have hbeyond : beyond.Numeric := numeric_brink (by decide)
  have hzero : zero.Numeric := numeric_brink (by decide)
  obtain ⟨hok, hlines, _⟩ := Program.evaluate_exact fits hfits
  obtain ⟨_, _, hbeyondError, _⟩ := Program.evaluate_exact beyond hbeyond
  obtain ⟨_, _, hzeroError, _⟩ := Program.evaluate_exact zero hzero
  have heval : fits.evaluate = .ok ["-9223372036854775808 -3", "-9223372036854775807"] := by
    decide +kernel
  have hover : beyond.evaluate = .error .overflow := by decide +kernel
  have hdivision : zero.evaluate = .error .divisionByZero := by decide +kernel
  exact ⟨⟨hfits, hbeyond, hzero⟩, ⟨heval, hok.mp ⟨_, heval⟩, hlines _ heval⟩,
    ⟨hover, (hbeyondError _).mp hover⟩, ⟨hdivision, (hzeroError _).mp hdivision⟩⟩

end Descent.Calc
