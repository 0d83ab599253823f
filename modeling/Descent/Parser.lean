import Descent.Compiled.Build
import Descent.Compiled.Listing
import Descent.Match.Evaluate
import Descent.Match.Resolve
import Descent.Match.Trace
import Descent.Symbol.Piece

/-! # Parsers

A parser is a grammar with a root rule and caps. It compiles its grammar when that is first needed
and keeps the outcome.

A parse evaluates the root at the first symbol. Where the root does not match, or a match leaves
symbols over, one diagnostic is made and symbols are skipped one by one until the root matches
again; what it matches then is recovered.
-/

namespace Descent

/-- Why there is no parse at all. Errors in the input are diagnostics instead. -/
inductive ParseError where
  | grammar (e : GrammarError)
  | fault (f : Fault)
deriving Repr, DecidableEq

def Fault.message : Fault → String
  | fuelExhausted => "execution limit exceeded"
  | recursionLimitExceeded => "recursion limit exceeded"
  | cursor e => e.message
  | unguarded => "rules nested without bound"

def ParseError.message : ParseError → String
  | grammar e => e.message
  | fault f => f.message

/-- What a parse has found. -/
structure Parse (α : Type) where
  /-- The match of the root at the first symbol. -/
  value : Option (Value α) := none
  /-- Matches of the root after skipped symbols. -/
  recovered : List (Value α) := []
  diagnostics : List Diagnostic := []

namespace Parse

variable {α : Type}

def isOk (p : Parse α) : Bool := p.value.isSome && p.diagnostics.isEmpty

def hasLexicalErrors (p : Parse α) : Bool := Diagnostic.anyLexical p.diagnostics

end Parse

/-! ## Reporting -/

namespace CompiledGrammar

/-- What was expected, in words: names with commas between them and `or` before the last. -/
def describeExpected? (g : CompiledGrammar) (expected : List TerminalId) : Option String :=
  match (expected.map g.terminalName).reverse with
  | [] => none
  | [name] => some s!"expected {name}"
  | last :: names => some ("expected " ++ ", ".intercalate names.reverse ++ " or " ++ last)

/-- The diagnostic for a root that does not go on at `position`. It is about the furthest symbol
that a rule could not use, if that is not behind the position. -/
def report (g : CompiledGrammar) (symbols : Array Symbol) (sourceLength position : Nat)
    (furthest : Option Furthest) : Diagnostic :=
  let furthest := (furthest.filter (position ≤ ·.position)).getD ⟨position, []⟩
  let expected := furthest.expected.filter g.isScanned
  let described := g.describeExpected? expected
  match symbols[furthest.position]? with
  | some s =>
    let found := "`" ++ s.text ++ "`"
    let detail := match described with
      | some list => found ++ ", " ++ list
      | none => found
    { kind := .unexpectedSymbol, start := s.start, stop := s.stop,
      message := DiagnosticKind.unexpectedSymbol.message (some detail),
      text := s.text, found := some s.terminal, expected }
  | none =>
    { kind := .unexpectedEnd, start := sourceLength, stop := sourceLength,
      message := DiagnosticKind.unexpectedEnd.message described, expected }

end CompiledGrammar

/-! ## Recovery -/

/-- A parse under way. -/
structure Progress (α : Type) where
  eval : EvalState
  parse : Parse α
  /-- Callbacks that have run. -/
  calls : Array Call := #[]
  /-- The root has not been tried yet. -/
  first : Bool := true
  /-- The next symbol that is skipped begins a run of skipped symbols. -/
  reporting : Bool := true

/-- What a parse leaves behind: its result, the callbacks that ran and what evaluation tried. -/
structure Outcome (α : Type) where
  result : Except ParseError (Parse α)
  calls : List Call := []
  events : List Event := []

namespace Progress

variable {α : Type} (g : Grammar α) (compiled : CompiledGrammar)

/-- Takes a match of the root over: as the value if it is the first, else as recovered. -/
def accept (p : Progress α) (tree : MatchTree) : Progress α :=
  let (value, calls) := tree.resolve g compiled p.eval.cursor.symbols p.calls
  let parse := if p.first then { p.parse with value := some value }
    else { p.parse with recovered := p.parse.recovered ++ [value] }
  { p with eval := { p.eval with cursor := p.eval.cursor.commit }, parse, calls, reporting := true }

/-- Reports the symbol at hand unless it stands in a run that is reported already. -/
def reportOnce (sourceLength : Nat) (furthest : Option Furthest) (p : Progress α) : Progress α :=
  if p.reporting then
    let c := p.eval.cursor
    let d := compiled.report c.symbols sourceLength c.position furthest
    { p with
      parse := { p.parse with diagnostics := p.parse.diagnostics ++ [d] }
      reporting := false }
  else p

/-- Moves past the symbol at hand, for good. -/
def skip (p : Progress α) : Progress α :=
  { p with eval := { p.eval with cursor := p.eval.cursor.advance.2.commit } }

/-- Tries the root once. Answers whether the parse goes on after it. -/
def attempt (limits : Limits) (sourceLength : Nat) (p : Progress α) :
    Except Fault Bool × Progress α :=
  let start := p.eval.cursor.position
  match compiled.evaluate limits compiled.root p.eval with
  | .error fault eval => (.error fault, { p with eval })
  | .ok tree eval =>
    let furthest := eval.furthest
    let p := { p with eval := { eval with furthest := none } }
    let settled := tree.filter fun _ => p.first || eval.cursor.position > start
    let p := match settled with
      | some tree => p.accept g compiled tree
      | none => p
    let p := { p with first := false }
    let atEnd := p.eval.cursor.isAtEnd
    if settled.isSome && atEnd then (.ok false, p)
    else (.ok (!atEnd), (p.reportOnce compiled sourceLength furthest).skip)

/-- Tries the root until the symbols are used up. Every attempt that does not end the parse moves
past a symbol, so one more than their number is fuel enough. -/
def run (limits : Limits) (sourceLength : Nat) : Nat → Progress α → Except Fault Unit × Progress α
  | 0, p => (.ok (), p)
  | fuel + 1, p =>
    match p.attempt g compiled limits sourceLength with
    | (.error fault, p) => (.error fault, p)
    | (.ok false, p) => (.ok (), p)
    | (.ok true, p) => p.run limits sourceLength fuel

end Progress

/-- Parses a text that has been cut into symbols. With errors among its characters no rule is
tried. -/
def CompiledGrammar.parseStream {α : Type} (compiled : CompiledGrammar) (g : Grammar α)
    (limits : Limits) (sourceLength : Nat) (stream : SymbolStream) : Outcome α :=
  if Diagnostic.anyLexical stream.diagnostics then
    { result := .ok { diagnostics := stream.diagnostics } }
  else
    let start : Progress α :=
      { eval := .initial compiled limits stream.symbols
        parse := { diagnostics := stream.diagnostics } }
    let (ended, p) := start.run g compiled limits sourceLength (stream.symbols.size + 1)
    { result := match ended with
        | .ok () => .ok p.parse
        | .error fault => .error (.fault fault)
      calls := p.calls.toList
      events := p.eval.events.reverse }

/-! ## Parsers -/

structure Parser (α : Type) where
  grammar : Grammar α
  root : RuleId
  limits : Limits := {}
  /-- The outcome of compiling, once it has been needed. -/
  memo : Option { r : Except GrammarError CompiledGrammar // r = grammar.compile root } := none

namespace Parser

variable {α : Type}

def isCompiled (p : Parser α) : Bool := p.memo.isSome

/-- The outcome of compiling the grammar: the one that is kept, if there is one. -/
def compiled (p : Parser α) : Except GrammarError CompiledGrammar :=
  match p.memo with
  | some r => r.val
  | none => p.grammar.compile p.root

/-- The parser with the outcome of compiling kept. -/
def force (p : Parser α) : Parser α :=
  match p.memo with
  | some _ => p
  | none => { p with memo := some ⟨p.grammar.compile p.root, rfl⟩ }

@[simp] theorem compiled_eq (p : Parser α) : p.compiled = p.grammar.compile p.root := by
  unfold compiled
  split
  · next r _ => exact r.property
  · rfl

def symbolizeWith (p : Parser α) (compiled : CompiledGrammar) (source : String) : SymbolStream :=
  .ofText p.grammar.terminals compiled.terminals source

def parseWith (p : Parser α) (compiled : CompiledGrammar) (source : String)
    (stream : SymbolStream) : Outcome α :=
  compiled.parseStream p.grammar p.limits (Text.byteLength source.toList) stream

/-- Cuts a text into symbols. -/
def symbolize (p : Parser α) (source : String) : Except ParseError SymbolStream :=
  match p.compiled with
  | .error e => .error (.grammar e)
  | .ok compiled => .ok (p.symbolizeWith compiled source)

/-- Parses a text. -/
def parse (p : Parser α) (source : String) : Outcome α :=
  match p.compiled with
  | .error e => { result := .error (.grammar e) }
  | .ok compiled => p.parseWith compiled source (p.symbolizeWith compiled source)

/-- The listing of the compiled grammar. -/
def listing (p : Parser α) : Except ParseError String :=
  match p.compiled with
  | .error e => .error (.grammar e)
  | .ok compiled => .ok compiled.listing

/-- The parser on one line. -/
def describe (p : Parser α) : String :=
  let cap := fun
    | none => "None"
    | some n => s!"Some({n})"
  s!"Parser \x7b grammar: {p.grammar.describe}, root: {p.root.tag}, " ++
    s!"limits: FuelLimits \x7b exec_fuel: {cap p.limits.fuel}, " ++
    s!"recursion_limit: {cap p.limits.depth} \x7d, compiled: {p.isCompiled} \x7d"

end Parser

end Descent
