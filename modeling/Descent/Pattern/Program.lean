import Descent.Pattern.Regex

/-! # Matching by a thread program

A regular expression becomes a program of nodes that read a character, fork in order of preference,
check an assertion or accept. A run keeps, for each place in the text, the list of nodes it may
stand at, most preferred first and each node once. The first accepting node in that list settles the
match against everything less preferred, so the answer is the one a search that always tries the
preferred fork first would give, and the work is linear in the text.
-/

namespace Descent.Pattern

open Descent.Text

inductive Node where
  | read (set : CharSet) (next : Nat)
  | fork (targets : List Nat)
  | check (a : Assertion) (next : Nat)
  | accept
deriving Repr, DecidableEq

structure Program where
  nodes : Array Node
  start : Nat
deriving Repr, DecidableEq

namespace Program

/-! ## Building -/

/-- Appends code that goes on to `next` and says where it begins. -/
abbrev Emit := Nat → Array Node → Nat × Array Node

/-- A fork that prefers `first` when greedy and `second` otherwise. -/
def prefer (greedy : Bool) (first second : Nat) : Node :=
  .fork (if greedy then [first, second] else [second, first])

def Emit.push (node : Node) (nodes : Array Node) : Nat × Array Node :=
  (nodes.size, nodes.push node)

/-- `n` copies one after the other. -/
def Emit.copies (emit : Emit) : Nat → Emit
  | 0, next, nodes => (next, nodes)
  | n + 1, next, nodes =>
    let (start, nodes) := emit next nodes
    Emit.copies emit n start nodes

/-- Up to `n` copies, each of which may end the run of them. -/
def Emit.upTo (emit : Emit) (greedy : Bool) (exit : Nat) : Nat → Emit
  | 0, next, nodes => (next, nodes)
  | n + 1, next, nodes =>
    let (body, nodes) := emit next nodes
    let (start, nodes) := Emit.push (prefer greedy body exit) nodes
    Emit.upTo emit greedy exit n start nodes

/-- One or more copies: the start of the first and the fork after each. -/
def Emit.oneOrMore (emit : Emit) (greedy : Bool) (next : Nat) (nodes : Array Node) :
    Nat × Nat × Array Node :=
  let again := nodes.size
  let (body, nodes) := emit again (nodes.push .accept)
  (body, again, nodes.setIfInBounds again (prefer greedy body next))

def emit : Regex → Emit
  | .empty, next, nodes => (next, nodes)
  | .read set, next, nodes => Emit.push (.read set next) nodes
  | .check a, next, nodes => Emit.push (.check a next) nodes
  | .seq r s, next, nodes =>
    let (middle, nodes) := emit s next nodes
    emit r middle nodes
  | .choice r s, next, nodes =>
    let (second, nodes) := emit s next nodes
    let (first, nodes) := emit r next nodes
    Emit.push (.fork [first, second]) nodes
  | .repeated r least (some most) greedy, next, nodes =>
    let (start, nodes) := Emit.upTo (emit r) greedy next (most - least) next nodes
    Emit.copies (emit r) least start nodes
  | .repeated r 0 none greedy, next, nodes =>
    let (body, again, nodes) := Emit.oneOrMore (emit r) greedy next nodes
    -- A body that can match nothing must not be entered by way of its own exit.
    if r.canBeEmpty then Emit.push (prefer greedy body next) nodes else (again, nodes)
  | .repeated r (least + 1) none greedy, next, nodes =>
    let (body, _, nodes) := Emit.oneOrMore (emit r) greedy next nodes
    Emit.copies (emit r) least body nodes

def ofRegex (r : Regex) : Program :=
  let (start, nodes) := emit r 0 #[.accept]
  ⟨nodes, start⟩

/-! ## Running -/

/-- The nodes met so far at one place, and those that read or accept, latest first. -/
structure Front where
  seen : Array Bool
  threads : List Nat
deriving Repr, DecidableEq

/-- Follows forks and assertions from node `i`. Nesting never exceeds the number of nodes. -/
def follow (p : Program) (spot : Spot) : Nat → Nat → Front → Front
  | 0, _, front => front
  | depth + 1, i, front =>
    if front.seen.getD i true then front
    else
      let front := { front with seen := front.seen.setIfInBounds i true }
      match p.nodes[i]? with
      | none => front
      | some (.fork targets) => targets.foldl (fun f t => follow p spot depth t f) front
      | some (.check a next) => if a.holds spot then follow p spot depth next front else front
      | some _ => { front with threads := i :: front.threads }

/-- The reading and accepting nodes reachable from `pending`, most preferred first. -/
def threads (p : Program) (spot : Spot) (pending : List Nat) : List Nat :=
  let start : Front := ⟨Array.replicate p.nodes.size false, []⟩
  (pending.foldl (fun f i => follow p spot (p.nodes.size + 1) i f) start).threads.reverse

/-- What the threads do with the character ahead: whether one of them accepts, and where those
preferred to it go. -/
def step (p : Program) (ahead : Option Char) : List Nat → Bool × List Nat
  | [] => (false, [])
  | i :: rest =>
    match p.nodes[i]? with
    | some .accept => (true, [])
    | some (.read set next) =>
      let (accepts, pending) := p.step ahead rest
      if ahead.any set.has then (accepts, next :: pending) else (accepts, pending)
    | _ => p.step ahead rest

/-- Runs the program; `length` bytes are read and `best` is the settled length so far. -/
def run (p : Program) (length : Nat) (best : Option Nat) (pending : List Nat)
    (behind : Option Char) : List Char → Option Nat
  | [] =>
    if (p.step none (p.threads ⟨behind, []⟩ pending)).1 then some length else best
  | c :: cs =>
    let (accepts, pending) := p.step (some c) (p.threads ⟨behind, c :: cs⟩ pending)
    let best := if accepts then some length else best
    if pending.isEmpty then best
    else p.run (length + c.utf8Size) best pending (some c) cs

/-- Bytes of the preferred match that begins at the spot. -/
def matchLength (p : Program) (spot : Spot) : Option Nat :=
  p.run 0 none [p.start] spot.behind spot.ahead

end Program

end Descent.Pattern
