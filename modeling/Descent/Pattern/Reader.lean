import Descent.Pattern.Regex
import Descent.Text.Letter
import Descent.Text.Numeral

/-! # Reading patterns

The written form of a regular expression. `Regex.ofText?` is `none` for a text that is no pattern:
an unclosed group or class, a quantifier with nothing to repeat, an unknown escape, look-around.

Not all that patterns can be written with elsewhere is read here. Refused as well are classes by
Unicode property (`\p{L}`, `\pL` and their negations), blanks and comments that do not count (`x`),
line ends of two characters (`R`), and text read as bytes (`-u`).

The reader works through the text once and keeps the groups that are still open on a stack. Flags
take effect from where they stand to the end of their group, across its branches.
-/

namespace Descent.Pattern

open Descent.Text

/-! ## Flags -/

structure Flags where
  /-- `i`: letters match in either case. -/
  anyCase : Bool := false
  /-- `m`: `^` and `$` also match at line ends. -/
  multiLine : Bool := false
  /-- `s`: the dot also matches a line feed. -/
  dotAll : Bool := false
  /-- `U`: quantifiers are lazy unless marked greedy. -/
  swapGreed : Bool := false
deriving Repr, DecidableEq

/-- Switches one flag; `none` for a letter that is none. -/
def Flags.set? (f : Flags) (on : Bool) : Char → Option Flags
  | 'i' => some { f with anyCase := on }
  | 'm' => some { f with multiLine := on }
  | 's' => some { f with dotAll := on }
  | 'U' => some { f with swapGreed := on }
  | 'u' => if on then some f else none
  | _ => none

/-- Reads flag letters up to `)` or `:`, which is given back with the rest. No letter occurs
twice, and a minus is followed by a letter. -/
def readFlags (flags : Flags) (on : Bool) (seen : List Char) :
    List Char → Option (Flags × Char × List Char)
  | [] => none
  | c :: cs =>
    if c = ')' || c = ':' then
      if seen.head? = some '-' then none else some (flags, c, cs)
    else if seen.contains c then none
    else if c = '-' then readFlags flags false (c :: seen) cs
    else do
      let flags ← flags.set? on c
      readFlags flags on (c :: seen) cs

/-! ## Numbers -/

/-- The largest count a quantifier may name. -/
def countLimit : Nat := 4294967295

/-- A decimal count, blanks around it skipped. -/
def readCount (cs : List Char) : Option (Nat × List Char) :=
  let cs := cs.dropWhile isBlank
  let digits := cs.takeWhile Char.isDigit
  let n := digits.foldl (fun n d => 10 * n + (d.toNat - 48)) 0
  if digits.isEmpty || n > countLimit then none
  else some (n, (cs.dropWhile Char.isDigit).dropWhile isBlank)

def hexValue? (c : Char) : Option Nat :=
  if c.isDigit then some (c.toNat - 48)
  else if 'a' ≤ c && c ≤ 'f' then some (c.toNat - 87)
  else if 'A' ≤ c && c ≤ 'F' then some (c.toNat - 55)
  else none

/-- The character with the code that the hexadecimal digits spell. -/
def charOfHex? (digits : List Char) : Option Char := do
  if digits.isEmpty then none
  let values ← digits.mapM hexValue?
  let code := values.foldl (fun n v => 16 * n + v) 0
  if code.isValidChar then some (Char.ofNat code) else none

/-- The digits after `\x`, `\u` or `\U`: as many as the letter asks for, or any number in braces. -/
def readHex (count : Nat) : List Char → Option (Char × List Char)
  | '\x7b' :: cs =>
    match cs.dropWhile (· ≠ '\x7d') with
    | _ :: rest => (charOfHex? (cs.takeWhile (· ≠ '\x7d'))).map (·, rest)
    | [] => none
  | cs =>
    let digits := cs.take count
    if digits.length = count then (charOfHex? digits).map (·, cs.drop count) else none

/-! ## Escapes -/

/-- What stands for one place of a pattern. -/
inductive Atom where
  | char (c : Char)
  | set (s : CharSet)
  | check (a : Assertion)
deriving Repr, DecidableEq

/-- A word boundary with its kind in braces. `none` inside `some` when the braces hold no name, so
that they may still be a count. -/
def readBoundary (cs : List Char) : Option (Option (Assertion × List Char)) :=
  let nameChar := fun c : Char => c.isAlpha || c == '-'
  match cs.takeWhile nameChar with
  | [] => if cs.isEmpty then none else some none
  | name =>
    match cs.dropWhile nameChar with
    | '\x7d' :: rest =>
      match String.ofList name with
      | "start" => some (some (.wordStart, rest))
      | "end" => some (some (.wordEnd, rest))
      | "start-half" => some (some (.wordStartHalf, rest))
      | "end-half" => some (some (.wordEndHalf, rest))
      | _ => none
    | _ => none

/-- Characters a backslash may stand before without a meaning of its own. -/
def isEscapable (c : Char) : Bool :=
  c.toNat < 0x80 && !c.isAlphanum && c != '<' && c != '>'

/-- The rest of an escape, after its backslash. -/
def readEscape : List Char → Option (Atom × List Char)
  | [] => none
  | c :: cs =>
    match c with
    | 'x' => (readHex 2 cs).map fun r => (.char r.1, r.2)
    | 'u' => (readHex 4 cs).map fun r => (.char r.1, r.2)
    | 'U' => (readHex 8 cs).map fun r => (.char r.1, r.2)
    | 'd' => some (.set .digit, cs)
    | 's' => some (.set .blank, cs)
    | 'w' => some (.set .word, cs)
    | 'D' => some (.set (.compl .digit), cs)
    | 'S' => some (.set (.compl .blank), cs)
    | 'W' => some (.set (.compl .word), cs)
    | 'a' => some (.char '\x07', cs)
    | 'f' => some (.char '\x0c', cs)
    | 't' => some (.char '\t', cs)
    | 'n' => some (.char '\n', cs)
    | 'r' => some (.char '\r', cs)
    | 'v' => some (.char '\x0b', cs)
    | 'A' => some (.check .textStart, cs)
    | 'z' => some (.check .textEnd, cs)
    | '<' => some (.check .wordStart, cs)
    | '>' => some (.check .wordEnd, cs)
    | 'B' => some (.check .noWordBoundary, cs)
    | 'b' =>
      match cs with
      | '\x7b' :: inner => (readBoundary inner).map fun
        | some (a, rest) => (.check a, rest)
        | none => (.check .wordBoundary, cs)
      | _ => some (.check .wordBoundary, cs)
    | c => if isEscapable c then some (.char c, cs) else none

/-! ## Classes in brackets -/

inductive SetOp where
  | inter
  | diff
  | symmDiff
deriving Repr, DecidableEq

def SetOp.apply : SetOp → CharSet → CharSet → CharSet
  | inter => .inter
  | diff => .diff
  | symmDiff => .symmDiff

/-- The union, where what is empty leaves no trace. -/
def joinSets : CharSet → CharSet → CharSet
  | .nothing, s => s
  | s, t => .union s t

/-- Closes a set under change of case if letters match in either case. -/
def folded (anyCase : Bool) (s : CharSet) : CharSet :=
  if anyCase then .anyCase s else s

/-- The operand read last, joined to what stands before its operator. -/
def joined (anyCase : Bool) (left : Option (SetOp × CharSet)) (s : CharSet) : CharSet :=
  match left with
  | none => s
  | some (op, l) => op.apply (folded anyCase l) (folded anyCase s)

/-- A named class such as `[:alpha:]`, after its first bracket. -/
def readNamed (anyCase : Bool) : List Char → Option (CharSet × List Char)
  | ':' :: cs =>
    let (negated, cs) := match cs with
      | '^' :: rest => (true, rest)
      | _ => (false, cs)
    match cs.dropWhile (· ≠ ':') with
    | ':' :: ']' :: rest => do
      let s ← CharSet.named? (String.ofList (cs.takeWhile (· ≠ ':')))
      let s := folded anyCase s
      some (if negated then .compl s else s, rest)
    | _ => none
  | _ => none

/-- One end of a range, or a member on its own. -/
def readMember : List Char → Option (Atom × List Char)
  | [] => none
  | '\\' :: cs => readEscape cs
  | c :: cs => some (.char c, cs)

/-- A member or a range of members. A minus before `]` or another minus makes no range. -/
def readMembers (cs : List Char) : Option (CharSet × List Char) := do
  let (first, rest) ← readMember cs
  let alone : Option (CharSet × List Char) := match first with
    | .char c => some (.single c, rest)
    | .set s => some (s, rest)
    | .check _ => none
  match rest with
  | '-' :: ']' :: _ => alone
  | '-' :: '-' :: _ => alone
  | '-' :: rest =>
    let (last, rest) ← readMember rest
    match first, last with
    | .char a, .char b => if a ≤ b then some (.range a b, rest) else none
    | _, _ => none
  | _ => alone

/-- How a class begins: whether it is negated, and the members that only the first place allows, a
row of minuses or one closing bracket. -/
def readClassStart (cs : List Char) : Bool × CharSet × List Char :=
  let (negated, cs) := match cs with
    | '^' :: rest => (true, rest)
    | _ => (false, cs)
  match cs with
  | '-' :: _ => (negated, .single '-', cs.dropWhile (· = '-'))
  | ']' :: rest => (negated, .single ']', rest)
  | _ => (negated, .nothing, cs)

/-- Reads a class up to its closing bracket. `members` is the operand being read, `left` what its
operator applies to. The fuel is at least the length of the text. -/
def readClass (anyCase negated : Bool) : Nat → Option (SetOp × CharSet) → CharSet → List Char →
    Option (CharSet × List Char)
  | 0, _, _, _ => none
  | fuel + 1, left, members, cs =>
    match cs with
    | [] => none
    | ']' :: rest =>
      let s := folded anyCase (joined anyCase left members)
      some (if negated then .compl s else s, rest)
    | '[' :: rest =>
      match readNamed anyCase rest with
      | some (s, rest) => readClass anyCase negated fuel left (joinSets members s) rest
      | none => do
        let (inner, first, rest) := readClassStart rest
        let (s, rest) ← readClass anyCase inner fuel none first rest
        readClass anyCase negated fuel left (joinSets members s) rest
    | '&' :: '&' :: rest =>
      readClass anyCase negated fuel (some (.inter, joined anyCase left members)) .nothing rest
    | '-' :: '-' :: rest =>
      readClass anyCase negated fuel (some (.diff, joined anyCase left members)) .nothing rest
    | '~' :: '~' :: rest =>
      readClass anyCase negated fuel (some (.symmDiff, joined anyCase left members)) .nothing rest
    | cs => do
      let (s, rest) ← readMembers cs
      readClass anyCase negated fuel left (joinSets members s) rest

/-- A class in brackets, after the opening one. -/
def readBrackets (anyCase : Bool) (cs : List Char) : Option (CharSet × List Char) :=
  let (negated, first, rest) := readClassStart cs
  readClass anyCase negated (cs.length + 1) none first rest

/-! ## Groups and quantifiers -/

/-- What has been read of a group: its finished branches and the pieces of the current one, latest
first. `last` is the piece a quantifier would repeat. -/
structure Group where
  branches : List Regex := []
  pieces : List Regex := []
  last : Option Regex := none
deriving Repr, DecidableEq

namespace Group

def push (g : Group) (r : Regex) : Group :=
  { g with pieces := g.last.toList ++ g.pieces, last := some r }

/-- Ends the run of pieces a quantifier could repeat. -/
def settle (g : Group) : Group :=
  { g with pieces := g.last.toList ++ g.pieces, last := none }

def branch (g : Group) : Regex := .ofPieces (g.last.toList ++ g.pieces).reverse

def nextBranch (g : Group) : Group := { branches := g.branch :: g.branches }

def regex (g : Group) : Regex := .ofBranches (g.branch :: g.branches).reverse

end Group

/-- The state of the reader: the group at hand, the groups around it with the flags to return to,
and the names given to groups so far. -/
structure Reading where
  flags : Flags := {}
  group : Group := {}
  outer : List (Group × Flags) := []
  names : List (List Char) := []
deriving Repr, DecidableEq

namespace Reading

def push (r : Reading) (piece : Regex) : Reading := { r with group := r.group.push piece }

def atom (r : Reading) : Atom → Reading
  | .char c => r.push (.read (folded r.flags.anyCase (.single c)))
  | .set s => r.push (.read s)
  | .check a => r.push (.check a)

/-- Repeats the last piece; a following `?` turns the preference around. -/
def quantify (r : Reading) (least : Nat) (most : Option Nat) (cs : List Char) :
    Option (Reading × List Char) := do
  let piece ← r.group.last
  let (lazy, rest) := match cs with
    | '?' :: rest => (true, rest)
    | _ => (false, cs)
  let greedy := lazy == r.flags.swapGreed
  some ({ r with group := { r.group with last := some (.repeated piece least most greedy) } }, rest)

/-- The count of a quantifier in braces, after the opening one. -/
def quantifyCounted (r : Reading) (cs : List Char) : Option (Reading × List Char) := do
  let (least, cs) ← readCount cs
  match cs with
  | '\x7d' :: rest => r.quantify least (some least) rest
  | ',' :: '\x7d' :: rest => r.quantify least none rest
  | ',' :: rest =>
    let (most, rest) ← readCount rest
    match rest with
    | '\x7d' :: rest => if least ≤ most then r.quantify least (some most) rest else none
    | _ => none
  | _ => none

def opened (r : Reading) (flags : Flags) : Reading :=
  { r with flags, group := {}, outer := (r.group, r.flags) :: r.outer }

/-- A group name up to its closing angle bracket. Names start with a letter or low line and are
given once. -/
def openNamed (r : Reading) (cs : List Char) : Option (Reading × List Char) :=
  let name := cs.takeWhile (· ≠ '>')
  let inner := fun c : Char => isLetter c || isNumeral c || ['_', '.', '[', ']'].contains c
  let starts := name.head?.any fun c => isLetter c || c == '_'
  match cs.dropWhile (· ≠ '>') with
  | _ :: rest =>
    if starts && name.all inner && !r.names.contains name then
      some ({ r.opened r.flags with names := name :: r.names }, rest)
    else none
  | [] => none

/-- The start of a group, after its bracket. -/
def openGroup (r : Reading) : List Char → Option (Reading × List Char)
  | '?' :: '=' :: _ => none
  | '?' :: '!' :: _ => none
  | '?' :: '<' :: '=' :: _ => none
  | '?' :: '<' :: '!' :: _ => none
  | '?' :: 'P' :: '<' :: cs => r.openNamed cs
  | '?' :: '<' :: cs => r.openNamed cs
  | '?' :: ')' :: _ => none
  | '?' :: cs => do
    let (flags, stop, rest) ← readFlags r.flags true [] cs
    if stop = ')' then some ({ r with flags, group := r.group.settle }, rest)
    else some (r.opened flags, rest)
  | cs => some (r.opened r.flags, cs)

def closeGroup (r : Reading) : Option Reading :=
  match r.outer with
  | [] => none
  | (group, flags) :: outer => some { r with flags, group := group.push r.group.regex, outer }

/-- Reads the next construct of the pattern. -/
def step (r : Reading) (c : Char) (cs : List Char) : Option (Reading × List Char) :=
  match c with
  | '(' => r.openGroup cs
  | ')' => r.closeGroup.map (·, cs)
  | '|' => some ({ r with group := r.group.nextBranch }, cs)
  | '[' => (readBrackets r.flags.anyCase cs).map fun p => (r.push (.read p.1), p.2)
  | '?' => r.quantify 0 (some 1) cs
  | '*' => r.quantify 0 none cs
  | '+' => r.quantify 1 none cs
  | '\x7b' => r.quantifyCounted cs
  | '\\' => (readEscape cs).map fun p => (r.atom p.1, p.2)
  | '.' =>
    some (r.push (.read (if r.flags.dotAll then .everything else .compl (.single '\n'))), cs)
  | '^' => some (r.push (.check (if r.flags.multiLine then .lineStart else .textStart)), cs)
  | '$' => some (r.push (.check (if r.flags.multiLine then .lineEnd else .textEnd)), cs)
  | c => some (r.atom (.char c), cs)

/-- Reads to the end, where every group must be closed. Each step uses up a character, so the
length of the text is fuel enough. -/
def finish : Nat → Reading → List Char → Option Regex
  | _, r, [] => if r.outer.isEmpty then some r.group.regex else none
  | 0, _, _ :: _ => none
  | fuel + 1, r, c :: cs => do
    let (r, rest) ← r.step c cs
    finish fuel r rest

end Reading

/-- The expression a pattern text stands for. -/
def Regex.ofText? (text : String) : Option Regex :=
  let cs := text.toList
  Reading.finish cs.length {} cs

end Descent.Pattern
