import Descent.Text.Bytes
import Descent.Text.Width
import Descent.Text.Word

/-! # Lines of a source

A source is shown line by line. Each line knows which bytes of the source it covers, its ending
included, so that a byte position can be found as a line, a column of characters and a column of the
display.
-/

namespace Descent.Snippet

open Descent.Text

structure SourceLine where
  text : List Char
  /-- First byte of the line in the source. -/
  start : Nat
  /-- Bytes of the line ending: none, a line feed, or a carriage return before one. -/
  ending : Nat
deriving Repr, DecidableEq

/-- First byte past the line and its ending. -/
def SourceLine.stop (l : SourceLine) : Nat := l.start + byteLength l.text + l.ending

/-- Texts of lines with the bytes of their endings. A final line feed begins no further line. -/
def splitLines : List Char → List (List Char × Nat)
  | [] => []
  | '\n' :: cs => ([], 1) :: splitLines cs
  | '\r' :: '\n' :: cs => ([], 2) :: splitLines cs
  | c :: cs =>
    match splitLines cs with
    | [] => [([c], 0)]
    | (line, ending) :: rest => (c :: line, ending) :: rest

/-- Places lines one behind the other from byte `start` on. -/
def placeLines (start : Nat) : List (List Char × Nat) → List SourceLine
  | [] => []
  | (text, ending) :: rest =>
    ⟨text, start, ending⟩ :: placeLines (start + byteLength text + ending) rest

/-- The lines of a source; an empty source has one empty line. -/
def sourceLines (source : List Char) : List SourceLine :=
  if source.isEmpty then [⟨[], 0, 0⟩] else placeLines 0 (splitLines source)

def textOf (lines : List SourceLine) (line : Nat) : List Char :=
  ((lines[line]?).map (·.text)).getD []

/-- A byte position found among lines; all parts count from zero. -/
structure Place where
  line : Nat
  column : Nat
  display : Nat
deriving Repr, DecidableEq

/-- The characters that end within the first `n` bytes. -/
def within : Nat → List Char → List Char
  | _, [] => []
  | n, c :: cs => if c.utf8Size ≤ n then c :: within (n - c.utf8Size) cs else []

/-- The line that holds a byte position; past the end it is the last one. -/
def lineOf (lines : List SourceLine) (position : Nat) : Nat :=
  (lines.findIdx? fun l => l.start ≤ position && position < l.stop).getD (lines.length - 1)

/-- The place of a byte position in its line. -/
def place (lines : List SourceLine) (position : Nat) : Place :=
  let line := lineOf lines position
  match lines[line]? with
  | none => ⟨line, 0, 0⟩
  | some l =>
    let before := within (position - l.start) l.text
    ⟨line, before.length, displayWidthOf before⟩

end Descent.Snippet
