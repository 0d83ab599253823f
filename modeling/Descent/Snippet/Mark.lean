import Descent.Snippet.Lines

/-! # Marks

What is drawn for a range of a source, and which of its lines are shown for it. A range within one
line is underlined. A range over several lines is drawn as a bar from the line where it begins to
the line where it ends; of a long range only the first lines and the last ones are shown.
-/

namespace Descent.Snippet

open Descent.Text

/-- What is drawn for a range. Columns are those of the display. -/
inductive Mark where
  | inLine (line start stop : Nat)
  | across (first start last stop : Nat)
deriving Repr, DecidableEq

namespace Mark

/-- An empty range marks one column, and a range past the last character of its last line marks one
column more. -/
def ofRange (lines : List SourceLine) (start stop : Nat) : Mark :=
  let first := place lines start
  let last := place lines stop
  if first.line = last.line then
    .inLine first.line first.display
      (if first.display = last.display then last.display + 1 else last.display)
  else
    let pastLine := (lines[last.line]?).any fun l => l.start + byteLength l.text < stop
    .across first.line first.display last.line (if pastLine then last.display + 1 else last.display)

/-! ## Lines of a mark -/

/-- A line with nothing to show: blank, a comment, or a single bracket. -/
def isBare (text : List Char) : Bool :=
  let trimmed := ((text.dropWhile isBlank).reverse.dropWhile isBlank).reverse
  let comment := ['/', '/'].isPrefixOf trimmed &&
    !(['/', '/', '/'].isPrefixOf trimmed || ['/', '/', '!'].isPrefixOf trimmed)
  let brackets := ['\x7b', '\x7d', '(', ')', '[', ']']
  match trimmed with
  | [] => true
  | [c] => brackets.contains c
  | _ => comment

/-- The lines between the first and the last one of a range that are shown in any case: up to three
after the first, without bare ones at their end, and of a longer range the last but one unless it is
bare. -/
def innerLines (lines : List SourceLine) (first last : Nat) : List Nat :=
  let bare := fun line => isBare (textOf lines line)
  let middle := min (first + 4) last
  let head := ((List.range' first (middle - first)).reverse.dropWhile bare).reverse
  let tail := if middle < last - 1 && !bare (last - 1) then [last - 1] else []
  head.drop 1 ++ tail

/-- The source lines of a mark that are shown in any case. -/
def keyLines (lines : List SourceLine) : Mark → List Nat
  | .inLine line _ _ => [line]
  | .across first _ last _ => first :: innerLines lines first last ++ [last]

/-! ## Indentation -/

/-- The columns before the first character of a line that is not blank; a blank character counts
once and a tab four times. -/
def indentation : List Char → Nat
  | [] => 0
  | c :: cs => if isBlank c then (if c = '\t' then 4 else 1) + indentation cs else 0

/-- The columns of indentation that some texts have in common; blank ones have no say. -/
def commonIndentation (texts : List (List Char)) : Nat :=
  (((texts.filter fun text => !text.all isBlank).map indentation).min?).getD 0

/-- The first column that a mark takes up. The bar of a range stands in the first column of the
lines between its first and its last one. -/
def left (lines : List SourceLine) : Mark → Nat
  | .inLine _ start _ => start
  | .across first start last stop =>
    if (innerLines lines first last).isEmpty then min start (stop - 1) else 0

/-- The columns left out at the front of every line. Blank columns that all lines have before the
mark are useless: of more than twenty-six of them twenty-two stay. -/
def hidden (lines : List SourceLine) (mark : Mark) : Nat :=
  let texts := (mark.keyLines lines).map (textOf lines)
  let blank := min (commonIndentation texts) (mark.left lines)
  if blank > 26 then blank - 22 else 0

end Mark

end Descent.Snippet
