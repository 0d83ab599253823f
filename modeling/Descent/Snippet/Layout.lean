import Descent.Snippet.Mark
import Descent.Snippet.Row

/-! # Snippets

A report shows a message, where in the source it applies, and the source lines with the range marked
and labelled. Deep indentation is cut short, and dots stand for what is left out.
-/

namespace Descent.Snippet

open Descent.Text

structure Report where
  message : String
  /-- First byte of the marked range. -/
  start : Nat
  /-- First byte past the marked range. -/
  stop : Nat
  path : Option String := none
deriving Repr, DecidableEq

/-! ## Rows -/

/-- The lines of a report, with what every row of it needs to know. -/
structure Layout where
  lines : List SourceLine
  /-- Columns set aside for line numbers. -/
  width : Nat
  /-- Columns left out at the front of every line. -/
  hidden : Nat

namespace Layout

/-- What stands to the left of a row without a line number. -/
def margin (l : Layout) : Row := [(.plain, spaces (l.width + 1)), (.gutter, "|")]

/-- What stands to the left of a source line: its number, to the right, and the separator. -/
def numbered (l : Layout) (line : Nat) : Row :=
  let number := s!"{line + 1}"
  [(.gutter, spaces (l.width - number.length) ++ number),
    (.plain, spaces (l.width + 1 - max l.width number.length)), (.gutter, "|")]

/-- What is left of a line behind the columns left out. A character that lies in them in part is
left out whole. -/
def remaining (l : Layout) (line : Nat) : List Char :=
  dropColumns l.hidden (shown (textOf l.lines line))

/-- The text of a source line behind a space; nothing for an empty one. Where columns are left out,
dots stand for the next three; a wide character of which they cover a half leaves a blank. -/
def code (l : Layout) (line : Nat) : Row :=
  let text := l.remaining line
  if l.hidden ≠ 0 then
    let tail := dropColumns 3 text
    let gap := if tail.isEmpty then 0 else displayWidthOf text - displayWidthOf tail - 3
    [(.plain, " "), dots, (.plain, spaces gap ++ String.ofList tail)]
  else if text.isEmpty then []
  else [(.plain, " " ++ String.ofList text)]

/-- The column at which a column of a line is shown. -/
def shift (l : Layout) (line column : Nat) : Nat :=
  column - (displayWidthOf (textOf l.lines line) - displayWidthOf (l.remaining line))

/-- A source line. -/
def sourceRow (l : Layout) (line : Nat) : Row := l.numbered line ++ l.code line

/-- A source line of a range over several lines, with what the bar's column holds. -/
def barredRow (l : Layout) (line : Nat) (bar : Style × String) : Row :=
  let code := l.code line
  if code.isEmpty && bar.1 = .plain then l.numbered line
  else l.numbered line ++ [(.plain, " "), bar] ++ code

/-- The bar of a range over several lines. -/
def bar : Style × String := (.mark, "|")

/-- Stands for source lines that are left out. -/
def elision (l : Layout) : Row := [dots, (.plain, spaces l.width), bar]

/-- The rows between two shown lines: nothing, the one line between, or the sign that lines are left
out. -/
def between (l : Layout) (line next : Nat) : List Row :=
  if next - line > 2 then [l.elision]
  else if next - line = 2 then [l.barredRow (line + 1) bar]
  else []

/-- The rows that follow a shown line of a range, down to its last line. -/
def further (l : Layout) (line : Nat) : List Nat → List Row
  | [] => []
  | next :: lines => l.between line next ++ l.barredRow next bar :: l.further next lines

def underscores (n : Nat) : String := "".pushn '_' n

/-- The rows for the marked range. The bar of a range begins beside its first line if only blanks
stand before it. -/
def markRows (l : Layout) (label : String) : Mark → List Row
  | .inLine line start stop =>
    [l.sourceRow line,
      l.margin ++ [(.plain, spaces (l.shift line start + 1)), (.mark, "".pushn '^' (stop - start)),
        (.plain, " "), (.mark, label)]]
  | .across first start last stop =>
    let opening :=
      if ((shown (textOf l.lines first)).take start).all isBlank then
        [l.barredRow first (.mark, "/")]
      else
        [l.barredRow first (.plain, " "),
          l.margin ++
            [(.plain, " "), (.mark, " " ++ underscores (l.shift first start + 1) ++ "^")]]
    let reach := l.shift last (stop - 1) + 1
    let closing :=
      l.margin ++ [(.plain, " "), (.mark, "|" ++ underscores reach ++ "^"), (.plain, " "),
        (.mark, label)]
    let shownLines := Mark.innerLines l.lines first last ++ [last]
    opening ++ l.further first shownLines ++ [closing]

end Layout

/-! ## Reports -/

namespace Report

/-- The message after the level; its further lines are indented as far as its first one. -/
def titleRows (r : Report) : List Row :=
  match r.message.splitOn "\n" with
  | [] => []
  | line :: lines =>
    let shownText := fun s : String => String.ofList (shown s.toList)
    [(.mark, "error"), (.title, ": " ++ shownText line)] ::
      lines.map fun line => [(.plain, spaces 7), (.title, shownText line)]

/-- The rows of a report on a source. -/
def rows (r : Report) (source : List Char) : List Row :=
  let lines := sourceLines source
  let shownLines := (splitLines (within r.stop source)).length
  let mark := Mark.ofRange lines r.start r.stop
  let width := (s!"{max shownLines 1}").length
  let l : Layout := { lines, width, hidden := mark.hidden lines }
  let first := place lines r.start
  -- The second byte of a line ending counts as a column.
  let pastLine := (lines[first.line]?).any fun l => l.start + byteLength l.text < r.start
  let column := first.column + 1 + if pastLine then 1 else 0
  let location := r.path.toList.map fun path =>
    [(.plain, spaces l.width), (.gutter, "--> "), (.plain, s!"{path}:{first.line + 1}:{column}")]
  r.titleRows ++ location ++ [l.margin] ++
    l.markRows r.message mark

def render (r : Report) (colored : Bool) (source : List Char) : String :=
  "\n".intercalate ((r.rows source).map (·.render colored))

end Report

end Descent.Snippet
