/-! # Rows of styled text

The output of a snippet is made of rows, and a row of runs of text in one style. Styles show only
where colour is wanted; otherwise the text stands alone.
-/

namespace Descent.Snippet

inductive Style where
  | plain
  /-- The message of a report. -/
  | title
  /-- Line numbers and the lines that set the source off. -/
  | gutter
  /-- The level of a report, the mark and its label. -/
  | mark
deriving Repr, DecidableEq

namespace Style

/-- The control sequences that turn the style on. -/
def code : Style → String
  | plain => ""
  | title => "\x1b[1m"
  | gutter => "\x1b[1m\x1b[94m"
  | mark => "\x1b[1m\x1b[91m"

/-- Text in the style. Plain text needs no control sequences. -/
def paint (style : Style) (text : String) : String :=
  if style = plain then text else style.code ++ text ++ "\x1b[0m"

end Style

/-- Runs of text with their styles, left to right. -/
abbrev Row := List (Style × String)

def spaces (n : Nat) : String := "".pushn ' ' n

/-- Stands for text that is left out. -/
def dots : Style × String := (.gutter, "...")

namespace Row

/-- Neighbouring runs of one style as one run, and no empty runs. -/
def merge : Row → Row
  | [] => []
  | (style, text) :: rest =>
    if text.isEmpty then merge rest
    else
      match merge rest with
      | (style', text') :: more =>
        if style = style' then (style, text ++ text') :: more
        else (style, text) :: (style', text') :: more
      | [] => [(style, text)]

def render (colored : Bool) (row : Row) : String :=
  if colored then String.join (row.merge.map fun run => run.1.paint run.2)
  else String.join (row.map (·.2))

end Row

end Descent.Snippet
