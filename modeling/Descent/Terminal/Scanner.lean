import Descent.Text.Bytes
import Descent.Text.Word

/-! # Scanners

Ready-made measuring functions for scanning terminals and for extensions. Each says how many bytes
of the text ahead belong to it, or that none do.
-/

namespace Descent

open Descent.Text

inductive Scanner where
  /-- White space of any script. -/
  | blanks
  | digits
  /-- A letter or low line and the letters, digits and low lines after it, all ASCII. -/
  | identifier
  | nothing
  | everything
  | fixed (length : Nat)
  /-- Up to the first occurrence of the text, or to the end. -/
  | upTo (text : List Char)
  /-- Up to and with the first occurrence of the text. -/
  | through (text : List Char)
  /-- From one double quote to the next. -/
  | quoted
deriving Repr, DecidableEq

namespace Scanner

/-- The characters before the first occurrence of `text`. -/
def before? (text : List Char) : List Char → Option (List Char)
  | [] => if text.isEmpty then some [] else none
  | c :: cs =>
    if text.isPrefixOf (c :: cs) then some [] else (before? text cs).map (c :: ·)

def measure : Scanner → List Char → Option Nat
  | blanks, cs => some (byteLength (cs.takeWhile isBlank))
  | digits, cs => some (byteLength (cs.takeWhile Char.isDigit))
  | identifier, cs =>
    if cs.head?.any fun c => c.isAlpha || c == '_' then
      some (byteLength (cs.takeWhile isAsciiWord))
    else none
  | nothing, _ => none
  | everything, cs => some (byteLength cs)
  | fixed length, _ => some length
  | upTo text, cs => some (byteLength ((before? text cs).getD cs))
  | through text, cs => (before? text cs).map fun b => byteLength b + byteLength text
  | quoted, cs =>
    match cs with
    | '"' :: rest => (before? ['"'] rest).map fun b => byteLength b + 2
    | _ => none

end Scanner

end Descent
