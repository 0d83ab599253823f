import Descent.Text.Word
import Descent.Text.Fold

/-! # Sets of characters

The sets a pattern reads one character from. A set is kept as an expression, so that the sets of a
pattern compare by how they were written, and `CharSet.has` gives its meaning.
-/

namespace Descent.Pattern

open Descent.Text

inductive CharSet where
  | nothing
  /-- From one character to another, both included. -/
  | range (first last : Char)
  | word
  | digit
  | blank
  | union (a b : CharSet)
  | inter (a b : CharSet)
  | compl (a : CharSet)
  /-- Whatever differs from a member in case only. -/
  | anyCase (a : CharSet)
deriving Repr, DecidableEq

namespace CharSet

def has : CharSet → Char → Bool
  | nothing, _ => false
  | range first last, c => first ≤ c && c ≤ last
  | word, c => isWord c
  | digit, c => isDecimal c
  | blank, c => isBlank c
  | union a b, c => a.has c || b.has c
  | inter a b, c => a.has c && b.has c
  | compl a, c => !a.has c
  | anyCase a, c => (sameLetter c).any a.has

def single (c : Char) : CharSet := range c c

def everything : CharSet := compl nothing

def diff (a b : CharSet) : CharSet := inter a (compl b)

/-- Members of exactly one of the two. -/
def symmDiff (a b : CharSet) : CharSet := union (diff a b) (diff b a)

def ofRanges (rs : List (Char × Char)) : CharSet :=
  rs.foldr (fun r s => union (range r.1 r.2) s) nothing

/-- The classes that have a name inside brackets; all of them stay within ASCII. -/
def named? (name : String) : Option CharSet :=
  match name with
  | "alnum" => some (ofRanges [('0', '9'), ('A', 'Z'), ('a', 'z')])
  | "alpha" => some (ofRanges [('A', 'Z'), ('a', 'z')])
  | "ascii" => some (range '\x00' '\x7f')
  | "blank" => some (ofRanges [('\t', '\t'), (' ', ' ')])
  | "cntrl" => some (ofRanges [('\x00', '\x1f'), ('\x7f', '\x7f')])
  | "digit" => some (range '0' '9')
  | "graph" => some (range '!' '~')
  | "lower" => some (range 'a' 'z')
  | "print" => some (range ' ' '~')
  | "punct" => some (ofRanges [('!', '/'), (':', '@'), ('[', '\x60'), ('\x7b', '~')])
  | "space" => some (ofRanges [('\t', '\r'), (' ', ' ')])
  | "upper" => some (range 'A' 'Z')
  | "word" => some (ofRanges [('0', '9'), ('A', 'Z'), ('_', '_'), ('a', 'z')])
  | "xdigit" => some (ofRanges [('0', '9'), ('A', 'F'), ('a', 'f')])
  | _ => none

end CharSet

end Descent.Pattern
