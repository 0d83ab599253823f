import Descent.Pattern.CharSet
import Descent.Text.Bytes

/-! # Regular expressions

The shape of a pattern once it has been read: flags are resolved into the sets and assertions they
change, and groups have dissolved into the structure they impose.
-/

namespace Descent.Pattern

open Descent.Text

/-- A condition on a place in the text that reads nothing. -/
inductive Assertion where
  | textStart
  | textEnd
  | lineStart
  | lineEnd
  | wordBoundary
  | noWordBoundary
  | wordStart
  | wordEnd
  /-- No word character stands behind. -/
  | wordStartHalf
  /-- No word character stands ahead. -/
  | wordEndHalf
deriving Repr, DecidableEq

namespace Assertion

def holds (a : Assertion) (s : Spot) : Bool :=
  let behind := s.behind.any isWord
  let ahead := s.ahead.head?.any isWord
  match a with
  | textStart => s.behind.isNone
  | textEnd => s.ahead.isEmpty
  | lineStart => s.behind.all (· == '\n')
  | lineEnd => s.ahead.head?.all (· == '\n')
  | wordBoundary => behind != ahead
  | noWordBoundary => behind == ahead
  | wordStart => !behind && ahead
  | wordEnd => behind && !ahead
  | wordStartHalf => !behind
  | wordEndHalf => !ahead

end Assertion

inductive Regex where
  | empty
  | read (set : CharSet)
  | check (a : Assertion)
  | seq (first second : Regex)
  /-- Ordered choice: `first` is preferred. -/
  | choice (first second : Regex)
  /-- At least `least` copies, at most `most` if given, as many as possible if `greedy`. -/
  | repeated (body : Regex) (least : Nat) (most : Option Nat) (greedy : Bool)
deriving Repr, DecidableEq

namespace Regex

/-- Some match of the expression reads nothing. -/
def canBeEmpty : Regex → Bool
  | empty => true
  | read _ => false
  | check _ => true
  | seq a b => a.canBeEmpty && b.canBeEmpty
  | choice a b => a.canBeEmpty || b.canBeEmpty
  | repeated r least _ _ => least == 0 || r.canBeEmpty

/-- The pieces one after the other. -/
def ofPieces : List Regex → Regex
  | [] => empty
  | [r] => r
  | r :: rs => seq r (ofPieces rs)

/-- The branches in order of preference. -/
def ofBranches : List Regex → Regex
  | [] => empty
  | [r] => r
  | r :: rs => choice r (ofBranches rs)

end Regex

end Descent.Pattern
