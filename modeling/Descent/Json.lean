import Descent.Text.Bytes

/-! # JSON

The structured output of the program. Members keep the order in which they are given. The compact
form has no blanks; the pretty form gives every element a line of its own, indented by two spaces
per level.
-/

namespace Descent

inductive Json where
  | null
  | num (n : Nat)
  | str (s : String)
  | arr (items : List Json)
  | obj (members : List (String × Json))
deriving Repr

namespace Json

/-- A character inside a string. -/
def escape (c : Char) : String :=
  if c = '"' then "\\\""
  else if c = '\\' then "\\\\"
  else if c = '\n' then "\\n"
  else if c = '\r' then "\\r"
  else if c = '\t' then "\\t"
  else if c = '\x08' then "\\b"
  else if c = '\x0c' then "\\f"
  else if c.toNat < 0x20 then
    let digits := Nat.toDigits 16 c.toNat
    "\\u" ++ "".pushn '0' (4 - digits.length) ++ String.ofList digits
  else String.ofList [c]

def string (s : String) : String := "\"" ++ String.join (s.toList.map escape) ++ "\""

mutual

def compact : Json → String
  | null => "null"
  | num n => s!"{n}"
  | str s => string s
  | arr items => "[" ++ ",".intercalate (compactItems items) ++ "]"
  | obj members => "\x7b" ++ ",".intercalate (compactMembers members) ++ "\x7d"

def compactItems : List Json → List String
  | [] => []
  | j :: js => j.compact :: compactItems js

def compactMembers : List (String × Json) → List String
  | [] => []
  | (key, j) :: rest => (string key ++ ":" ++ j.compact) :: compactMembers rest

end

/-- Elements between brackets, each on its own line at the given depth. -/
def block (depth : Nat) (first last : String) (elements : List String) : String :=
  if elements.isEmpty then first ++ last
  else
    let line := "\n".pushn ' ' (2 * (depth + 1))
    first ++ line ++ ("," ++ line).intercalate elements ++ "\n".pushn ' ' (2 * depth) ++ last

mutual

/-- The pretty form of a value that stands at the given depth. -/
def prettyAt (depth : Nat) : Json → String
  | null => "null"
  | num n => s!"{n}"
  | str s => string s
  | arr items => block depth "[" "]" (prettyItems (depth + 1) items)
  | obj members => block depth "\x7b" "\x7d" (prettyMembers (depth + 1) members)

def prettyItems (depth : Nat) : List Json → List String
  | [] => []
  | j :: js => j.prettyAt depth :: prettyItems depth js

def prettyMembers (depth : Nat) : List (String × Json) → List String
  | [] => []
  | (key, j) :: rest => (string key ++ ": " ++ j.prettyAt depth) :: prettyMembers depth rest

end

def pretty (j : Json) : String := j.prettyAt 0

end Json

end Descent
