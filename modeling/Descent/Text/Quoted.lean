import Descent.Text.Hidden

/-! # Quoted text

Text and characters as they are quoted in names, traces and listings. The quote in use and the
backslash are escaped, four controls have a letter of their own, and every character that would not
show is written by its code.
-/

namespace Descent.Text

/-- The code of a character between braces, in hexadecimal. -/
def codeEscape (c : Char) : String :=
  "\\u\x7b" ++ String.ofList (Nat.toDigits 16 c.toNat) ++ "\x7d"

/-- One character inside quotes of the given kind. -/
def escape (quote c : Char) : String :=
  if c = '\x00' then "\\0"
  else if c = '\t' then "\\t"
  else if c = '\r' then "\\r"
  else if c = '\n' then "\\n"
  else if c = '\\' || c = quote then String.ofList ['\\', c]
  else if isHidden c then codeEscape c
  else String.ofList [c]

/-- Text between double quotes. -/
def quoted (s : String) : String :=
  "\"" ++ String.join (s.toList.map (escape '"')) ++ "\""

/-- A character between single quotes. -/
def quotedChar (c : Char) : String :=
  "'" ++ escape '\'' c ++ "'"

end Descent.Text
