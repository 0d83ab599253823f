import Descent.Proofs.Calc.Rules
import Descent.Proofs.Pattern.Loop
import Descent.Proofs.Symbol.Precedence
import Descent.Proofs.Terminal.Matching

/-!
# The signs of the calculator in a text

In which order the terminals are tried (`terminals_of_compile`) and what each matches at a spot.
-/

namespace Descent.Calc

open Descent.Text Descent.Pattern Sign Phrase

/-! ## Order -/

/-- The signs that always stand in the same text. -/
def literals : List Sign :=
  [printWord, letWord, assign, semicolon, comma, openParen, closeParen, plus, minus, star, slash]

/-- The order in which the terminals are tried. -/
def signOrder : TerminalOrder where
  ignored := [Sign.blanks.id, Sign.comment.id]
  literal := literals.map Sign.id
  scanning := [Sign.number.id, Sign.name.id]

/-- The signs that make symbols, in the order of their numbers. -/
def kept : List Sign :=
  [letWord, printWord, Sign.number, Sign.name, assign, semicolon, comma, openParen, closeParen,
    plus, minus, star, slash]

section

variable {order : List RuleId}

end

/-! ## Characters -/

theorem has_digit (c : Char) : (CharSet.range '0' '9').has c = c.isDigit := by
  simp [CharSet.has, Char.isDigit, Char.le_def, UInt32.le_iff_toNat_le]

theorem has_single (c d : Char) : (CharSet.single c).has d = (d == c) := by
  rw [Bool.eq_iff_iff]
  simp only [CharSet.single, CharSet.has, Bool.and_eq_true, decide_eq_true_eq, beq_iff_eq]
  constructor
  · rintro ⟨hcd, hdc⟩
    exact Char.le_antisymm hdc hcd
  · rintro rfl
    exact ⟨Char.le_refl d, Char.le_refl d⟩

theorem has_nameStart (c : Char) : nameStart.has c = (c.isAlpha || c == '_') := by
  unfold nameStart
  simp only [CharSet.has, has_single]
  simp [Char.isAlpha, Char.isUpper, Char.isLower, Char.le_def, UInt32.le_iff_toNat_le]

theorem has_nameRest (c : Char) : nameRest.has c = isAsciiWord c := by
  unfold nameRest isAsciiWord
  simp only [CharSet.has, has_single]
  simp [Char.isAlphanum, Char.isAlpha, Char.isUpper, Char.isLower, Char.isDigit, Char.le_def,
    UInt32.le_iff_toNat_le]

theorem bounds_of_isAsciiWord {c : Char} (h : isAsciiWord c = true) :
    48 ≤ c.toNat ∧ c.toNat ≤ 122 := by
  simp only [isAsciiWord, Char.isAlphanum, Char.isAlpha, Char.isUpper, Char.isLower, Char.isDigit,
    Bool.or_eq_true, Bool.and_eq_true, decide_eq_true_eq, UInt32.le_iff_toNat_le, beq_iff_eq] at h
  rcases h with ((⟨hlow, hhigh⟩ | ⟨hlow, hhigh⟩) | ⟨hlow, hhigh⟩) | rfl
  · exact ⟨le_trans (by decide) hlow, le_trans hhigh (by decide)⟩
  · exact ⟨le_trans (by decide) hlow, le_trans hhigh (by decide)⟩
  · exact ⟨le_trans (by decide) hlow, le_trans hhigh (by decide)⟩
  · decide

theorem isBlank_of_isAsciiWord {c : Char} (h : isAsciiWord c = true) : isBlank c = false := by
  have hranges : ∀ r ∈ blankRanges, r.2 < 48 ∨ 122 < r.1 := by decide
  obtain ⟨hlow, hhigh⟩ := bounds_of_isAsciiWord h
  rw [← Bool.not_eq_true, isBlank, inRanges_iff]
  rintro ⟨r, hr, hfirst, hlast⟩
  rcases hranges r hr with hbelow | habove
  · omega
  · omega

/-! ## Matches -/

/-- No sign is a set, and nothing is skipped behind one. -/
theorem matchAt_sign (s : Sign) (spot : Spot) : grammar.terminals.matchAt s.id spot =
    (s.terminal.matcher.take? spot).map fun r => ⟨r.1, [], r.2⟩ := by
  have hplain : ∀ ids, s.terminal.matcher ≠ .oneOf ids := by cases s <;> simp [Sign.terminal]
  have hextend : s.terminal.extend = none := by cases s <;> rfl
  unfold TerminalTable.matchAt TerminalTable.matchWithin
  rw [get?_sign]
  generalize s.terminal = t at hplain hextend
  obtain ⟨matcher, name, ignored, extend⟩ := t
  obtain rfl : extend = none := hextend
  cases matcher with
  | oneOf ids => exact absurd rfl (hplain ids)
  | char | literal | scan | pattern =>
      show ((_ : Option (List Char × List Char)).bind _) = _
      dsimp only
      cases Matcher.take? _ spot <;> rfl

/-- The text of a sign that always stands in the same. -/
def Sign.spelling : Sign → String
  | letWord => "let"
  | printWord => "print"
  | assign => "="
  | semicolon => ";"
  | comma => ","
  | openParen => "("
  | closeParen => ")"
  | plus => "+"
  | minus => "-"
  | star => "*"
  | slash => "/"
  | blanks | comment | number | name => ""

section

variable {s : Sign} {behind : Option Char} {c d : Char} {cs text : List Char}

/-- Such a sign is a mark of one character or a keyword. -/
theorem matcher_of_mem_literals (hs : s ∈ literals) :
    (∃ c, s.terminal.matcher = .char c ∧ s.spelling.toList = [c] ∧ isAsciiWord c = false) ∨
      (s.terminal.matcher = .literal s.spelling ∧ (s.spelling = "let" ∨ s.spelling = "print") ∧
        s.spelling.toList ≠ [] ∧ ∀ c ∈ s.spelling.toList, isAsciiWord c = true) := by
  cases s
  case letWord => exact .inr ⟨rfl, .inl rfl, by decide, List.all_eq_true.mp (by decide)⟩
  case printWord => exact .inr ⟨rfl, .inr rfl, by decide, List.all_eq_true.mp (by decide)⟩
  case blanks | comment | number | name => simp [literals] at hs
  all_goals exact .inl ⟨_, rfl, rfl, by decide⟩

/-- The sign matches its text, if no word goes on behind it. -/
theorem matchAt_spelling (hs : s ∈ literals) (hc : isAsciiWord c = false) :
    grammar.terminals.matchAt s.id ⟨behind, s.spelling.toList ++ c :: cs⟩ =
      some ⟨s.spelling.toList, [], c :: cs⟩ := by
  rw [matchAt_sign]
  rcases matcher_of_mem_literals hs with ⟨d, hmatcher, hspelling, _⟩ | ⟨hmatcher, _, hne, _⟩
  · rw [hmatcher, hspelling, List.singleton_append, Matcher.take?_char_cons, if_pos rfl]
    rfl
  · rw [hmatcher, Matcher.take?_literal hne (by simpa using hc)]
    rfl

/-- The sign does not match where another character stands than its text begins with. -/
theorem matchAt_spelling_eq_none (hs : s ∈ literals) (hd : s.spelling.toList.head? ≠ some d) :
    grammar.terminals.matchAt s.id ⟨behind, d :: cs⟩ = none := by
  rw [matchAt_sign]
  rcases matcher_of_mem_literals hs with ⟨c, hmatcher, hspelling, _⟩ | ⟨hmatcher, _, hne, _⟩
  · rw [hspelling] at hd
    rw [hmatcher, Matcher.take?_char_cons, if_neg (fun heq => hd (congrArg some heq.symm))]
    rfl
  · rw [hmatcher, Matcher.take?_literal_eq_none]
    · rfl
    · rintro ⟨rest, hrest⟩
      obtain ⟨c, cs', hcons⟩ := List.exists_cons_of_ne_nil hne
      rw [hcons] at hd hrest
      obtain ⟨rfl, _⟩ := List.cons.inj hrest
      exact hd rfl

theorem matchAt_pattern {p : Pattern} {has : Char → Bool} {b : Bool}
    (hs : s.terminal.matcher = .pattern p)
    (h : p.matchLength ⟨behind, d :: cs⟩ =
      if b then some (byteLength (d :: cs.takeWhile has)) else none) :
    grammar.terminals.matchAt s.id ⟨behind, d :: cs⟩ =
      if b then some ⟨d :: cs.takeWhile has, [], cs.dropWhile has⟩ else none := by
  rw [matchAt_sign, hs, Matcher.take?_pattern h]
  split <;> rfl

theorem matchAt_blanks : grammar.terminals.matchAt Sign.blanks.id ⟨behind, d :: cs⟩ =
    if isBlank d then some ⟨d :: cs.takeWhile isBlank, [], cs.dropWhile isBlank⟩ else none :=
  matchAt_pattern rfl (matchLength_oneOrMore _ .blank behind d cs)

theorem matchAt_number : grammar.terminals.matchAt Sign.number.id ⟨behind, d :: cs⟩ =
    if d.isDigit then some ⟨d :: cs.takeWhile Char.isDigit, [], cs.dropWhile Char.isDigit⟩
    else none := by
  refine matchAt_pattern rfl ?_
  rw [← has_digit, ← funext has_digit]
  exact matchLength_oneOrMore _ _ behind d cs

theorem matchAt_name : grammar.terminals.matchAt Sign.name.id ⟨behind, d :: cs⟩ =
    if d.isAlpha || d == '_' then some ⟨d :: cs.takeWhile isAsciiWord, [], cs.dropWhile isAsciiWord⟩
    else none := by
  refine matchAt_pattern rfl ?_
  rw [← has_nameStart, ← funext has_nameRest]
  exact matchLength_headed _ _ _ behind d cs

/-- Without two strokes there is no comment. -/
theorem matchAt_comment_eq_none (h : d = '/' → ∀ e es, cs = e :: es → e ≠ '/') :
    grammar.terminals.matchAt Sign.comment.id ⟨behind, d :: cs⟩ = none := by
  have hlength : Calc.comment.matchLength ⟨behind, d :: cs⟩ = none := by
    refine matchLength_headed_two_none _ _ _ _ behind d cs ?_
    intro hd e es hcs
    rw [has_single, beq_iff_eq] at hd
    rw [has_single]
    exact beq_eq_false_iff_ne.mpr (h hd e es hcs)
  have htake : Sign.comment.terminal.matcher.take? ⟨behind, d :: cs⟩ = none :=
    Matcher.take?_eq_none hlength
  rw [matchAt_sign, htake]
  rfl

end

end Descent.Calc
