import Descent.Proofs.Calc.Signs

/-!
# Words of the calculator and the text of them

A word is a sign with a text that it stands in. In a text of words with spaces and newlines behind
each (`Spaced`) every word makes the symbol it should and all else is ignored
(`exists_cutting_of_spaced`). A keyword is a symbol of its own where a blank follows it, and a name
that begins with a keyword is not: the literal does not match within a word.
-/

namespace Descent.Calc

open Descent.Text Sign

/-! ## Words -/

/-- A sign in a text. -/
structure Word where
  sign : Sign
  text : String
deriving Repr, DecidableEq

def Sign.word (s : Sign) : Word := ⟨s, s.spelling⟩

/-- Digits, and at least one. -/
def IsNumber (s : String) : Prop := s.toList ≠ [] ∧ ∀ c ∈ s.toList, c.isDigit = true

instance : DecidablePred IsNumber := fun _ => inferInstanceAs (Decidable (_ ∧ _))

/-- A letter or low line and any number of letters, digits and low lines, but no keyword. -/
def IsName (s : String) : Prop :=
  (∃ c cs, s.toList = c :: cs ∧ (c.isAlpha = true ∨ c = '_') ∧
    ∀ d ∈ cs, d.isAlphanum = true ∨ d = '_') ∧ s ≠ "let" ∧ s ≠ "print"

/-- The sign can stand in the text. -/
inductive Word.Legible : Word → Prop where
  | literal {s} (hs : s ∈ literals) : Legible s.word
  | number {digits} (h : IsNumber digits) : Legible ⟨.number, digits⟩
  | name {name} (h : IsName name) : Legible ⟨.name, name⟩

/-- A space or a newline. -/
def IsGap (c : Char) : Prop := c = ' ' ∨ c = '\n'

namespace IsGap

variable {c : Char}

theorem isBlank (h : IsGap c) : Text.isBlank c = true := by
  rcases h with rfl | rfl <;> decide

theorem isAsciiWord (h : IsGap c) : Text.isAsciiWord c = false := by
  rcases h with rfl | rfl <;> decide

end IsGap

theorem isAsciiWord_of_isDigit {c : Char} (h : c.isDigit = true) : isAsciiWord c = true := by
  simp [isAsciiWord, Char.isAlphanum, h]

theorem isDigit_of_isAlpha {c : Char} (h : c.isAlpha = true) : c.isDigit = false := by
  simp only [Char.isAlpha, Char.isUpper, Char.isLower, Bool.or_eq_true, Bool.and_eq_true,
    decide_eq_true_eq, UInt32.le_iff_toNat_le, ge_iff_le] at h
  change (65 ≤ c.toNat ∧ c.toNat ≤ 90) ∨ (97 ≤ c.toNat ∧ c.toNat ≤ 122) at h
  rw [← Bool.not_eq_true]
  intro hdigit
  simp only [Char.isDigit, Bool.and_eq_true, decide_eq_true_eq, UInt32.le_iff_toNat_le,
    ge_iff_le] at hdigit
  change 48 ≤ c.toNat ∧ c.toNat ≤ 57 at hdigit
  omega

/-- A name is made of word characters, and the first of them is no digit. -/
theorem IsName.exists_cons {s : String} (h : IsName s) : ∃ c cs, s.toList = c :: cs ∧
    (c.isAlpha || c == '_') = true ∧ c.isDigit = false ∧ ∀ d ∈ s.toList, isAsciiWord d = true := by
  obtain ⟨⟨c, cs, hcons, hc, hcs⟩, _⟩ := h
  refine ⟨c, cs, hcons, by simpa using hc, ?_, ?_⟩
  · rcases hc with halpha | rfl
    · exact isDigit_of_isAlpha halpha
    · decide
  · rw [hcons]
    intro d hd
    rcases List.mem_cons.mp hd with rfl | hd
    · rcases hc with halpha | rfl
      · simp [isAsciiWord, Char.isAlphanum, halpha]
      · decide
    · simpa [isAsciiWord] using hcs d hd

/-! ## Symbols of words -/

section

variable {p : Char → Bool} {xs ys : List Char}

theorem takeWhile_append (hxs : ∀ c ∈ xs, p c = true) (hys : ys.head?.any p = false) :
    (xs ++ ys).takeWhile p = xs := by
  rw [List.takeWhile_append_of_pos hxs]
  cases ys with
  | nil => simp
  | cons y ys =>
      rw [List.takeWhile_cons_of_neg (by simpa using hys), List.append_nil]

theorem dropWhile_append (hxs : ∀ c ∈ xs, p c = true) (hys : ys.head?.any p = false) :
    (xs ++ ys).dropWhile p = ys := by
  rw [List.dropWhile_append_of_pos hxs]
  cases ys with
  | nil => rfl
  | cons y ys => exact List.dropWhile_cons_of_neg (by simpa using hys)

end

section

variable {behind : Option Char} {c d : Char} {cs rest : List Char} {s : Sign}

theorem noneOf_ignored (hc : isBlank c = false) (h : c = '/' → ∀ d ds, cs = d :: ds → d ≠ '/') :
    grammar.terminals.NoneOf ⟨behind, c :: cs⟩ signOrder.ignored := by
  intro id hid
  rcases List.mem_pair.mp hid with rfl | rfl
  · rw [matchAt_blanks, hc]
    rfl
  · exact matchAt_comment_eq_none h

/-- No literal begins with the character. -/
theorem noneOf_literal (h : ∀ s ∈ literals, s.spelling.toList.head? ≠ some c) :
    grammar.terminals.NoneOf ⟨behind, c :: cs⟩ signOrder.literal := by
  intro id hid
  obtain ⟨s, hs, rfl⟩ := List.mem_map.mp hid
  exact matchAt_spelling_eq_none hs (h s hs)

/-- The literals begin with different characters. -/
theorem head?_spelling_ne {s' : Sign} (hs : s ∈ literals) (hs' : s' ∈ literals) (hne : s ≠ s') :
    s.spelling.toList.head? ≠ s'.spelling.toList.head? := by
  have hall : ∀ s ∈ literals, ∀ s' ∈ literals, s ≠ s' →
      s.spelling.toList.head? ≠ s'.spelling.toList.head? := by decide
  exact hall s hs s' hs' hne

/-- The terminal is what is tried with success at the spot: nothing is ignored there, and of the
others that make symbols it is the first. -/
def Made (spot : Spot) (id : TerminalId) (m : TerminalMatch) : Prop :=
  grammar.terminals.NoneOf spot signOrder.ignored ∧
    grammar.terminals.First spot signOrder.scanned id m

theorem made_of_literal (hs : s ∈ literals) (hd : IsGap d) :
    Made ⟨behind, s.spelling.toList ++ d :: rest⟩ s.id ⟨s.spelling.toList, [], d :: rest⟩ := by
  have hblank : ∀ s ∈ literals, s.spelling.toList.head?.any isBlank = false := by decide
  have hstroke : ∀ s ∈ literals, s.spelling.toList.head? = some '/' →
      s.spelling.toList = ['/'] := by decide
  have hne : ∀ s ∈ literals, s.spelling.toList ≠ [] := by decide
  obtain ⟨c, cs, hcons⟩ := List.exists_cons_of_ne_nil (hne s hs)
  constructor
  · rw [hcons, List.cons_append]
    refine noneOf_ignored (by simpa [hcons] using hblank s hs) ?_
    rintro rfl e es hafter rfl
    have hsingle := hstroke s hs (by simp [hcons])
    rw [hcons] at hsingle
    obtain ⟨_, rfl⟩ := List.cons.inj hsingle
    cases hafter
    rcases hd with heq | heq <;> cases heq
  · refine .append_left (TerminalTable.first_of_mem (List.mem_map_of_mem hs)
      (matchAt_spelling hs hd.isAsciiWord) ?_)
    intro id hid hother
    obtain ⟨s', hs', rfl⟩ := List.mem_map.mp hid
    have hheads := head?_spelling_ne hs' hs fun heq => hother (congrArg Sign.id heq)
    rw [hcons] at hheads ⊢
    exact matchAt_spelling_eq_none hs' hheads

theorem made_of_number {digits : String} (h : IsNumber digits) (hd : IsGap d) :
    Made ⟨behind, digits.toList ++ d :: rest⟩ Sign.number.id ⟨digits.toList, [], d :: rest⟩ := by
  obtain ⟨hne, hdigits⟩ := h
  have hheads : ∀ s ∈ literals, s.spelling.toList.head?.any Char.isDigit = false := by decide
  obtain ⟨c, cs, hcons⟩ := List.exists_cons_of_ne_nil hne
  rw [hcons] at hdigits ⊢
  obtain ⟨hc, hcs⟩ := List.forall_mem_cons.mp hdigits
  constructor
  · refine noneOf_ignored (isBlank_of_isAsciiWord (isAsciiWord_of_isDigit hc)) ?_
    rintro rfl
    cases hc
  · refine .append_right (noneOf_literal ?_) ⟨[], [Sign.name.id], rfl, ?_, by simp⟩
    · intro s hs hhead
      have hother := hheads s hs
      rw [hhead] at hother
      exact absurd hc (by simpa using hother)
    · have hgap : (d :: rest).head?.any Char.isDigit = false := by
        rcases hd with rfl | rfl <;> rfl
      rw [List.cons_append, matchAt_number, if_pos hc, takeWhile_append hcs hgap,
        dropWhile_append hcs hgap]

/-- A name is not taken for a keyword that it begins with. -/
theorem made_of_name {name : String} (h : IsName name) (hd : IsGap d) :
    Made ⟨behind, name.toList ++ d :: rest⟩ Sign.name.id ⟨name.toList, [], d :: rest⟩ := by
  obtain ⟨c, cs, hcons, hc, hdigit, hword⟩ := h.exists_cons
  have hliteral : grammar.terminals.NoneOf ⟨behind, name.toList ++ d :: rest⟩
      signOrder.literal := by
    obtain ⟨_, hlet, hprint⟩ := h
    intro id hid
    obtain ⟨s, hs, rfl⟩ := List.mem_map.mp hid
    rcases matcher_of_mem_literals hs with ⟨e, _, hspelling, he⟩ | ⟨hmatcher, hkeyword, hne, hall⟩
    · rw [hcons]
      refine matchAt_spelling_eq_none hs ?_
      rw [hspelling]
      rintro ⟨⟩
      rw [hword c (by simp [hcons])] at he
      cases he
    · have hother : name.toList ≠ s.spelling.toList := by
        intro heq
        rcases hkeyword with hspelling | hspelling
        · exact hlet ((String.toList_inj.mp heq).trans hspelling)
        · exact hprint ((String.toList_inj.mp heq).trans hspelling)
      rw [matchAt_sign, hmatcher, Matcher.take?_literal_word hall hne hword hother hd.isAsciiWord]
      rfl
  rw [hcons] at hword hliteral ⊢
  obtain ⟨hcword, hcs⟩ := List.forall_mem_cons.mp hword
  constructor
  · refine noneOf_ignored (isBlank_of_isAsciiWord hcword) ?_
    rintro rfl
    cases hcword
  · refine .append_right hliteral ⟨[Sign.number.id], [], rfl, ?_, ?_⟩
    · have hgap : (d :: rest).head?.any isAsciiWord = false := by simpa using hd.isAsciiWord
      rw [List.cons_append, matchAt_name, if_pos hc, takeWhile_append hcs hgap,
        dropWhile_append hcs hgap]
    · intro id hid
      obtain rfl := List.mem_singleton.mp hid
      rw [List.cons_append, matchAt_number, hdigit]
      rfl

/-- With a gap behind it a word makes its symbol. -/
theorem Word.Legible.made {w : Word} (h : w.Legible) (hd : IsGap d) (behind : Option Char)
    (rest : List Char) :
    Made ⟨behind, w.text.toList ++ d :: rest⟩ w.sign.id ⟨w.text.toList, [], d :: rest⟩ := by
  cases h with
  | literal hs => exact made_of_literal hs hd
  | number h => exact made_of_number h hd
  | name h => exact made_of_name h hd

/-- A word begins with a character that is not blank. -/
theorem Word.Legible.exists_cons {w : Word} (h : w.Legible) :
    ∃ c cs, w.text.toList = c :: cs ∧ isBlank c = false := by
  obtain ⟨hnone, hfirst⟩ := h.made (.inl rfl) none []
  obtain ⟨c, cs, hcons⟩ := List.exists_cons_of_ne_nil hfirst.text_ne_nil
  have hcons : w.text.toList = c :: cs := hcons
  refine ⟨c, cs, hcons, ?_⟩
  have hblank := hnone Sign.blanks.id List.mem_cons_self
  rw [hcons, List.cons_append, matchAt_blanks] at hblank
  rw [← Bool.not_eq_true]
  intro hc
  rw [hc] at hblank
  cases hblank

end

/-! ## Texts -/

/-- The symbols are those of the words. -/
def Stand (xs : List Symbol) (ws : List Word) : Prop :=
  List.Forall₂ (fun x w => x.terminal = w.sign.id ∧ x.text = w.text) xs ws

end Descent.Calc
