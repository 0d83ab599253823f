import Descent.Terminal.Basic

/-!
# What matchers take

A matcher takes a part of the text ahead: a character itself, a literal its own text unless it ends
in a word character and another follows, and a pattern as much as it matches.
-/

namespace Descent.Matcher

open Descent.Text

variable {m : Matcher} {spot : Spot} {behind : Option Char} {c d : Char} {cs text rest : List Char}

theorem take?_of_length? (h : m.length? ⟨behind, text ++ rest⟩ = some (byteLength text))
    (hne : text ≠ []) : m.take? ⟨behind, text ++ rest⟩ = some (text, rest) := by
  unfold take?
  rw [h]
  simp [cut_byteLength, hne]

theorem take?_eq_none (h : m.length? spot = none) : m.take? spot = none := by
  unfold take?
  rw [h]
  rfl

/-! ## Characters -/

theorem take?_char_cons :
    (char c).take? ⟨behind, d :: cs⟩ = if d = c then some ([c], cs) else none := by
  by_cases h : d = c
  · subst h
    rw [if_pos rfl]
    have hlength : (char d).length? ⟨behind, [d] ++ cs⟩ = some (byteLength [d]) := by
      simp [length?]
    exact take?_of_length? hlength (List.cons_ne_nil d [])
  · rw [if_neg h]
    exact take?_eq_none (by simp [length?, h])

/-- A literal takes its own text where no word goes on behind it. -/
theorem take?_literal {s : String} (hne : s.toList ≠ [])
    (hrest : rest.head?.any isAsciiWord = false) :
    (literal s).take? ⟨behind, s.toList ++ rest⟩ = some (s.toList, rest) := by
  refine take?_of_length? ?_ hne
  simp [length?, hrest]

theorem take?_literal_eq_none {s : String} (h : ¬ s.toList <+: spot.ahead) :
    (literal s).take? spot = none := by
  refine take?_eq_none ?_
  simp [length?, h]

/-- Behind a literal of word characters stands another: the literal does not match. -/
theorem take?_literal_runsOn {s : String} (hs : ∀ d ∈ s.toList, isAsciiWord d = true)
    (hne : s.toList ≠ []) (hd : isAsciiWord d = true) :
    (literal s).take? ⟨behind, s.toList ++ d :: rest⟩ = none := by
  have hbounded : isBounded s = true := by
    unfold isBounded
    rw [List.getLast?_eq_some_getLast hne]
    exact hs _ (List.getLast_mem hne)
  refine take?_eq_none ?_
  simp [length?, hbounded, hd]

/-- A literal of word characters does not match where another word begins. -/
theorem take?_literal_word {s : String} (hs : ∀ d ∈ s.toList, isAsciiWord d = true)
    (hne : s.toList ≠ []) (htext : ∀ d ∈ text, isAsciiWord d = true) (hother : text ≠ s.toList)
    (hc : isAsciiWord c = false) : (literal s).take? ⟨behind, text ++ c :: rest⟩ = none := by
  by_cases hprefix : s.toList <+: text ++ c :: rest
  · obtain ⟨more, hmore⟩ := hprefix
    rcases List.append_eq_append_iff.mp hmore with ⟨tail, htail, hrest⟩ | ⟨tail, htail, hrest⟩
    · -- the word goes on behind the literal
      cases tail with
      | nil => exact absurd (htail.trans (List.append_nil _)) hother
      | cons d tail =>
          rw [← hmore, hrest]
          exact take?_literal_runsOn hs hne (htext d (by simp [htail]))
    · -- the literal goes on behind the word, where no word character stands
      cases tail with
      | nil => exact absurd (htail.trans (List.append_nil _)).symm hother
      | cons d tail =>
          obtain ⟨rfl, _⟩ := List.cons.inj hrest
          have hword := hs c (by simp [htail])
          rw [hc] at hword
          cases hword
  · exact take?_literal_eq_none hprefix

/-! ## Patterns -/

/-- A pattern that matches one character and all of some kind behind it takes them. -/
theorem take?_pattern {p : Pattern} {has : Char → Bool} {b : Bool}
    (h : p.matchLength ⟨behind, c :: cs⟩ =
      if b then some (byteLength (c :: cs.takeWhile has)) else none) :
    (pattern p).take? ⟨behind, c :: cs⟩ =
      if b then some (c :: cs.takeWhile has, cs.dropWhile has) else none := by
  cases b with
  | false => exact take?_eq_none h
  | true =>
      have hsplit : c :: cs = (c :: cs.takeWhile has) ++ cs.dropWhile has := by
        rw [List.cons_append, List.takeWhile_append_dropWhile]
      rw [hsplit] at h ⊢
      exact take?_of_length? h (List.cons_ne_nil _ _)

end Descent.Matcher
