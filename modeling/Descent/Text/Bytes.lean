/-! # Text measured in bytes

Positions and lengths in a source text count the bytes of its UTF-8 form, while matching works on
characters. This module ties the two together: `byteLength` measures a list of characters, `cut`
splits one at a byte position and refuses a position inside a character or past the end, and a
`Spot` is a place in a text as matching sees it, what is ahead and the one character behind.
-/

namespace Descent.Text

/-- Bytes the characters take in UTF-8. -/
def byteLength : List Char → Nat
  | [] => 0
  | c :: cs => c.utf8Size + byteLength cs

/-- Splits the characters after `n` bytes; `none` inside a character or past the end. -/
def cut : List Char → Nat → Option (List Char × List Char)
  | cs, 0 => some ([], cs)
  | [], _ + 1 => none
  | c :: cs, n =>
    if c.utf8Size ≤ n then (cut cs (n - c.utf8Size)).map fun p => (c :: p.1, p.2) else none

@[simp] theorem byteLength_nil : byteLength [] = 0 := rfl

@[simp] theorem byteLength_cons (c : Char) (cs : List Char) :
    byteLength (c :: cs) = c.utf8Size + byteLength cs := rfl

@[simp] theorem byteLength_append (as bs : List Char) :
    byteLength (as ++ bs) = byteLength as + byteLength bs := by
  induction as with
  | nil => simp
  | cons c as ih => simp [ih, Nat.add_assoc]

/-- A character takes at least one byte. -/
theorem length_le_byteLength (cs : List Char) : cs.length ≤ byteLength cs := by
  induction cs with
  | nil => simp
  | cons c cs ih =>
    have hpos := c.utf8Size_pos
    simp only [List.length_cons, byteLength_cons]
    omega

@[simp] theorem cut_zero (cs : List Char) : cut cs 0 = some ([], cs) := by
  cases cs <;> rfl

/-- Cutting after a whole prefix gives that prefix and the rest. -/
theorem cut_byteLength (as bs : List Char) : cut (as ++ bs) (byteLength as) = some (as, bs) := by
  induction as with
  | nil => simp
  | cons c as ih =>
    have hpos := c.utf8Size_pos
    obtain ⟨n, hn⟩ : ∃ n, c.utf8Size + byteLength as = n + 1 := ⟨_, (Nat.succ_pred (by omega)).symm⟩
    have hsub : n + 1 - c.utf8Size = byteLength as := by omega
    simp only [List.cons_append, byteLength_cons, hn, cut, hsub, ih]
    simp
    omega

/-- The parts of a cut are the whole, and the first has the asked length. -/
theorem eq_append_of_cut {cs as bs : List Char} {n : Nat} (h : cut cs n = some (as, bs)) :
    cs = as ++ bs ∧ byteLength as = n := by
  fun_induction cut cs n generalizing as bs with
  | case1 cs => simp_all
  | case2 => simp at h
  | case3 c cs n hn hle ih =>
    obtain ⟨⟨xs, ys⟩, hxy, heq⟩ := Option.map_eq_some_iff.1 h
    obtain ⟨hcs, hlen⟩ := ih hxy
    simp only [Prod.mk.injEq] at heq
    obtain ⟨rfl, rfl⟩ := heq
    refine ⟨by simp [hcs], ?_⟩
    simp only [byteLength_cons, hlen]
    omega
  | case4 => simp at h

/-- The characters from byte `start` up to byte `stop`; empty when either is no boundary. -/
def slice (cs : List Char) (start stop : Nat) : List Char :=
  match cut cs start with
  | none => []
  | some (_, rest) =>
    match cut rest (stop - start) with
    | none => []
    | some (piece, _) => piece

/-- A place in a text: the character just behind it, if any, and everything ahead. -/
structure Spot where
  behind : Option Char
  ahead : List Char
deriving Repr, DecidableEq

/-- The spot after one more character. -/
def Spot.next (s : Spot) : Spot :=
  match s.ahead with
  | [] => s
  | c :: cs => ⟨some c, cs⟩

/-- The spot after the characters `cs`, which lead up to `rest`. -/
def Spot.past (s : Spot) (cs rest : List Char) : Spot :=
  ⟨cs.getLast?.or s.behind, rest⟩

end Descent.Text
