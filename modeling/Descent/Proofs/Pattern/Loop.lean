import Descent.Pattern

/-!
# Loops of a thread program

What repeats a set of characters without bound is a loop: a fork that prefers to read one more
character to accepting. A run that has come to a loop takes all the characters of the set that are
ahead (`run_loop`), and a node in front of it that reads takes one (`run_read`).
-/

namespace Descent.Pattern.Program

open Descent.Text

variable {p : Program} {spot : Spot} {front : Front} {set : CharSet} {i next depth : Nat}

/-! ## Following forks -/

theorem follow_fork {targets : List Nat} (hi : p.nodes[i]? = some (.fork targets))
    (hunseen : front.seen[i]? = some false) : p.follow spot (depth + 1) i front =
      targets.foldl (fun f t => p.follow spot depth t f)
        { front with seen := front.seen.setIfInBounds i true } := by
  rw [follow, Array.getD_eq_getD_getElem?, hunseen]
  simp [hi]

theorem follow_read (hi : p.nodes[i]? = some (.read set next))
    (hunseen : front.seen[i]? = some false) : p.follow spot (depth + 1) i front =
      ⟨front.seen.setIfInBounds i true, i :: front.threads⟩ := by
  rw [follow, Array.getD_eq_getD_getElem?, hunseen]
  simp [hi]

theorem follow_accept (hi : p.nodes[i]? = some .accept)
    (hunseen : front.seen[i]? = some false) : p.follow spot (depth + 1) i front =
      ⟨front.seen.setIfInBounds i true, i :: front.threads⟩ := by
  rw [follow, Array.getD_eq_getD_getElem?, hunseen]
  simp [hi]

theorem unseen_replicate {n : Nat} (h : i < n) : (Array.replicate n false)[i]? = some false := by
  simp [h]

theorem threads_read (hi : p.nodes[i]? = some (.read set next)) : p.threads spot [i] = [i] := by
  obtain ⟨hlt, _⟩ := Array.getElem?_eq_some_iff.mp hi
  unfold threads
  dsimp only
  rw [List.foldl_cons, List.foldl_nil, follow_read hi (unseen_replicate hlt)]
  rfl

/-- Node `f` of the program is a fork that reads characters of the set over and over, until it
accepts. -/
structure Loops (p : Program) (set : CharSet) (f body exit : Nat) : Prop where
  fork : p.nodes[f]? = some (.fork [body, exit])
  read : p.nodes[body]? = some (.read set f)
  accept : p.nodes[exit]? = some .accept

variable {f body exit : Nat}

theorem Loops.threads (h : p.Loops set f body exit) : p.threads spot [f] = [body, exit] := by
  obtain ⟨hf, _⟩ := Array.getElem?_eq_some_iff.mp h.fork
  obtain ⟨hbody, _⟩ := Array.getElem?_eq_some_iff.mp h.read
  obtain ⟨hexit, _⟩ := Array.getElem?_eq_some_iff.mp h.accept
  have hfb : f ≠ body := by
    rintro rfl
    cases h.fork.symm.trans h.read
  have hfe : f ≠ exit := by
    rintro rfl
    cases h.fork.symm.trans h.accept
  have hbe : body ≠ exit := by
    rintro rfl
    cases h.read.symm.trans h.accept
  obtain ⟨n, hn⟩ : ∃ n, p.nodes.size = n + 1 := Nat.exists_eq_add_one.mpr (Nat.zero_lt_of_lt hf)
  unfold Program.threads
  dsimp only
  rw [List.foldl_cons, List.foldl_nil, follow_fork h.fork (unseen_replicate hf), hn,
    List.foldl_cons, List.foldl_cons, List.foldl_nil, follow_read h.read, follow_accept h.accept]
  · rfl
  · dsimp only
    rw [Array.getElem?_setIfInBounds_ne hbe, Array.getElem?_setIfInBounds_ne hfe]
    exact unseen_replicate (hn ▸ hexit)
  · dsimp only
    rw [Array.getElem?_setIfInBounds_ne hfb]
    exact unseen_replicate (hn ▸ hbody)

/-! ## Running -/

variable {length : Nat} {best : Option Nat} {behind : Option Char} {c : Char} {cs : List Char}

theorem run_read_nil (hi : p.nodes[i]? = some (.read set next)) :
    p.run length best [i] behind [] = best := by
  unfold run
  rw [threads_read hi, step, hi]
  rfl

/-- A node that reads takes a character of its set and goes on; on any other nothing more is
matched. -/
theorem run_read (hi : p.nodes[i]? = some (.read set next)) :
    p.run length best [i] behind (c :: cs) =
      if set.has c then p.run (length + c.utf8Size) best [next] (some c) cs else best := by
  rw [run, threads_read hi, step, hi]
  by_cases hc : set.has c = true
  · simp [step, hc]
  · simp [step, hc]

/-- A loop takes all the characters of its set that are ahead. -/
theorem run_loop (h : p.Loops set f body exit) :
    p.run length best [f] behind cs = some (length + byteLength (cs.takeWhile set.has)) := by
  induction cs generalizing length best behind with
  | nil =>
      unfold run
      rw [h.threads, step, h.read]
      simp [step, h.accept]
  | cons c cs ih =>
      rw [run, h.threads, step, h.read]
      by_cases hc : set.has c = true
      · simp [step, h.accept, hc, ih, Nat.add_assoc]
      · simp [step, h.accept, hc]

end Descent.Pattern.Program

namespace Descent.Pattern

open Descent.Text Program

/-! ## Expressions that end in a loop -/

section

variable (source : String) (first second set : CharSet) (behind : Option Char) (c : Char)
  (cs : List Char)

/-- One or more characters of a set: as many as there are. -/
theorem matchLength_oneOrMore :
    (ofRegex source (.repeated (.read set) 1 none true)).matchLength ⟨behind, c :: cs⟩ =
      if set.has c then some (byteLength (c :: cs.takeWhile set.has)) else none := by
  have hprogram : Program.ofRegex (.repeated (.read set) 1 none true) =
      ⟨#[.accept, .fork [2, 0], .read set 1], 2⟩ := rfl
  have hloops : Loops ⟨#[.accept, .fork [2, 0], .read set 1], 2⟩ set 1 2 0 := ⟨rfl, rfl, rfl⟩
  unfold matchLength Program.matchLength ofRegex
  dsimp only
  rw [hprogram, run_read hloops.read]
  split
  · rw [run_loop hloops, Nat.zero_add, byteLength_cons]
  · rfl

/-- One character and behind it any number of characters of a set. -/
theorem matchLength_headed :
    (ofRegex source (.ofPieces [.read first, .repeated (.read set) 0 none true])).matchLength
        ⟨behind, c :: cs⟩ =
      if first.has c then some (byteLength (c :: cs.takeWhile set.has)) else none := by
  have hprogram : Program.ofRegex (.ofPieces [.read first, .repeated (.read set) 0 none true]) =
      ⟨#[.accept, .fork [2, 0], .read set 1, .read first 1], 3⟩ := rfl
  have hloops : Loops ⟨#[.accept, .fork [2, 0], .read set 1, .read first 1], 3⟩ set 1 2 0 :=
    ⟨rfl, rfl, rfl⟩
  unfold matchLength Program.matchLength ofRegex
  dsimp only
  rw [hprogram, run_read rfl]
  split
  · rw [run_loop hloops, Nat.zero_add, byteLength_cons]
  · rfl

/-- Where two characters are asked for and are not there, nothing is matched. -/
theorem matchLength_headed_two_none (h : first.has c = true → ∀ d ds, cs = d :: ds →
    second.has d = false) :
    (ofRegex source (.ofPieces [.read first, .read second,
      .repeated (.read set) 0 none true])).matchLength ⟨behind, c :: cs⟩ = none := by
  have hprogram : Program.ofRegex (.ofPieces [.read first, .read second,
      .repeated (.read set) 0 none true]) =
      ⟨#[.accept, .fork [2, 0], .read set 1, .read second 1, .read first 3], 4⟩ := rfl
  unfold matchLength Program.matchLength ofRegex
  dsimp only
  rw [hprogram, run_read rfl]
  split
  · next hfirst =>
      cases cs with
      | nil => exact run_read_nil rfl
      | cons d ds =>
          rw [run_read rfl, h hfirst d ds rfl]
          rfl
  · rfl

end

end Descent.Pattern
