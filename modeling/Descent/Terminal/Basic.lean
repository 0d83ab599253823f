import Descent.Pattern
import Descent.Text.Quoted

/-! # Terminals

A terminal says how one kind of symbol is recognised in the text: by a character, a literal, a
measuring function, a pattern, or as any of some other terminals. Registered terminals are known by
number, counted from 1 in the order of registration.
-/

namespace Descent

open Descent.Text

/-- Identity of a registered terminal: its place in the table. -/
structure TerminalId where
  index : Nat
deriving Repr, DecidableEq

namespace TerminalId

/-- The number a terminal is known by; zero is never one. -/
def number (id : TerminalId) : Nat := id.index + 1

/-- The identity as text shows it where a terminal has no name. -/
def label (id : TerminalId) : String := s!"#{id.number}"

/-- The identity as listings of definitions show it. -/
def tag (id : TerminalId) : String := s!"T{id.number}"

def le (a b : TerminalId) : Bool := a.index ≤ b.index

/-- A list and behind it the members of another that it lacks, each once. -/
def merge (ids more : List TerminalId) : List TerminalId :=
  more.foldl (fun ids id => if ids.contains id then ids else ids ++ [id]) ids

theorem mem_merge {ids more : List TerminalId} {id : TerminalId} :
    id ∈ merge ids more ↔ id ∈ ids ∨ id ∈ more := by
  unfold merge
  induction more generalizing ids with
  | nil => simp
  | cons x more ih =>
      rw [List.foldl_cons, ih, List.mem_cons]
      split
      · next hmem =>
          have hx : x ∈ ids := List.contains_iff_mem.mp hmem
          constructor
          · exact Or.imp_right Or.inr
          · rintro (h | rfl | h)
            · exact Or.inl h
            · exact Or.inl hx
            · exact Or.inr h
      · rw [List.mem_append, List.mem_singleton, or_assoc]

theorem nodup_merge {ids : List TerminalId} (h : ids.Nodup) (more : List TerminalId) :
    (merge ids more).Nodup := by
  unfold merge
  induction more generalizing ids with
  | nil => exact h
  | cons x more ih =>
      rw [List.foldl_cons]
      refine ih ?_
      split
      · exact h
      · next hmem =>
          refine List.nodup_append.mpr ⟨h, by simp, ?_⟩
          rintro a ha b hb rfl
          rw [List.mem_singleton] at hb
          subst hb
          exact hmem (List.contains_iff_mem.mpr ha)

theorem prefix_merge (ids more : List TerminalId) : ids <+: merge ids more := by
  unfold merge
  induction more generalizing ids with
  | nil => exact List.prefix_rfl
  | cons x more ih =>
      rw [List.foldl_cons]
      split
      · exact ih ids
      · exact (List.prefix_append ids [x]).trans (ih _)

end TerminalId

inductive Matcher where
  | char (c : Char)
  | literal (text : String)
  /-- Reads as many bytes as the function answers for the text ahead. -/
  | scan (measure : List Char → Option Nat)
  | pattern (p : Pattern)
  /-- The first of the members that matches. -/
  | oneOf (members : List TerminalId)

namespace Matcher

/-- A literal that ends in a word character must not be followed by another. -/
def isBounded (text : String) : Bool := text.toList.getLast?.any isAsciiWord

/-- Bytes the matcher asks for at the spot. A set asks for none: the table knows its members. -/
def length? (m : Matcher) (spot : Spot) : Option Nat :=
  match m with
  | char c => if spot.ahead.head? = some c then some c.utf8Size else none
  | literal text =>
    let cs := text.toList
    let runsOn := isBounded text && (spot.ahead.drop cs.length).head?.any isAsciiWord
    if cs.isPrefixOf spot.ahead && !runsOn then some (byteLength cs) else none
  | scan measure => measure spot.ahead
  | pattern p => p.matchLength spot
  | oneOf _ => none

/-- The text the matcher takes at the spot, and what remains. An empty match is none, and so is a
length that ends inside a character or past the end. -/
def take? (m : Matcher) (spot : Spot) : Option (List Char × List Char) := do
  let (piece, rest) ← cut spot.ahead (← m.length? spot)
  if piece.isEmpty then none else some (piece, rest)

def members : Matcher → List TerminalId
  | oneOf ids => ids
  | _ => []

def describe : Matcher → String
  | char c => s!"Char({quotedChar c})"
  | literal text =>
    s!"Literal \x7b text: {quoted text}, bounded: {isBounded text} \x7d"
  | scan _ => "Scan"
  | pattern p => s!"Pattern({quoted p.source})"
  | oneOf ids => "OneOf([" ++ ", ".intercalate (ids.map (·.tag)) ++ "])"

end Matcher

/-- The definition of a terminal. -/
structure Terminal where
  matcher : Matcher
  /-- The name that messages, listings and traces use. -/
  name : Option String := none
  /-- Matches are skipped and make no symbol. -/
  ignored : Bool := false
  /-- Bytes to skip after a match, given the text behind it. -/
  extend : Option (List Char → Nat) := none

namespace Terminal

/-- The text skipped after a match, and what remains. An extension that does not end on a character
boundary inside the text skips nothing. -/
def skip (t : Terminal) (rest : List Char) : List Char × List Char :=
  match t.extend with
  | none => ([], rest)
  | some hook => (cut rest (hook rest)).getD ([], rest)

def isEmptyLiteral (t : Terminal) : Bool :=
  match t.matcher with
  | .literal text => text.isEmpty
  | _ => false

/-- The definition on one line. -/
def describe (t : Terminal) : String :=
  let name := match t.name with
    | none => "None"
    | some n => s!"Some({quoted n})"
  s!"Terminal \x7b matcher: {t.matcher.describe}, name: {name}, ignored: {t.ignored}, " ++
    s!"extend: {t.extend.isSome} \x7d"

end Terminal

end Descent
