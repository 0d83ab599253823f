import Descent.Terminal.Basic

/-! # Sets of terminals

A set of terminals is kept as the bits of a number. Union and comparison are then single operations,
and the members come out in the order of their identities.
-/

namespace Descent

structure TerminalSet where
  bits : Nat
deriving Repr, DecidableEq

namespace TerminalSet

def empty : TerminalSet := ⟨0⟩

instance : EmptyCollection TerminalSet := ⟨empty⟩

def has (s : TerminalSet) (id : TerminalId) : Bool := s.bits.testBit id.index

def union (s t : TerminalSet) : TerminalSet := ⟨s.bits ||| t.bits⟩

instance : Union TerminalSet := ⟨union⟩

def single (id : TerminalId) : TerminalSet := ⟨1 <<< id.index⟩

def ofList (ids : List TerminalId) : TerminalSet :=
  ids.foldl (fun s id => s ∪ single id) ∅

/-- The members in increasing order. -/
def toList (s : TerminalSet) : List TerminalId :=
  ((List.range (s.bits.log2 + 1)).map TerminalId.mk).filter s.has

@[simp] theorem has_empty (id : TerminalId) : (∅ : TerminalSet).has id = false := by
  simp [has, EmptyCollection.emptyCollection, empty]

@[simp] theorem has_union (s t : TerminalSet) (id : TerminalId) :
    (s ∪ t).has id = (s.has id || t.has id) := by
  simp [has, Union.union, union]

@[simp] theorem has_single (a b : TerminalId) : (single a).has b = decide (a = b) := by
  obtain ⟨a⟩ := a
  obtain ⟨b⟩ := b
  simp only [has, single, Nat.one_shiftLeft, Nat.testBit_two_pow, TerminalId.mk.injEq]

@[simp] theorem mem_toList {s : TerminalSet} {id : TerminalId} :
    id ∈ s.toList ↔ s.has id = true := by
  simp only [toList, List.mem_filter, List.mem_map, List.mem_range, and_iff_right_iff_imp]
  intro h
  refine ⟨id.index, ?_, rfl⟩
  have hle : 2 ^ id.index ≤ s.bits := Nat.ge_two_pow_of_testBit h
  have hne : s.bits ≠ 0 := by
    intro hz
    have := Nat.two_pow_pos id.index
    omega
  exact Nat.lt_succ_of_le ((Nat.le_log2 hne).2 hle)

theorem ext {s t : TerminalSet} (h : ∀ id, s.has id = t.has id) : s = t := by
  obtain ⟨s⟩ := s
  obtain ⟨t⟩ := t
  congr
  exact Nat.eq_of_testBit_eq fun i => h ⟨i⟩

end TerminalSet

end Descent
