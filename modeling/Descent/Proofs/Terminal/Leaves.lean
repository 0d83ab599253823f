import Descent.Proofs.Grammar.Growth
import Descent.Proofs.Symbol.Cutting

/-!
# Sets of terminals as their leaves

A set stands for the terminals at the ends of its members' members, in the order in which they are
named (`TerminalTable.leaves`): it matches where one of them does, with the text of the first, and
if all are literal its length is the least of theirs. Matching, what is accepted, names and lengths
are each computed in their own way; `TerminalTable.flattens` says that they agree.

In a table of registered terminals members stand before their sets, so everything here is an
induction on the place of the terminal. What is accepted is collected along a list that grows at its
end, whose invariant is that what has had its turn has all its members in the list (`Collects`).
-/

namespace Descent

open Relation Descent.Text

theorem findSome?_flatMap {α β γ : Type} {xs : List α} {f : α → List β} {g : β → Option γ} :
    (xs.flatMap f).findSome? g = xs.findSome? fun x => (f x).findSome? g := by
  induction xs with
  | nil => rfl
  | cons x xs ih =>
      rw [List.flatMap_cons, List.findSome?_append, ih, List.findSome?_cons]
      cases (f x).findSome? g <;> rfl

namespace Matcher

def isSet : Matcher → Bool
  | oneOf _ => true
  | _ => false

/-- The length of the one text that the matcher takes, if there is only one. -/
def textLength? : Matcher → Option Nat
  | char c => some c.utf8Size
  | literal text => some (byteLength text.toList)
  | _ => none

variable {m : Matcher} {spot : Spot} {r : List Char × List Char} {k : Nat}

theorem length?_of_take? (h : m.take? spot = some r) : m.length? spot = some (byteLength r.1) := by
  unfold take? at h
  obtain ⟨n, hn, h⟩ := Option.bind_eq_some_iff.mp h
  obtain ⟨⟨piece, rest⟩, hcut, h⟩ := Option.bind_eq_some_iff.mp h
  dsimp only at h
  split at h
  · cases h
  · cases h
    rw [(eq_append_of_cut hcut).2]
    exact hn

theorem byteLength_take? (hk : m.textLength? = some k) (h : m.take? spot = some r) :
    byteLength r.1 = k := by
  have hlength := length?_of_take? h
  cases m with
  | char c =>
      cases hk
      unfold length? at hlength
      dsimp only at hlength
      split at hlength
      · exact (Option.some.inj hlength).symm
      · cases hlength
  | literal text =>
      cases hk
      unfold length? at hlength
      dsimp only at hlength
      split at hlength
      · exact (Option.some.inj hlength).symm
      · cases hlength
  | scan | pattern | oneOf => cases hk

end Matcher

/-- The text of a match, and all that remains when nothing is skipped. -/
def TerminalMatch.taken (r : TerminalMatch) : List Char × List Char :=
  (r.text, r.skipped ++ r.rest)

/-- The match of a terminal that takes a text, with what its hook says to skip behind. -/
def Terminal.leave (terminal : Terminal) (taken : List Char × List Char) : TerminalMatch :=
  let (skipped, rest) := terminal.skip taken.2
  ⟨taken.1, skipped, rest⟩

namespace TerminalTable

/-! ## Definitions -/

/-- The table comes from the empty one by registering terminals, each of which names registered ones
only. -/
inductive Registered : TerminalTable → Prop where
  | empty : Registered {}
  | push {t terminal} (h : Registered t) (known : t.unknownMember? terminal = none) :
      Registered (t.push terminal)

theorem Registered.layered {t : TerminalTable} (h : t.Registered) : t.Layered := by
  induction h with
  | empty => exact .empty
  | push _ known ih => exact ih.push known

/-- The leaves of a terminal through at most `depth` levels of sets. -/
def leavesWithin (t : TerminalTable) : Nat → TerminalId → List TerminalId
  | 0, _ => []
  | depth + 1, id =>
    match t.get? id with
    | none => []
    | some terminal =>
      match terminal.matcher with
      | .oneOf members => members.flatMap (t.leavesWithin depth)
      | _ => [id]

/-- The leaves of a terminal: of a set those of its members in order, and of others the terminal
itself. -/
def leaves (t : TerminalTable) (id : TerminalId) : List TerminalId :=
  t.leavesWithin (id.index + 1) id

/-- What a terminal takes at the spot, before it skips anything. -/
def take? (t : TerminalTable) (terminal : Terminal) (spot : Spot) :
    Option (List Char × List Char) :=
  match terminal.matcher with
  | .oneOf members => members.findSome? fun m => (t.matchAt m spot).map (·.taken)
  | matcher => matcher.take? spot

/-- Neither the terminal nor a set that it contains is an empty set. -/
def NoneEmpty (t : TerminalTable) (id : TerminalId) : Prop :=
  ∀ s terminal, ReflTransGen t.HasMember id s → t.get? s = some terminal →
    terminal.matcher ≠ .oneOf []

def textLength? (t : TerminalTable) (id : TerminalId) : Option Nat :=
  (t.get? id).bind (·.matcher.textLength?)

variable {t : TerminalTable} {id s m : TerminalId} {terminal : Terminal} {spot : Spot}
  {members : List TerminalId} {depth : Nat} {k : Nat}

/-! ## Members -/

theorem exists_get?_of_contains (h : t.contains id = true) :
    ∃ terminal, t.get? id = some terminal := by
  have hlt : id.index < t.entries.size := of_decide_eq_true h
  exact ⟨t.entries[id.index].terminal, by rw [get?, Array.getElem?_eq_getElem hlt]; rfl⟩

theorem hasMember_iff (hget : t.get? id = some terminal) :
    t.HasMember id m ↔ m ∈ terminal.matcher.members := by
  unfold HasMember
  rw [hget]
  simp

theorem hasMember_iff_of_oneOf (hget : t.get? id = some terminal)
    (hset : terminal.matcher = .oneOf members) : t.HasMember id m ↔ m ∈ members := by
  rw [hasMember_iff hget, hset]
  rfl

theorem not_hasMember (hget : t.get? id = some terminal) (hset : terminal.matcher.isSet = false) :
    ¬ t.HasMember id m := by
  rw [hasMember_iff hget]
  cases hmatcher : terminal.matcher with
  | oneOf => rw [hmatcher] at hset; cases hset
  | char | literal | scan | pattern => exact List.not_mem_nil

theorem Layered.membersOf_eq (h : t.Layered) (hget : t.get? id = some terminal) :
    t.membersOf id = terminal.matcher.members := by
  unfold membersOf
  rw [hget]
  refine List.filter_eq_self.mpr fun m hm => decide_eq_true ?_
  exact h.member_lt id m ((hasMember_iff hget).mpr hm)

theorem Layered.mem_membersOf_iff (h : t.Layered) : m ∈ t.membersOf id ↔ t.HasMember id m := by
  cases hget : t.get? id with
  | none => simp [membersOf, HasMember, hget]
  | some terminal => rw [h.membersOf_eq hget, hasMember_iff hget]

/-! ## The descent ends -/

/-- What is computed level by level from what stands before a terminal is settled as soon as there
are more levels than terminals before it. -/
theorem eq_of_lt {β : Type} {f : Nat → TerminalId → β}
    (hstep : ∀ d d' id, (∀ m : TerminalId, m.index < id.index → f d m = f d' m) →
      f (d + 1) id = f (d' + 1) id) :
    ∀ {d d'} {id : TerminalId}, id.index < d → id.index < d' → f d id = f d' id := by
  intro d
  induction d with
  | zero => exact fun h => absurd h (Nat.not_lt_zero _)
  | succ d ih =>
      intro d' id hd hd'
      cases d' with
      | zero => exact absurd hd' (Nat.not_lt_zero _)
      | succ d' => exact hstep d d' id fun m hm => ih (by omega) (by omega)

theorem matchWithin_of_lt (h : id.index < depth) :
    t.matchWithin spot depth id = t.matchAt id spot := by
  refine eq_of_lt (f := t.matchWithin spot) (fun d d' id hbelow => ?_) h (Nat.lt_succ_self _)
  have hmembers : ∀ m ∈ t.membersOf id,
      (t.matchWithin spot d m).map (fun r => (r.text, r.skipped ++ r.rest)) =
        (t.matchWithin spot d' m).map fun r => (r.text, r.skipped ++ r.rest) := fun m hm => by
    rw [hbelow m (index_lt_of_mem_membersOf hm)]
  unfold matchWithin
  rw [findSome?_congr hmembers]

theorem nameWithin_of_lt (h : id.index < depth) : t.nameWithin depth id = t.displayName id := by
  refine eq_of_lt (f := t.nameWithin) (fun d d' id hbelow => ?_) h (Nat.lt_succ_self _)
  have hmember : ∀ m : TerminalId,
      (if m.index < id.index then t.nameWithin d m else m.label) =
        if m.index < id.index then t.nameWithin d' m else m.label := by
    intro m
    split
    · next hlt => exact hbelow m hlt
    · rfl
  unfold nameWithin
  simp only [hmember]

namespace Layered

theorem leavesWithin_of_lt (ht : t.Layered) (h : id.index < depth) :
    t.leavesWithin depth id = t.leaves id := by
  refine eq_of_lt (f := t.leavesWithin) (fun d d' id hbelow => ?_) h (Nat.lt_succ_self _)
  unfold leavesWithin
  cases hget : t.get? id with
  | none => rfl
  | some terminal =>
      cases hmatcher : terminal.matcher with
      | oneOf members =>
          simp only [hmatcher]
          exact List.flatMap_congr fun m hm =>
            hbelow m (ht.member_lt id m ((hasMember_iff_of_oneOf hget hmatcher).mpr hm))
      | char | literal | scan | pattern => simp only [hmatcher]

theorem leaves_eq (ht : t.Layered) (id : TerminalId) : t.leaves id =
    match t.get? id with
    | none => []
    | some terminal =>
      match terminal.matcher with
      | .oneOf members => members.flatMap t.leaves
      | _ => [id] := by
  unfold leaves leavesWithin
  cases hget : t.get? id with
  | none => rfl
  | some terminal =>
      cases hmatcher : terminal.matcher with
      | oneOf members =>
          simp only [hmatcher]
          refine List.flatMap_congr fun m hm => ht.leavesWithin_of_lt ?_
          exact ht.member_lt id m ((hasMember_iff_of_oneOf hget hmatcher).mpr hm)
      | char | literal | scan | pattern => simp only [hmatcher]

theorem leaves_of_oneOf (ht : t.Layered) (hget : t.get? id = some terminal)
    (hset : terminal.matcher = .oneOf members) : t.leaves id = members.flatMap t.leaves := by
  rw [ht.leaves_eq, hget]
  simp only [hset]

theorem leaves_of_not_isSet (ht : t.Layered) (hget : t.get? id = some terminal)
    (hleaf : terminal.matcher.isSet = false) : t.leaves id = [id] := by
  rw [ht.leaves_eq, hget]
  cases hmatcher : terminal.matcher with
  | oneOf members => rw [hmatcher] at hleaf; cases hleaf
  | char | literal | scan | pattern => simp only [hmatcher]

/-- A set takes the text of the first of its members that matches, and other terminals take their
own. Only the terminal's own hook says what is skipped behind it. -/
theorem matchAt_eq (ht : t.Layered) (spot : Spot) (id : TerminalId) : t.matchAt id spot =
    (t.get? id).bind fun terminal => ((t.take? terminal spot).map terminal.leave) := by
  unfold matchAt matchWithin
  cases hget : t.get? id with
  | none => rfl
  | some terminal =>
      have hmembers : ∀ m ∈ t.membersOf id,
          (t.matchWithin spot id.index m).map (fun r => (r.text, r.skipped ++ r.rest)) =
            (t.matchAt m spot).map (·.taken) := fun m hm => by
        rw [matchWithin_of_lt (index_lt_of_mem_membersOf hm)]
        rfl
      rw [findSome?_congr hmembers, ht.membersOf_eq hget]
      unfold take?
      dsimp only [bind, Option.bind]
      cases hmatcher : terminal.matcher with
      | oneOf members =>
          dsimp only [Matcher.members]
          cases members.findSome? fun m => (t.matchAt m spot).map (·.taken) with
          | none => rfl
          | some taken => rfl
      | char | literal | scan | pattern =>
          dsimp only
          cases Matcher.take? _ spot with
          | none => rfl
          | some taken => rfl

/-- A set without a name is called by the names of its members. -/
theorem displayName_eq (ht : t.Layered) (id : TerminalId) : t.displayName id =
    match t.get? id with
    | none => id.label
    | some terminal =>
      match terminal.name, terminal.matcher with
      | some name, _ => name
      | none, .char c => quotedChar c
      | none, .literal text => quoted text
      | none, .pattern p => "/" ++ p.source ++ "/"
      | none, .scan _ => id.label
      | none, .oneOf members => " | ".intercalate (members.map t.displayName) := by
  rw [show t.displayName id = t.nameWithin (id.index + 1) id from rfl, nameWithin]
  cases hget : t.get? id with
  | none => rfl
  | some terminal =>
      dsimp only
      have hmembers : ∀ m ∈ terminal.matcher.members,
          (if m.index < id.index then t.nameWithin id.index m else m.label) =
            t.displayName m := fun m hm => by
        have hlt := ht.member_lt id m ((hasMember_iff hget).mpr hm)
        rw [if_pos hlt, nameWithin_of_lt hlt]
      cases hmatcher : terminal.matcher with
      | oneOf members =>
          rw [hmatcher] at hmembers
          cases terminal.name with
          | some name => rfl
          | none => exact congrArg (" | ".intercalate ·) (List.map_congr_left hmembers)
      | char | literal | scan | pattern => cases terminal.name <;> rfl

end Layered

/-! ## What is accepted -/

/-- What holds of the terminals found when those before place `n` have had their turn: all are `id`
or contained in it, and what has had its turn has its members among them. -/
structure Collects (t : TerminalTable) (id : TerminalId) (n : Nat) (found : List TerminalId) :
    Prop where
  nodup : found.Nodup
  self : id ∈ found
  sound : ∀ x ∈ found, ReflTransGen t.HasMember id x
  closed : ∀ s ∈ found.take n, ∀ m ∈ t.membersOf s, m ∈ found

theorem Collects.single (t : TerminalTable) (id : TerminalId) : t.Collects id 0 [id] := by
  refine ⟨List.nodup_singleton id, List.mem_singleton_self id, fun x hx => ?_, fun s hs => ?_⟩
  · rw [List.mem_singleton.mp hx]
  · cases hs

/-- The next one in the list brings its members, behind all that were found before. -/
theorem Collects.step {n : Nat} {found : List TerminalId} (ht : t.Layered)
    (h : t.Collects id n found) (hs : found[n]? = some s) :
    t.Collects id (n + 1) (TerminalId.merge found (t.membersOf s)) := by
  obtain ⟨hn, rfl⟩ := List.getElem?_eq_some_iff.mp hs
  refine ⟨TerminalId.nodup_merge h.nodup _, TerminalId.mem_merge.mpr (.inl h.self),
    fun x hx => ?_, fun s' hs' m hm => ?_⟩
  · rcases TerminalId.mem_merge.mp hx with hx | hx
    · exact h.sound x hx
    · exact (h.sound _ (List.getElem_mem hn)).tail (ht.mem_membersOf_iff.mp hx)
  · obtain ⟨new, hnew⟩ := TerminalId.prefix_merge found (t.membersOf found[n])
    rw [← hnew, List.take_append_of_le_length hn, List.take_succ_eq_append_getElem hn,
      List.mem_append, List.mem_singleton] at hs'
    rw [TerminalId.mem_merge]
    rcases hs' with hs' | rfl
    · exact .inl (h.closed s' hs' m hm)
    · exact .inr hm

/-- When no more of the list is left, all of it has had its turn. -/
theorem Collects.all {n : Nat} {found : List TerminalId} (h : t.Collects id n found)
    (hle : found.length ≤ n) : t.Collects id found.length found := by
  refine ⟨h.nodup, h.self, h.sound, fun s hs => h.closed s ?_⟩
  rw [List.take_of_length_le hle]
  exact List.mem_of_mem_take hs

namespace Layered

theorem index_le_of_reflTransGen (ht : t.Layered) (h : ReflTransGen t.HasMember id m) :
    m.index ≤ id.index := by
  induction h with
  | refl => exact Nat.le_refl _
  | tail _ hm ih => exact (Nat.le_of_lt (ht.member_lt _ _ hm)).trans ih

/-- There are no more terminals to find than places up to that of `id`. -/
theorem length_le_of_collects (ht : t.Layered) {n : Nat} {found : List TerminalId}
    (h : t.Collects id n found) : found.length ≤ id.index + 1 := by
  have hplaces : (found.map (·.index)).Nodup :=
    h.nodup.map fun _ _ hplace => congrArg TerminalId.mk hplace
  have hle : found.map (·.index) ⊆ List.range (id.index + 1) := by
    intro i hi
    obtain ⟨x, hx, rfl⟩ := List.mem_map.mp hi
    exact List.mem_range.mpr (Nat.lt_succ_of_le (ht.index_le_of_reflTransGen (h.sound x hx)))
  have hlength := (List.subperm_of_subset hplaces hle).length_le
  rwa [List.length_map, List.length_range] at hlength

theorem collects_collect (ht : t.Layered) {turns n : Nat} {found : List TerminalId}
    (h : t.Collects id n found) (hturns : turns + n = id.index + 1) :
    t.Collects id (t.collect turns n found).length (t.collect turns n found) := by
  induction turns generalizing n found with
  | zero =>
      have hlength := ht.length_le_of_collects h
      exact h.all (by omega)
  | succ turns ih =>
      unfold collect
      split
      · next hnone => exact h.all (List.getElem?_eq_none_iff.mp hnone)
      · next s hs => exact ih (h.step ht hs) (by omega)

theorem collects_accepted (ht : t.Layered) (id : TerminalId) :
    t.Collects id (t.accepted id).length (t.accepted id) :=
  ht.collects_collect (.single t id) rfl

theorem nodup_accepted (ht : t.Layered) (id : TerminalId) : (t.accepted id).Nodup :=
  (ht.collects_accepted id).nodup

/-- Accepted are the terminal and all that it contains. -/
theorem mem_accepted_iff (ht : t.Layered) :
    m ∈ t.accepted id ↔ ReflTransGen t.HasMember id m := by
  have hall := ht.collects_accepted id
  refine ⟨hall.sound m, fun h => ?_⟩
  induction h with
  | refl => exact hall.self
  | @tail s m _ hm ih =>
      have hs : s ∈ (t.accepted id).take (t.accepted id).length := by
        rw [List.take_length]
        exact ih
      exact hall.closed s hs m (ht.mem_membersOf_iff.mpr hm)

/-! ## Matching -/

/-- What holds of a terminal as soon as it holds of its members holds of all. -/
theorem induction (ht : t.Layered) {P : TerminalId → Prop}
    (step : ∀ id, (∀ m, t.HasMember id m → P m) → P id) (id : TerminalId) : P id := by
  have hall : ∀ n (id : TerminalId), id.index < n → P id := by
    intro n
    induction n with
    | zero => exact fun _ h => absurd h (Nat.not_lt_zero _)
    | succ n ih =>
        intro id hid
        refine step id fun m hm => ih m ?_
        have hlt := ht.member_lt id m hm
        omega
  exact hall _ id (Nat.lt_succ_self _)

/-- A terminal is not registered, or one of its own, or a set of terminals. -/
theorem cases_leaves (ht : t.Layered) (id : TerminalId) :
    t.get? id = none ∧ t.leaves id = [] ∨
    (∃ terminal, t.get? id = some terminal ∧ terminal.matcher.isSet = false ∧
      t.leaves id = [id]) ∨
    ∃ terminal members, t.get? id = some terminal ∧ terminal.matcher = .oneOf members ∧
      t.leaves id = members.flatMap t.leaves := by
  cases hget : t.get? id with
  | none =>
      refine .inl ⟨rfl, ?_⟩
      rw [ht.leaves_eq, hget]
  | some terminal =>
      cases hset : terminal.matcher.isSet with
      | false => exact .inr (.inl ⟨terminal, rfl, hset, ht.leaves_of_not_isSet hget hset⟩)
      | true =>
          cases hmatcher : terminal.matcher with
          | oneOf members =>
              exact .inr (.inr ⟨terminal, members, rfl, hmatcher, ht.leaves_of_oneOf hget hmatcher⟩)
          | char | literal | scan | pattern => rw [hmatcher] at hset; cases hset

/-- The leaves of a terminal are what it contains that is no set. -/
theorem mem_leaves_iff (ht : t.Layered) : m ∈ t.leaves id ↔ ReflTransGen t.HasMember id m ∧
    ∃ terminal, t.get? m = some terminal ∧ terminal.matcher.isSet = false := by
  induction id using ht.induction with
  | step id ih =>
      rw [ReflTransGen.cases_head_iff]
      rcases ht.cases_leaves id with ⟨hget, hnone⟩ | ⟨terminal, hget, hset, hself⟩ |
        ⟨terminal, members, hget, hset, hmembers⟩
      · rw [hnone]
        refine iff_of_false List.not_mem_nil ?_
        rintro ⟨rfl | ⟨x, ⟨_, hsome, _⟩, _⟩, _, hm, _⟩
        · cases hget.symm.trans hm
        · cases hget.symm.trans hsome
      · rw [hself, List.mem_singleton]
        constructor
        · rintro rfl
          exact ⟨.inl rfl, terminal, hget, hset⟩
        · rintro ⟨rfl | ⟨x, hmember, _⟩, _⟩
          · rfl
          · exact absurd hmember (not_hasMember hget hset)
      · rw [hmembers, List.mem_flatMap]
        constructor
        · rintro ⟨x, hx, hm⟩
          have hmember := (hasMember_iff_of_oneOf hget hset).mpr hx
          obtain ⟨hpath, hleaf⟩ := (ih x hmember).mp hm
          exact ⟨.inr ⟨x, hmember, hpath⟩, hleaf⟩
        · rintro ⟨rfl | ⟨x, hmember, hpath⟩, leaf, hm, hleaf⟩
          · cases hget.symm.trans hm
            rw [hset] at hleaf
            cases hleaf
          · refine ⟨x, (hasMember_iff_of_oneOf hget hset).mp hmember, ?_⟩
            exact (ih x hmember).mpr ⟨hpath, leaf, hm, hleaf⟩

end Layered

theorem taken_leave (terminal : Terminal) (taken : List Char × List Char) :
    (terminal.leave taken).taken = taken :=
  Prod.ext rfl Terminal.skip_append

namespace Layered

/-- A terminal takes what the first of its leaves takes. -/
theorem taken_matchAt (ht : t.Layered) (spot : Spot) (id : TerminalId) :
    (t.matchAt id spot).map (·.taken) =
      (t.leaves id).findSome? fun l => (t.matchAt l spot).map (·.taken) := by
  induction id using ht.induction with
  | step id ih =>
      rcases ht.cases_leaves id with ⟨hget, hnone⟩ | ⟨terminal, hget, hset, hself⟩ |
        ⟨terminal, members, hget, hset, hmembers⟩
      · rw [ht.matchAt_eq, hget, hnone]
        rfl
      · rw [hself, List.findSome?_singleton]
      · have htake : t.take? terminal spot =
            members.findSome? fun m => (t.matchAt m spot).map (·.taken) := by
          unfold take?
          rw [hset]
        rw [ht.matchAt_eq, hget, hmembers, findSome?_flatMap]
        show ((t.take? terminal spot).map terminal.leave).map (·.taken) = _
        rw [Option.map_map, show TerminalMatch.taken ∘ terminal.leave = fun p => p from
          funext (taken_leave terminal), Option.map_id', htake]
        exact findSome?_congr fun m hm => ih m ((hasMember_iff_of_oneOf hget hset).mpr hm)

/-- A terminal matches with the text of the first of its leaves that does. What the leaf skips
behind it remains, and the terminal's own hook says what is skipped. -/
theorem matchAt_iff (ht : t.Layered) {r : TerminalMatch} : t.matchAt id spot = some r ↔
    ∃ terminal leaf r', t.get? id = some terminal ∧ t.First spot (t.leaves id) leaf r' ∧
      r = terminal.leave r'.taken := by
  have htaken := ht.taken_matchAt spot id
  constructor
  · intro h
    have hr := h
    rw [ht.matchAt_eq] at hr
    obtain ⟨terminal, hget, hr⟩ := Option.bind_eq_some_iff.mp hr
    obtain ⟨taken, _, rfl⟩ := Option.map_eq_some_iff.mp hr
    rw [h] at htaken
    obtain ⟨before, leaf, after, hleaves, hleaf, hbefore⟩ :=
      List.findSome?_eq_some_iff.mp htaken.symm
    obtain ⟨r', hr', hsame⟩ := Option.map_eq_some_iff.mp hleaf
    refine ⟨terminal, leaf, r', hget, ⟨before, after, hleaves, hr', fun l hl => ?_⟩, ?_⟩
    · exact Option.map_eq_none_iff.mp (hbefore l hl)
    · rw [show r'.taken = taken from hsame.trans (taken_leave terminal taken)]
  · rintro ⟨terminal, leaf, r', hget, ⟨before, after, hleaves, hr', hbefore⟩, rfl⟩
    have hfirst : ((t.leaves id).findSome? fun l => (t.matchAt l spot).map (·.taken)) =
        some r'.taken := by
      refine List.findSome?_eq_some_iff.mpr ⟨before, leaf, after, hleaves, ?_, fun l hl => ?_⟩
      · rw [hr']
        rfl
      · rw [hbefore l hl]
        rfl
    rw [hfirst] at htaken
    obtain ⟨r, hr, hsame⟩ := Option.map_eq_some_iff.mp htaken
    have heq := hr
    rw [ht.matchAt_eq, hget] at heq
    obtain ⟨taken, _, rfl⟩ := Option.map_eq_some_iff.mp heq
    rw [hr, ← hsame, taken_leave]

theorem isSome_matchAt_iff (ht : t.Layered) : (t.matchAt id spot).isSome = true ↔
    ∃ leaf ∈ t.leaves id, (t.matchAt leaf spot).isSome = true := by
  have htaken := congrArg Option.isSome (ht.taken_matchAt spot id)
  rw [Option.isSome_map] at htaken
  rw [htaken, List.findSome?_isSome_iff]
  simp only [Option.isSome_map]

/-! ## Lengths -/

end Layered

theorem exists_of_leastLength {ids : List TerminalId} (h : t.leastLength ids = some k) :
    ∃ m ∈ ids, t.literalLength m = some k := by
  induction ids generalizing k with
  | nil => cases h
  | cons id ids ih =>
      cases ids with
      | nil => exact ⟨id, List.mem_singleton_self id, h⟩
      | cons id' ids =>
          unfold leastLength at h
          obtain ⟨first, hfirst, h⟩ := Option.bind_eq_some_iff.mp h
          obtain ⟨others, hothers, h⟩ := Option.bind_eq_some_iff.mp h
          cases h
          obtain ⟨m, hm, hlength⟩ := ih hothers
          rcases Nat.le_total first others with hle | hle
          · exact ⟨id, List.mem_cons_self, by rw [Nat.min_eq_left hle]; exact hfirst⟩
          · exact ⟨m, List.mem_cons_of_mem _ hm, by rw [Nat.min_eq_right hle]; exact hlength⟩

theorem isSome_leastLength {ids : List TerminalId} (hne : ids ≠ [])
    (h : ∀ m ∈ ids, (t.literalLength m).isSome = true) : (t.leastLength ids).isSome = true := by
  induction ids with
  | nil => exact absurd rfl hne
  | cons id ids ih =>
      obtain ⟨hid, hids⟩ := List.forall_mem_cons.mp h
      cases ids with
      | nil => exact hid
      | cons id' ids =>
          obtain ⟨first, hfirst⟩ := Option.isSome_iff_exists.mp hid
          obtain ⟨others, hothers⟩ :=
            Option.isSome_iff_exists.mp (ih (List.cons_ne_nil id' ids) hids)
          unfold leastLength
          rw [hfirst, hothers]
          rfl

theorem NoneEmpty.of_members (hget : t.get? id = some terminal)
    (hself : terminal.matcher ≠ .oneOf []) (h : ∀ m, t.HasMember id m → t.NoneEmpty m) :
    t.NoneEmpty id := by
  intro s other hpath hs
  rcases hpath.cases_head with rfl | ⟨m, hm, hpath⟩
  · rw [hget] at hs
    cases hs
    exact hself
  · exact h m hm s other hpath hs

theorem NoneEmpty.member (h : t.NoneEmpty id) (hm : t.HasMember id m) : t.NoneEmpty m :=
  fun s other hpath => h s other (.head hm hpath)

theorem literalLength_of_get?_eq_none (h : t.get? id = none) : t.literalLength id = none := by
  unfold get? at h
  rw [literalLength, Option.map_eq_none_iff.mp h]
  rfl

namespace Layered

theorem literalLength_of_oneOf (ht : t.Layered) (hget : t.get? id = some terminal)
    (hset : terminal.matcher = .oneOf members) : t.literalLength id = t.leastLength members := by
  rw [ht.literalLength_eq id terminal hget, hset]
  rfl

theorem literalLength_of_not_isSet (ht : t.Layered) (hget : t.get? id = some terminal)
    (hset : terminal.matcher.isSet = false) : t.literalLength id = t.textLength? id := by
  rw [ht.literalLength_eq id terminal hget, textLength?, hget]
  show t.lengthOf terminal.matcher = terminal.matcher.textLength?
  cases hmatcher : terminal.matcher with
  | oneOf => rw [hmatcher] at hset; cases hset
  | char | literal | scan | pattern => rfl

/-- The length of a terminal is the least of its leaves' lengths. -/
theorem least_of_literalLength (ht : t.Layered) (hk : t.literalLength id = some k) :
    t.NoneEmpty id ∧ (∃ l ∈ t.leaves id, t.textLength? l = some k) ∧
      ∀ l ∈ t.leaves id, ∃ n, t.textLength? l = some n ∧ k ≤ n := by
  induction id using ht.induction generalizing k with
  | step id ih =>
      rcases ht.cases_leaves id with ⟨hget, _⟩ | ⟨terminal, hget, hset, hself⟩ |
        ⟨terminal, members, hget, hset, hmembers⟩
      · rw [literalLength_of_get?_eq_none hget] at hk
        cases hk
      · rw [ht.literalLength_of_not_isSet hget hset] at hk
        refine ⟨.of_members hget (fun h => ?_) fun m hm => ?_, ?_, ?_⟩
        · rw [h] at hset
          cases hset
        · exact absurd hm (not_hasMember hget hset)
        · exact ⟨id, by simp [hself], hk⟩
        · intro l hl
          rw [hself, List.mem_singleton] at hl
          exact ⟨k, hl ▸ hk, Nat.le_refl k⟩
      · rw [ht.literalLength_of_oneOf hget hset] at hk
        have hmember : ∀ {m}, t.HasMember id m ↔ m ∈ members := hasMember_iff_of_oneOf hget hset
        obtain ⟨m, hm, hleast⟩ := exists_of_leastLength hk
        refine ⟨.of_members hget (fun h => ?_) fun m' hm' => ?_, ?_, ?_⟩
        · rw [hset] at h
          cases h
          cases hm
        · obtain ⟨j, hj, _⟩ := exists_literalLength_of_leastLength hk (hmember.mp hm')
          exact (ih m' hm' hj).1
        · obtain ⟨l, hl, hlength⟩ := (ih m (hmember.mpr hm) hleast).2.1
          exact ⟨l, hmembers ▸ List.mem_flatMap.mpr ⟨m, hm, hl⟩, hlength⟩
        · intro l hl
          rw [hmembers] at hl
          obtain ⟨m', hm', hl⟩ := List.mem_flatMap.mp hl
          obtain ⟨j, hj, hkj⟩ := exists_literalLength_of_leastLength hk hm'
          obtain ⟨n, hn, hjn⟩ := (ih m' (hmember.mpr hm') hj).2.2 l hl
          exact ⟨n, hn, Nat.le_trans hkj hjn⟩

/-- A terminal has a length if its leaves have, and no set is empty. -/
theorem isSome_literalLength (ht : t.Layered) (hid : t.contains id = true) (hne : t.NoneEmpty id)
    (h : ∀ l ∈ t.leaves id, (t.textLength? l).isSome = true) :
    (t.literalLength id).isSome = true := by
  induction id using ht.induction with
  | step id ih =>
      rcases ht.cases_leaves id with ⟨hget, _⟩ | ⟨terminal, hget, hset, hself⟩ |
        ⟨terminal, members, hget, hset, hmembers⟩
      · obtain ⟨terminal, hsome⟩ := exists_get?_of_contains hid
        rw [hget] at hsome
        cases hsome
      · rw [ht.literalLength_of_not_isSet hget hset]
        exact h id (by simp [hself])
      · rw [ht.literalLength_of_oneOf hget hset]
        refine isSome_leastLength ?_ fun m hm => ?_
        · rintro rfl
          exact hne id terminal .refl hget hset
        · have hmember := (hasMember_iff_of_oneOf hget hset).mpr hm
          refine ih m hmember ?_ (hne.member hmember) fun l hl => h l ?_
          · exact contains_of_le hid (Nat.le_of_lt (ht.member_lt id m hmember))
          · exact hmembers ▸ List.mem_flatMap.mpr ⟨m, hm, hl⟩

theorem literalLength_iff (ht : t.Layered) : t.literalLength id = some k ↔
    t.NoneEmpty id ∧ (∃ l ∈ t.leaves id, t.textLength? l = some k) ∧
      ∀ l ∈ t.leaves id, ∃ n, t.textLength? l = some n ∧ k ≤ n := by
  refine ⟨ht.least_of_literalLength, fun ⟨hne, ⟨l, hl, hlength⟩, hleast⟩ => ?_⟩
  have hid : t.contains id = true := by
    rcases ht.cases_leaves id with ⟨_, hnone⟩ | ⟨_, hget, _⟩ | ⟨_, _, hget, _⟩
    · rw [hnone] at hl
      cases hl
    · exact contains_of_get? hget
    · exact contains_of_get? hget
  have hsome := ht.isSome_literalLength hid hne fun l hl => by
    obtain ⟨n, hn, _⟩ := hleast l hl
    rw [hn]
    rfl
  obtain ⟨j, hj⟩ := Option.isSome_iff_exists.mp hsome
  obtain ⟨_, ⟨l', hl', hlength'⟩, hleast'⟩ := ht.least_of_literalLength hj
  -- both are the least
  obtain ⟨n, hn, hjn⟩ := hleast' l hl
  obtain ⟨n', hn', hkn⟩ := hleast l' hl'
  rw [hlength] at hn
  rw [hlength'] at hn'
  cases hn
  cases hn'
  rw [hj, Nat.le_antisymm hjn hkn]

theorem byteLength_matchAt_leaf (ht : t.Layered) (hk : t.textLength? id = some k)
    {r : TerminalMatch} (h : t.matchAt id spot = some r) : byteLength r.text = k := by
  rw [ht.matchAt_eq] at h
  obtain ⟨terminal, hget, h⟩ := Option.bind_eq_some_iff.mp h
  obtain ⟨taken, htake, rfl⟩ := Option.map_eq_some_iff.mp h
  rw [textLength?, hget] at hk
  have hk : terminal.matcher.textLength? = some k := hk
  have hown : terminal.matcher.take? spot = some taken := by
    unfold take? at htake
    cases hmatcher : terminal.matcher with
    | oneOf => rw [hmatcher] at hk; cases hk
    | char | literal | scan | pattern => rw [hmatcher] at htake; exact htake
  exact Matcher.byteLength_take? hk hown

/-- The text of a match is no shorter than the length of the terminal. -/
theorem le_byteLength (ht : t.Layered) (hk : t.literalLength id = some k) {r : TerminalMatch}
    (h : t.matchAt id spot = some r) : k ≤ byteLength r.text := by
  obtain ⟨terminal, leaf, r', _, ⟨before, after, hleaves, hr', _⟩, rfl⟩ := ht.matchAt_iff.mp h
  obtain ⟨n, hn, hkn⟩ := (ht.least_of_literalLength hk).2.2 leaf (by simp [hleaves])
  show k ≤ byteLength r'.text
  rw [ht.byteLength_matchAt_leaf hn hr']
  exact hkn

end Layered

/-! ## All of it -/

/-- All that the table says of a terminal it says of its leaves. -/
structure Flattens (t : TerminalTable) (id : TerminalId) : Prop where
  member_lt : ∀ m, t.HasMember id m → m.index < id.index
  /-- No member is left out since it does not stand before the set. -/
  membersOf_eq : ∀ terminal, t.get? id = some terminal →
    t.membersOf id = terminal.matcher.members
  leaves_eq : t.leaves id =
    match t.get? id with
    | none => []
    | some terminal =>
      match terminal.matcher with
      | .oneOf members => members.flatMap t.leaves
      | _ => [id]
  mem_leaves : ∀ m, m ∈ t.leaves id ↔ (m = id ∨ t.Contains id m) ∧
    ∃ terminal, t.get? m = some terminal ∧ terminal.matcher.isSet = false
  matchAt_eq : ∀ spot, t.matchAt id spot =
    (t.get? id).bind fun terminal => ((t.take? terminal spot).map terminal.leave)
  displayName_eq : t.displayName id =
    match t.get? id with
    | none => id.label
    | some terminal =>
      match terminal.name, terminal.matcher with
      | some name, _ => name
      | none, .char c => quotedChar c
      | none, .literal text => quoted text
      | none, .pattern p => "/" ++ p.source ++ "/"
      | none, .scan _ => id.label
      | none, .oneOf members => " | ".intercalate (members.map t.displayName)
  nodup_accepted : (t.accepted id).Nodup
  mem_accepted : ∀ m, m ∈ t.accepted id ↔ m = id ∨ t.Contains id m
  isSome_matchAt : ∀ spot, (t.matchAt id spot).isSome = true ↔
    ∃ leaf ∈ t.leaves id, (t.matchAt leaf spot).isSome = true
  matchAt_iff : ∀ spot r, t.matchAt id spot = some r ↔
    ∃ terminal leaf r', t.get? id = some terminal ∧ t.First spot (t.leaves id) leaf r' ∧
      r = terminal.leave r'.taken
  literalLength_iff : ∀ k, t.literalLength id = some k ↔
    t.NoneEmpty id ∧ (∃ l ∈ t.leaves id, t.textLength? l = some k) ∧
      ∀ l ∈ t.leaves id, ∃ n, t.textLength? l = some n ∧ k ≤ n
  le_byteLength : ∀ k spot r, t.literalLength id = some k → t.matchAt id spot = some r →
    k ≤ byteLength r.text
  /-- Of the terminals that are no sets, characters and literals have a length. -/
  byteLength_eq : ∀ k spot r terminal, t.literalLength id = some k →
    t.get? id = some terminal → terminal.matcher.isSet = false → t.matchAt id spot = some r →
    byteLength r.text = k

/-- In a table where each set names registered terminals, every terminal behaves as its leaves. -/
theorem flattens (ht : t.Registered) (id : TerminalId) : t.Flattens id := by
  have ht := ht.layered
  refine ⟨ht.member_lt id, fun _ => ht.membersOf_eq, ht.leaves_eq id, fun m => ?_,
    fun spot => ht.matchAt_eq spot id, ht.displayName_eq id, ht.nodup_accepted id, fun m => ?_,
    fun spot => ht.isSome_matchAt_iff, fun spot r => ht.matchAt_iff, fun k => ht.literalLength_iff,
    fun k spot r hk h => ht.le_byteLength hk h, fun k spot r terminal hk hget hset h => ?_⟩
  · rw [ht.mem_leaves_iff, reflTransGen_iff_eq_or_transGen]
  · rw [ht.mem_accepted_iff, reflTransGen_iff_eq_or_transGen]
  · rw [ht.literalLength_of_not_isSet hget hset] at hk
    exact ht.byteLength_matchAt_leaf hk h

/-- A set within a set, with a terminal that both name. The outer one skips a byte behind
its match. -/
def letters : TerminalTable :=
  let t : TerminalTable := {}
  let t := t.push { matcher := .char 'x' }
  let t := t.push { matcher := .literal "xy" }
  let t := t.push { matcher := .char 'é' }
  let t := t.push { matcher := .oneOf [⟨2⟩, ⟨0⟩] }
  t.push
    { matcher := .oneOf [⟨1⟩, ⟨3⟩, ⟨0⟩], extend := some fun rest => rest.head?.elim 0 fun _ => 1 }

theorem registered_letters : letters.Registered :=
  .push (.push (.push (.push (.push .empty rfl) rfl) rfl) rfl) rfl

theorem flattens_letters : letters.Registered ∧ letters.Flattens ⟨4⟩ ∧
    letters.leaves ⟨4⟩ = [⟨1⟩, ⟨2⟩, ⟨0⟩, ⟨0⟩] ∧ letters.accepted ⟨4⟩ = [⟨4⟩, ⟨1⟩, ⟨3⟩, ⟨0⟩, ⟨2⟩] ∧
    letters.literalLength ⟨4⟩ = some 1 ∧
    letters.matchAt ⟨4⟩ ⟨none, ['x', 'y', ' ', 'x']⟩ = some ⟨['x', 'y'], [' '], ['x']⟩ :=
  ⟨registered_letters, flattens registered_letters ⟨4⟩, rfl, rfl, by decide, by decide⟩

end TerminalTable

end Descent
