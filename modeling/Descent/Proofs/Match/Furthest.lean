import Descent.Proofs.Match.Nesting

/-!
# The furthest failure

The furthest failure is read off the record of an evaluation, note by note. What is held for
furthest after all of them sums the record up (`Note.sumUp_mark`): its position is the largest one
at which a step failed that had to match, and what it expects is the union of the first sets of the
steps that failed there, each terminal where it is first mentioned (`Note.expected_mark`).
-/

namespace Descent

/-! ## Lists of terminals without repetition -/

namespace TerminalId

/-- Merging goes on with a list from which repetitions have been dropped. -/
theorem merge_eraseDups (ids more : List TerminalId) :
    merge ids.eraseDups more = (ids ++ more).eraseDups := by
  induction more generalizing ids with
  | nil => rw [List.append_nil]; rfl
  | cons id more ih =>
      have hone : (if ids.eraseDups.contains id then ids.eraseDups else ids.eraseDups ++ [id]) =
          (ids ++ [id]).eraseDups := by
        rw [List.eraseDups_append]
        by_cases hid : id ∈ ids
        · simp [List.removeAll, hid]
        · simp [List.removeAll, hid, List.eraseDups_cons]
      rw [List.append_cons, ← ih]
      show merge (if ids.eraseDups.contains id then _ else _) more = _
      rw [hone]

theorem eraseDups_eq_self {ids : List TerminalId} (h : ids.Nodup) : ids.eraseDups = ids := by
  induction ids with
  | nil => rfl
  | cons id ids ih =>
      obtain ⟨hid, hids⟩ := List.nodup_cons.mp h
      rw [List.eraseDups_cons, List.filter_eq_self.mpr, ih hids]
      intro id' hmem
      have hne : id' ≠ id := fun heq => hid (heq ▸ hmem)
      simp [hne]

end TerminalId

namespace Furthest

/-- What is held for furthest says what failed in the record. -/
structure Sums (log : List Note) (f : Furthest) : Prop where
  reached : ∃ first, .failed f.position first ∈ log
  furthest : ∀ p first, .failed p first ∈ log → p ≤ f.position
  mem_iff : ∀ t, t ∈ f.expected ↔ ∃ first, .failed f.position first ∈ log ∧ t ∈ first

variable {log : List Note} {f : Furthest} {p : Nat} {first : List TerminalId}

/-! ## One more failure -/

/-- A failure is passed over, adds to what is expected, or stands alone. -/
theorem update_cases (f : Furthest) (p : Nat) (first : List TerminalId) :
    (p < f.position ∧ update (some f) p first = some f) ∨
      (f.position = p ∧ update (some f) p first = some ⟨p, TerminalId.merge f.expected first⟩) ∨
      (f.position < p ∧ update (some f) p first = some ⟨p, first⟩) := by
  unfold update
  dsimp only
  split
  · next hlater => exact Or.inl ⟨hlater, rfl⟩
  · next hnot =>
      split
      · next hsame => exact Or.inr (Or.inl ⟨hsame, rfl⟩)
      · next hne => exact Or.inr (Or.inr ⟨by omega, rfl⟩)

theorem Sums.keep (h : Sums log f) (hp : p < f.position) : Sums (log ++ [.failed p first]) f := by
  obtain ⟨hreached, hfurthest, hmem⟩ := h
  have hother : ∀ first', .failed f.position first' ∈ log ++ [.failed p first] ↔
      .failed f.position first' ∈ log := by
    intro first'
    rw [List.mem_append, List.mem_singleton, Note.failed.injEq]
    exact or_iff_left fun h => absurd h.1 hp.ne'
  refine ⟨?_, ?_, fun t => ?_⟩
  · exact hreached.imp fun first' => (hother first').mpr
  · intro q first' hq
    rcases List.mem_append.mp hq with hq | hq
    · exact hfurthest q first' hq
    · cases List.mem_singleton.mp hq
      exact hp.le
  · rw [hmem]
    exact exists_congr fun first' => and_congr_left fun _ => (hother first').symm

theorem Sums.merged (h : Sums log f) (hp : f.position = p) :
    Sums (log ++ [.failed p first]) ⟨p, TerminalId.merge f.expected first⟩ := by
  obtain ⟨_, hfurthest, hmem⟩ := h
  refine ⟨⟨first, List.mem_append_right _ (List.mem_singleton_self _)⟩, ?_, fun t => ?_⟩
  · intro q first' hq
    rcases List.mem_append.mp hq with hq | hq
    · exact (hfurthest q first' hq).trans_eq hp
    · cases List.mem_singleton.mp hq
      exact Nat.le_refl p
  · rw [TerminalId.mem_merge, hmem, hp]
    constructor
    · rintro (⟨first', hfirst', ht⟩ | ht)
      · exact ⟨first', List.mem_append_left _ hfirst', ht⟩
      · exact ⟨first, List.mem_append_right _ (List.mem_singleton_self _), ht⟩
    · rintro ⟨first', hfirst', ht⟩
      rcases List.mem_append.mp hfirst' with hfirst' | hfirst'
      · exact Or.inl ⟨first', hfirst', ht⟩
      · cases List.mem_singleton.mp hfirst'
        exact Or.inr ht

theorem Sums.anew (h : ∀ q first', .failed q first' ∈ log → q < p) :
    Sums (log ++ [.failed p first]) ⟨p, first⟩ := by
  refine ⟨⟨first, List.mem_append_right _ (List.mem_singleton_self _)⟩, ?_, fun t => ?_⟩
  · intro q first' hq
    rcases List.mem_append.mp hq with hq | hq
    · exact (h q first' hq).le
    · cases List.mem_singleton.mp hq
      exact Nat.le_refl p
  · constructor
    · exact fun ht => ⟨first, List.mem_append_right _ (List.mem_singleton_self _), ht⟩
    · rintro ⟨first', hfirst', ht⟩
      rcases List.mem_append.mp hfirst' with hfirst' | hfirst'
      · exact absurd (h p first' hfirst') (Nat.lt_irrefl p)
      · cases List.mem_singleton.mp hfirst'
        exact ht

end Furthest

namespace Note

variable {log : List Note}

/-- What is held for furthest, if anything is, says what failed in the record. -/
def SumUp (log : List Note) : Option Furthest → Prop
  | none => ∀ p first, .failed p first ∉ log
  | some f => f.Sums log

theorem SumUp.event {held : Option Furthest} (h : SumUp log held) (e : Event) :
    SumUp (log ++ [.event e]) held := by
  have hsame : ∀ p first, .failed p first ∈ log ++ [.event e] ↔ .failed p first ∈ log := by
    intro p first
    rw [List.mem_append, List.mem_singleton]
    exact or_iff_left nofun
  cases held with
  | none => exact fun p first hmem => h p first ((hsame p first).mp hmem)
  | some f =>
      obtain ⟨hreached, hfurthest, hmem⟩ := h
      refine ⟨?_, ?_, fun t => ?_⟩
      · exact hreached.imp fun first => (hsame _ first).mpr
      · exact fun p first h => hfurthest p first ((hsame p first).mp h)
      · rw [hmem]
        exact exists_congr fun first => and_congr_left fun _ => (hsame _ first).symm

theorem SumUp.failed {held : Option Furthest} (h : SumUp log held) (p : Nat)
    (first : List TerminalId) :
    SumUp (log ++ [.failed p first]) (Furthest.update held p first) := by
  cases held with
  | none => exact Furthest.Sums.anew fun q first' hq => absurd hq (h q first')
  | some f =>
      have h : f.Sums log := h
      rcases f.update_cases p first with ⟨hlater, heq⟩ | ⟨hsame, heq⟩ | ⟨hbehind, heq⟩
      · rw [heq]
        exact h.keep hlater
      · rw [heq]
        exact h.merged hsame
      · rw [heq]
        exact Furthest.Sums.anew fun q first' hq => (h.furthest q first' hq).trans_lt hbehind

theorem sumUp_mark (log : List Note) : SumUp log (log.foldl mark none) := by
  induction log using List.reverseRecOn with
  | nil => exact fun p first h => absurd h List.not_mem_nil
  | append_singleton log n ih =>
      rw [List.foldl_append, List.foldl_cons, List.foldl_nil]
      cases n with
      | event e => exact ih.event e
      | failed p first => exact ih.failed p first

theorem sums_of_mark {f : Furthest} (h : log.foldl mark none = some f) : f.Sums log := by
  have hsum := sumUp_mark log
  rwa [h] at hsum

/-- Nothing is expected twice, if no first set has a terminal twice. -/
theorem nodup_mark {f₀ : Option Furthest} (h₀ : ∀ f ∈ f₀, f.expected.Nodup)
    (h : ∀ p first, .failed p first ∈ log → first.Nodup) :
    ∀ f ∈ log.foldl mark f₀, f.expected.Nodup := by
  induction log generalizing f₀ with
  | nil => exact h₀
  | cons n log ih =>
      refine ih ?_ fun p first hmem => h p first (List.mem_cons_of_mem _ hmem)
      cases n with
      | event e => exact h₀
      | failed p first =>
          have hfirst := h p first List.mem_cons_self
          intro f hf
          cases f₀ with
          | none =>
              cases hf
              exact hfirst
          | some f₀ =>
              have hf₀ := h₀ f₀ rfl
              have hf : Furthest.update (some f₀) p first = some f := hf
              rcases f₀.update_cases p first with ⟨_, heq⟩ | ⟨_, heq⟩ | ⟨_, heq⟩
              · cases heq.symm.trans hf
                exact hf₀
              · cases heq.symm.trans hf
                exact TerminalId.nodup_merge hf₀ first
              · cases heq.symm.trans hf
                exact hfirst

/-! ## What is expected, in order -/

/-- The first sets noted at a position. -/
def firstsAt (p : Nat) (log : List Note) : List (List TerminalId) :=
  log.filterMap fun
    | .failed q first => if q = p then some first else none
    | .event _ => none

theorem firstsAt_failed {p p' : Nat} {first : List TerminalId} :
    firstsAt p' (log ++ [.failed p first]) =
      firstsAt p' log ++ if p = p' then [first] else [] := by
  unfold firstsAt
  rw [List.filterMap_append]
  split <;> simp [*]

theorem firstsAt_eq_nil {p : Nat} (h : ∀ first, .failed p first ∉ log) : firstsAt p log = [] := by
  refine List.filterMap_eq_nil_iff.mpr fun n hn => ?_
  cases n with
  | event e => rfl
  | failed q first =>
      refine if_neg fun heq => h first ?_
      exact heq ▸ hn

/-- What is expected at the furthest position are the terminals noted there, each where it is first
mentioned. -/
theorem expected_mark (h : ∀ p first, .failed p first ∈ log → first.Nodup) :
    ∀ f ∈ log.foldl mark none,
      f.expected = (firstsAt f.position log).flatten.eraseDups := by
  induction log using List.reverseRecOn with
  | nil => nofun
  | append_singleton log n ih =>
      have ih := ih fun p first hmem => h p first (List.mem_append_left _ hmem)
      rw [List.foldl_append, List.foldl_cons, List.foldl_nil]
      intro f hf
      cases n with
      | event e =>
          rw [ih f hf]
          simp [firstsAt]
      | failed p first =>
          have hfirst : first.Nodup := h p first (by simp)
          -- where nothing has been noted yet, the first set stands alone
          have hanew : (∀ first', .failed p first' ∉ log) →
              first = (firstsAt p (log ++ [.failed p first])).flatten.eraseDups := by
            intro hnone
            rw [firstsAt_failed, firstsAt_eq_nil hnone, if_pos rfl]
            simp [TerminalId.eraseDups_eq_self hfirst]
          cases hheld : log.foldl mark none with
          | none =>
              have hsum := sumUp_mark log
              rw [hheld] at hf hsum
              cases hf
              exact hanew (hsum p)
          | some f₀ =>
              have hf₀ := ih f₀ hheld
              rw [hheld] at hf
              have hf : Furthest.update (some f₀) p first = some f := hf
              rcases f₀.update_cases p first with ⟨hlater, heq⟩ | ⟨rfl, heq⟩ | ⟨hbehind, heq⟩
              · cases heq.symm.trans hf
                rw [firstsAt_failed, if_neg hlater.ne, List.append_nil]
                exact hf₀
              · cases heq.symm.trans hf
                show TerminalId.merge f₀.expected first = _
                rw [firstsAt_failed, if_pos rfl, hf₀, TerminalId.merge_eraseDups]
                simp
              · cases heq.symm.trans hf
                refine hanew fun first' hmem => ?_
                exact absurd ((sums_of_mark hheld).furthest p first' hmem) (Nat.not_le.mpr hbehind)

end Note

/-! ## Records of runs -/

/-- Every step of the fragment has the property. -/
def Fragment.All (P : CompiledStep → Prop) : Fragment → Prop
  | leaf _ => True
  | leaves _ => True
  | step s => P s
  | steps _ _ ss => ∀ s ∈ ss, P s
  | more _ item separator => P item ∧ P separator
  | again s => P s
  | body _ b => ∀ s ∈ b.steps, P s

namespace Run

variable {c : CompiledGrammar} {symbols : Array Symbol} {P : CompiledStep → Prop}
  (hrules : ∀ id r, c.rule? id = some r → ∀ s ∈ r.body.steps, P s)

include hrules

/-- A record is put together from events and from what steps leave behind that fail though they have
to match. -/
theorem record_induction {Q : List Note → Prop} (nil : Q []) (event : ∀ e, Q [.event e])
    (append : ∀ {log log'}, Q log → Q log' → Q (log ++ log'))
    (failed : ∀ {m p q s log}, P s → Run c symbols m (.step s) p none q log → Q log →
      Q (log ++ [.failed p s.first]))
    {m p q : Nat} {x : Fragment} {o : Option (List MatchTree)} {log : List Note}
    (h : Run c symbols m x p o q log) (hall : x.All P) : Q log := by
  have hbacktrack : ∀ rule source target, Q (Note.backtrack rule source target) := by
    intro rule source target
    unfold Note.backtrack
    split
    · exact event _
    · exact nil
  induction h with
  | took | missed => exact event _
  | rule hr _ _ ih => exact append (append (event _) (ih (hrules _ _ hr))) (event _)
  | exhausted | done => exact nil
  | first _ ih | step _ _ ih => exact ih trivial
  | next _ _ ih ihrest => exact append (ih trivial) (ihrest trivial)
  | matched _ _ ih ihrest | absent _ _ _ ih ihrest =>
      obtain ⟨hs, hss⟩ := List.forall_mem_cons.mp hall
      exact append (ih hs) (ihrest hss)
  | failed step _ ih =>
      have hs := hall _ List.mem_cons_self
      rw [List.append_cons]
      exact append (failed hs step (ih hs)) (hbacktrack _ _ _)
  | unseparated _ ih => exact ih hall.2
  | givenBack _ step ih ihstep =>
      rw [List.append_cons]
      exact append (ih hall.2) (append (failed hall.1 step (ihstep hall.1)) (hbacktrack _ _ _))
  | stalled _ _ ih ihstep => exact append (ih hall.2) (ihstep hall.1)
  | item _ _ _ _ ih ihstep ihmore =>
      exact append (ih hall.2) (append (ihstep hall.1) (ihmore hall))
  | ended _ ih | idle _ ih | sequence _ ih => exact ih hall
  | again _ _ _ ih ihmore => exact append (ih hall) (ihmore hall)
  | empty _ ih => exact ih (hall _ List.mem_cons_self)
  | unmatched step ih =>
      have hitem := hall _ List.mem_cons_self
      exact failed hitem step (ih hitem)
  | separated _ _ ih ihmore =>
      have hitem := hall _ List.mem_cons_self
      exact append (ih hitem) (ihmore ⟨hitem, hall _ (by simp [CompiledBody.steps])⟩)
  | cyclic _ ih => exact ih (hall _ (List.mem_singleton_self _))

/-- What is noted of a step that failed is its first set. -/
theorem exists_step_of_failed {m p q : Nat} {x : Fragment} {o : Option (List MatchTree)}
    {log : List Note} (h : Run c symbols m x p o q log) (hall : x.All P) :
    ∀ p' first, .failed p' first ∈ log → ∃ s, P s ∧ first = s.first := by
  refine record_induction (Q := fun log => ∀ p first, .failed p first ∈ log → ∃ s, P s ∧
    first = s.first) hrules ?_ ?_ ?_ ?_ h hall
  · exact fun _ _ h => absurd h List.not_mem_nil
  · intro e p' first h
    cases List.mem_singleton.mp h
  · intro log log' hlog hlog' p' first h
    exact (List.mem_append.mp h).elim (hlog p' first) (hlog' p' first)
  · intro m p q s log hs _ hlog p' first h
    rcases List.mem_append.mp h with h | h
    · exact hlog p' first h
    · cases List.mem_singleton.mp h
      exact ⟨s, hs, rfl⟩

end Run

end Descent
