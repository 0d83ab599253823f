import Descent.Proofs.Match.Adequate

/-!
# No rule is entered where it is open

In the record of a run every rule that is entered is left again, and the rules open at any time have
heights that fall from the outermost to the innermost. So no rule is entered at a position where it
is open, and there are never more open rules than heights. With caps that allow as much, an
evaluation ends with an answer (`evaluate_never_reenters`).
-/

namespace Descent

namespace Event

/-- The rules that are open after some events and where they were entered, the innermost first. -/
def openRules : List (RuleId × Nat) → List Event → List (RuleId × Nat)
  | stack, [] => stack
  | stack, .enter id p :: es => openRules ((id, p) :: stack) es
  | stack, .exit .. :: es => openRules stack.tail es
  | stack, _ :: es => openRules stack es

/-- The events neither enter nor leave a rule, nor is one refused. -/
def IsFlat : Event → Prop
  | .enter .. | .exit .. | .refused .. => False
  | .took .. | .missed .. | .backtrack .. => True

/-- No rule is entered where it is open, none is refused, and at no time are more than `bound` rules
open. -/
structure NeverReenters (bound : Nat) (es : List Event) : Prop where
  entered : ∀ before id p after, es = before ++ .enter id p :: after → (id, p) ∉ openRules [] before
  refused : ∀ id p, .refused id p ∉ es
  nesting : ∀ before after, es = before ++ after → (openRules [] before).length ≤ bound

/-- Rules are left in the order opposite to that in which they are entered, and each is entered
below the bound and below the rule that encloses it. -/
inductive Nested (height : RuleId → Nat → Nat) : Nat → List Event → Prop where
  | nil {m} : Nested height m []
  | flat {m e} (h : e.IsFlat) : Nested height m [e]
  | append {m es es'} (h : Nested height m es) (h' : Nested height m es') :
      Nested height m (es ++ es')
  | rule {m id p b q es} (hlow : height id p < m) (h : Nested height (height id p) es) :
      Nested height m (.enter id p :: es ++ [.exit id b q])

variable {height : RuleId → Nat → Nat} {m : Nat} {es before after : List Event}
  {stack : List (RuleId × Nat)}

theorem openRules_append {es' : List Event} :
    openRules stack (es ++ es') = openRules (openRules stack es) es' := by
  induction es generalizing stack with
  | nil => rfl
  | cons e es ih => cases e <;> exact ih

theorem Nested.openRules_eq (h : Nested height m es) : openRules stack es = stack := by
  induction h generalizing stack with
  | nil => rfl
  | @flat m e h => cases e <;> first | rfl | exact h.elim
  | append _ _ ih ih' => rw [openRules_append, ih, ih']
  | @rule m id p b q es _ _ ih =>
      rw [List.cons_append]
      show openRules ((id, p) :: stack) (es ++ [.exit id b q]) = stack
      rw [openRules_append, ih]
      rfl

/-- At any time the rules opened since the beginning have falling heights, all below the bound. -/
theorem Nested.descending (h : Nested height m es) (stack : List (RuleId × Nat))
    (hes : es = before ++ after) :
    ∃ opened, openRules stack before = opened ++ stack ∧
      opened.Pairwise (fun a b => height a.1 a.2 < height b.1 b.2) ∧
      ∀ a ∈ opened, height a.1 a.2 < m := by
  induction h generalizing stack before after with
  | nil =>
      obtain ⟨rfl, rfl⟩ := List.append_eq_nil_iff.mp hes.symm
      exact ⟨[], rfl, by simp, by simp⟩
  | @flat m e h =>
      rcases List.singleton_eq_append_iff.mp hes with ⟨rfl, rfl⟩ | ⟨rfl, rfl⟩
      · exact ⟨[], rfl, by simp, by simp⟩
      · exact ⟨[], (Nested.flat h : Nested height m [e]).openRules_eq, by simp, by simp⟩
  | @append m es es' h _ ih ih' =>
      rcases List.append_eq_append_iff.mp hes with ⟨more, rfl, hes'⟩ | ⟨more, hes, _⟩
      · rw [openRules_append, h.openRules_eq]
        exact ih' stack hes'
      · exact ih stack hes
  | @rule m id p b q es hlow h ih =>
      cases before with
      | nil => exact ⟨[], rfl, by simp, by simp⟩
      | cons e before =>
          obtain ⟨rfl, htail⟩ := List.cons.inj hes
          replace htail : es ++ [.exit id b q] = before ++ after := htail
          rcases List.append_eq_append_iff.mp htail with ⟨more, rfl, hmore⟩ | ⟨more, hes, _⟩
          · -- the body is over: the rule is still open or has just been left
            show ∃ opened, openRules ((id, p) :: stack) (es ++ more) = opened ++ stack ∧ _
            rw [openRules_append, h.openRules_eq]
            rcases List.singleton_eq_append_iff.mp hmore with ⟨rfl, rfl⟩ | ⟨rfl, rfl⟩
            · exact ⟨[(id, p)], rfl, by simp, by simpa using hlow⟩
            · exact ⟨[], rfl, by simp, by simp⟩
          · obtain ⟨opened, hopened, hpairwise, hall⟩ := ih ((id, p) :: stack) hes
            refine ⟨opened ++ [(id, p)], ?_, ?_, ?_⟩
            · rw [List.append_assoc]
              exact hopened
            · rw [List.pairwise_append]
              exact ⟨hpairwise, by simp, by simpa using hall⟩
            · intro a ha
              rcases List.mem_append.mp ha with ha | ha
              · exact (hall a ha).trans hlow
              · cases List.mem_singleton.mp ha
                exact hlow

theorem Nested.not_refused (h : Nested height m es) (id : RuleId) (p : Nat) :
    .refused id p ∉ es := by
  induction h with
  | nil => simp
  | flat h =>
      intro hmem
      cases List.mem_singleton.mp hmem
      exact h
  | append _ _ ih ih' =>
      rw [List.mem_append]
      exact fun h => h.elim ih ih'
  | rule _ _ ih => simpa using ih

theorem length_le_of_descending {β : Type} {f : β → Nat} {xs : List β}
    (h : xs.Pairwise fun a b => f a < f b) (hlt : ∀ a ∈ xs, f a < m) : xs.length ≤ m := by
  have hnodup : (xs.map f).Nodup :=
    List.pairwise_map.mpr (h.imp fun hab => Nat.ne_of_lt hab)
  have hsub : (xs.map f).toFinset ⊆ Finset.range m := by
    intro i hi
    obtain ⟨a, ha, rfl⟩ := List.mem_map.mp (List.mem_toFinset.mp hi)
    exact Finset.mem_range.mpr (hlt a ha)
  have hcard := Finset.card_le_card hsub
  rwa [List.toFinset_card_of_nodup hnodup, List.length_map, Finset.card_range] at hcard

theorem Nested.neverReenters (h : Nested height m es) : NeverReenters m es := by
  refine ⟨?_, h.not_refused, ?_⟩
  · intro before id p after hes hmem
    have hes : es = (before ++ [.enter id p]) ++ after := by simpa using hes
    obtain ⟨opened, hopened, hpairwise, _⟩ := h.descending [] hes
    have heq : (id, p) :: openRules [] before = opened := by
      rw [openRules_append, List.append_nil] at hopened
      exact hopened
    rw [← heq, List.pairwise_cons] at hpairwise
    exact Nat.lt_irrefl _ (hpairwise.1 _ hmem)
  · intro before after hes
    obtain ⟨opened, hopened, hpairwise, hall⟩ := h.descending [] hes
    rw [hopened, List.append_nil]
    exact length_le_of_descending hpairwise hall

end Event

/-! ## The record of a run -/

/-- The events in a record. -/
def Note.events (log : List Note) : List Event :=
  log.filterMap fun
    | .event e => some e
    | .failed .. => none

@[simp] theorem Note.events_append {log log' : List Note} :
    events (log ++ log') = events log ++ events log' :=
  List.filterMap_append

@[simp] theorem Note.events_nil : events [] = [] := rfl

@[simp] theorem Note.events_event {e : Event} {log : List Note} :
    events (.event e :: log) = e :: events log :=
  rfl

@[simp] theorem Note.events_failed {p : Nat} {first : List TerminalId} {log : List Note} :
    events (.failed p first :: log) = events log :=
  rfl

theorem Note.nested_backtrack {height : RuleId → Nat → Nat} {m source target : Nat}
    {rule : RuleId} :
    Event.Nested height m (events (backtrack rule source target)) := by
  unfold backtrack
  split
  · exact .flat trivial
  · exact .nil

theorem Run.nested {c : CompiledGrammar} {symbols : Array Symbol} {m p q : Nat} {x : Fragment}
    {o : Option (List MatchTree)} {log : List Note} (h : Run c symbols m x p o q log) :
    Event.Nested (c.height symbols.size) m (Note.events log) := by
  induction h with
  | took | missed => exact .flat trivial
  | rule _ hlow _ ih =>
      rw [List.cons_append, Note.events_event, Note.events_append]
      exact .rule hlow ih
  | exhausted | done => exact .nil
  | first _ ih | step _ _ ih | unseparated _ ih | ended _ ih | idle _ ih | sequence _ ih
  | empty _ ih | cyclic _ ih => exact ih
  | next _ _ ih ih' | matched _ _ ih ih' | absent _ _ _ ih ih' | stalled _ _ ih ih'
  | again _ _ _ ih ih' | separated _ _ ih ih' =>
      rw [Note.events_append]
      exact .append ih ih'
  | failed _ _ ih =>
      rw [Note.events_append]
      exact .append ih Note.nested_backtrack
  | unmatched _ ih =>
      rw [Note.events_append]
      exact .append ih .nil
  | givenBack _ _ ih ih' =>
      rw [Note.events_append, Note.events_append]
      exact .append ih (.append ih' Note.nested_backtrack)
  | item _ _ _ _ ih ih' ih'' =>
      rw [Note.events_append, Note.events_append]
      exact .append ih (.append ih' ih'')

/-! ## The caps -/

/-- Caps that leave room for `m` more open rules stop the replay only once the attempts are used
up. -/
def Affordable (limits : Limits) (m : Nat) (log : List Note) : Prop :=
  ∀ l : Ledger, (∀ d, limits.depth = some d → l.depth + m ≤ d) →
    match l.replay limits log with
    | .ok l' => l'.depth = l.depth ∧ (l.fuel = none → l'.fuel = none)
    | .error (e, _) => e = .fuelExhausted ∧ l.fuel ≠ none

namespace Affordable

variable {limits : Limits} {m : Nat} {log log' : List Note}

theorem nil : Affordable limits m [] := fun _ _ => ⟨rfl, id⟩

theorem append (h : Affordable limits m log) (h' : Affordable limits m log') :
    Affordable limits m (log ++ log') := by
  intro l hl
  have hfirst := h l hl
  rw [Ledger.replay_append]
  cases hreplay : l.replay limits log with
  | error e =>
      rw [hreplay] at hfirst
      exact hfirst
  | ok l₁ =>
      rw [hreplay] at hfirst
      obtain ⟨hdepth, hfuel⟩ := hfirst
      have hsecond := h' l₁ fun d hd => hdepth ▸ hl d hd
      show match l₁.replay limits log' with
        | .ok l' => l'.depth = l.depth ∧ (l.fuel = none → l'.fuel = none)
        | .error (e, _) => e = .fuelExhausted ∧ l.fuel ≠ none
      cases hreplay' : l₁.replay limits log' with
      | error e =>
          rw [hreplay'] at hsecond
          exact ⟨hsecond.1, fun h => hsecond.2 (hfuel h)⟩
      | ok l₂ =>
          rw [hreplay'] at hsecond
          exact ⟨hsecond.1.trans hdepth, fun h => hsecond.2 (hfuel h)⟩

theorem failed {p : Nat} {first : List TerminalId} : Affordable limits m [.failed p first] :=
  fun _ _ => ⟨rfl, id⟩

theorem backtrack {rule : RuleId} {source target : Nat} :
    Affordable limits m (Note.backtrack rule source target) := by
  unfold Note.backtrack
  split
  · exact fun _ _ => ⟨rfl, id⟩
  · exact nil

/-- An attempt stops the replay only if none is left. -/
theorem pay (l : Ledger) : match l.pay with
    | .ok l' => l'.depth = l.depth ∧ (l.fuel = none → l'.fuel = none)
    | .error (e, _) => e = .fuelExhausted ∧ l.fuel ≠ none := by
  obtain ⟨depth, fuel, furthest, events⟩ := l
  rcases fuel with _ | _ | n
  · exact ⟨rfl, id⟩
  · exact ⟨rfl, by simp⟩
  · exact ⟨rfl, by simp⟩

theorem paid {e : Event}
    (htake : ∀ l : Ledger, l.take limits (.event e) = l.pay.map (Ledger.write e)) :
    Affordable limits m [.event e] := by
  intro l _
  have hpay := pay l
  rw [Ledger.replay_cons, htake]
  cases h : l.pay <;> rw [h] at hpay <;> exact hpay

theorem rule {id : RuleId} {p q k : Nat} {b : Bool} (hk : k < m) (h : Affordable limits k log) :
    Affordable limits m (.event (.enter id p) :: log ++ [.event (.exit id b q)]) := by
  intro l hl
  have hpay := pay l
  rw [List.cons_append, Ledger.replay_enter]
  cases hpaid : l.pay with
  | error e =>
      rw [hpaid] at hpay
      exact hpay
  | ok l₁ =>
      rw [hpaid] at hpay
      have hcap : ¬ limits.depth.any (· ≤ l₁.depth) = true := by
        rw [hpay.1]
        cases hd : limits.depth with
        | none => simp
        | some d =>
            have hle := hl d hd
            simp
            omega
      have hinside := h ((l₁.entered l₁.depth id p)) fun d hd => by
        have hle := hl d hd
        show l₁.depth + 1 + k ≤ d
        omega
      unfold Ledger.enter
      simp only [Except.bind]
      rw [if_neg hcap]
      show match (l₁.entered l₁.depth id p).replay limits (log ++ [.event (.exit id b q)]) with
        | .ok l' => l'.depth = l.depth ∧ (l.fuel = none → l'.fuel = none)
        | .error (e, _) => e = .fuelExhausted ∧ l.fuel ≠ none
      rw [Ledger.replay_append]
      cases hreplay : (l₁.entered l₁.depth id p).replay limits log with
      | error e =>
          rw [hreplay] at hinside
          exact ⟨hinside.1, fun h => hinside.2 (hpay.2 h)⟩
      | ok l₂ =>
          rw [hreplay] at hinside
          refine ⟨?_, fun h => hinside.2 (hpay.2 h)⟩
          show l₂.depth - 1 = l.depth
          rw [hinside.1, ← hpay.1]
          exact Nat.add_sub_cancel l₁.depth 1

end Affordable

theorem Run.affordable {c : CompiledGrammar} {symbols : Array Symbol} {m p q : Nat} {x : Fragment}
    {o : Option (List MatchTree)} {log : List Note} (h : Run c symbols m x p o q log)
    (limits : Limits) : Affordable limits m log := by
  induction h with
  | took | missed => exact .paid fun _ => rfl
  | rule _ hlow _ ih => exact .rule hlow ih
  | exhausted | done => exact .nil
  | first _ ih | step _ _ ih | unseparated _ ih | ended _ ih | idle _ ih | sequence _ ih
  | empty _ ih | cyclic _ ih => exact ih
  | next _ _ ih ih' | matched _ _ ih ih' | absent _ _ _ ih ih' | stalled _ _ ih ih'
  | again _ _ _ ih ih' | separated _ _ ih ih' => exact ih.append ih'
  | failed _ _ ih => exact ih.append (Affordable.failed.append .backtrack)
  | unmatched _ ih => exact ih.append .failed
  | givenBack _ _ ih ih' => exact ih.append (ih'.append (Affordable.failed.append .backtrack))
  | item _ _ _ _ ih ih' ih'' => exact ih.append (ih'.append ih'')

/-- What is furthest once the note is taken down. -/
def Note.mark (f : Option Furthest) : Note → Option Furthest
  | event _ => f
  | failed p first => Furthest.update f p first

namespace Ledger

variable {limits : Limits} {l l' : Ledger} {log : List Note}

/-- What becomes of the ledger, but for the caps, when a note is taken down. -/
theorem take_cases {n : Note} (h : l.take limits n = .ok l') :
    l'.furthest = n.mark l.furthest ∧ l'.events = (Note.events [n]).reverse ++ l.events := by
  have hwrite : ∀ {l₁ e}, l.pay = .ok l₁ →
      l₁.furthest = l.furthest ∧ e :: l₁.events = e :: l.events := by
    intro l₁ e hpay
    exact ⟨furthest_pay hpay, congrArg (e :: ·) (events_pay hpay)⟩
  have hpaid : ∀ e, l.pay.map (write e) = .ok l' →
      l'.furthest = l.furthest ∧ l'.events = e :: l.events := by
    intro e h
    cases hpay : l.pay with
    | error f => rw [hpay] at h; cases h
    | ok l₁ =>
        rw [hpay] at h
        cases h
        exact hwrite hpay
  cases n with
  | failed p first => cases h; exact ⟨rfl, rfl⟩
  | event e =>
      cases e with
      | took t x => exact hpaid _ h
      | missed t x => exact hpaid _ h
      | exit id b p => cases h; exact ⟨rfl, rfl⟩
      | refused id p => cases h; exact ⟨rfl, rfl⟩
      | backtrack id source target => cases h; exact ⟨rfl, rfl⟩
      | enter id p =>
          have h : l.replay limits [.event (.enter id p)] = .ok l' := by
            rw [replay_cons, h]
            rfl
          rw [replay_enter] at h
          cases hpay : l.pay with
          | error f => rw [hpay] at h; cases h
          | ok l₁ =>
              rw [hpay] at h
              replace h : (l₁.enter limits).bind (fun l => .ok (l.write (.enter id p))) = .ok l' :=
                h
              unfold enter at h
              split at h
              · cases h
              · cases h
                show l₁.furthest = l.furthest ∧ Event.enter id p :: l₁.events = _
                exact hwrite hpay

/-- What becomes of it when a record is. -/
theorem replay_cases (h : l.replay limits log = .ok l') :
    l'.furthest = log.foldl Note.mark l.furthest ∧
      l'.events = (Note.events log).reverse ++ l.events := by
  induction log generalizing l with
  | nil =>
      cases h
      exact ⟨rfl, rfl⟩
  | cons n log ih =>
      rw [replay_cons] at h
      cases htake : l.take limits n with
      | error e => rw [htake] at h; cases h
      | ok l₁ =>
          rw [htake] at h
          obtain ⟨hfurthest, hevents⟩ := take_cases htake
          obtain ⟨hfurthest', hevents'⟩ := ih h
          have hsplit : Note.events (n :: log) = Note.events [n] ++ Note.events log :=
            (Note.events_append : Note.events ([n] ++ log) = _)
          refine ⟨?_, ?_⟩
          · rw [hfurthest', hfurthest, List.foldl_cons]
          · rw [hevents', hevents, hsplit, List.reverse_append, List.append_assoc]

theorem events_replay (h : l.replay limits log = .ok l') :
    l'.events = (Note.events log).reverse ++ l.events :=
  (replay_cases h).2

end Ledger

/-! ## Every evaluation ends -/

/-- With caps that leave room for every height, an evaluation follows its run to the end unless the
attempts are used up before. -/
theorem evaluate_run (limits : Limits) {c : CompiledGrammar} {s : EvalState} {id : RuleId}
    (hc : c.Consistent) (hid : id ∈ c.order) (hs : s.Ready c) :
    ∃ o q log,
      Run c s.cursor.symbols (c.order.length * (s.cursor.symbols.size + 1)) (.leaf (.rule id))
        s.cursor.position (o.map fun tree => [tree]) q log ∧
      ((∀ d, limits.depth = some d → c.order.length * (s.cursor.symbols.size + 1) ≤ d) →
        (s.fuel = none → ∃ t, c.evaluate limits id s = .ok o t ∧ t.Ready c ∧
          t.cursor.position = q ∧ t.events = (Note.events log).reverse ++ s.events) ∧
        ∀ e t, c.evaluate limits id s = .error e t → e = .fuelExhausted) := by
  obtain ⟨o, q, log, hrun, hfollows⟩ := evaluate_follows limits hc hid hs
  refine ⟨o, q, log, hrun, fun hcap => ?_⟩
  have hq : s.cursor.position ≤ q := by
    cases o with
    | none => exact (hrun.eq_back rfl).ge
    | some tree => exact (hrun.progress hc rfl).le
  -- no rule is open yet, so the cap leaves room for as many rules as there are heights
  have hreplay := hrun.affordable limits s.ledger fun d hd => by
    show s.depth + _ ≤ d
    rw [hs.depth, Nat.zero_add]
    exact hcap d hd
  cases hlog : s.ledger.replay limits log with
  | error e =>
      obtain ⟨q', heval⟩ := hfollows.of_replay_error hlog
      rw [hlog] at hreplay
      rw [heval]
      refine ⟨fun hfuel => absurd hfuel hreplay.2, fun e t h => ?_⟩
      cases h
      exact hreplay.1
  | ok l =>
      rw [hfollows.of_replay_ok hlog]
      refine ⟨fun _ => ⟨_, rfl, hs.resume hq l, rfl, Ledger.events_replay hlog⟩, fun e t h => ?_⟩
      cases h

namespace Grammar

variable {α : Type} {g : Grammar α} {root id : RuleId} {c : CompiledGrammar} {s : EvalState}

/-- The evaluation of a reachable rule of a compiled grammar, at any position, has a run in which no
rule is entered where it is open and never more rules are open than there are reachable rules at all
positions together. With caps that allow for so many open rules it follows the run to its end,
unless the attempts are used up before. -/
theorem evaluate_never_reenters (limits : Limits) (hcompile : g.compile root = .ok c)
    (hid : g.Reachable root id) (hs : s.Ready c) :
    let bound := c.order.length * (s.cursor.symbols.size + 1)
    ∃ o q log,
      Run c s.cursor.symbols bound (.leaf (.rule id)) s.cursor.position
        (o.map fun tree => [tree]) q log ∧
      Event.NeverReenters bound (Note.events log) ∧
      ((∀ d, limits.depth = some d → bound ≤ d) →
        (s.fuel = none → ∃ t, c.evaluate limits id s = .ok o t ∧ t.Ready c ∧
          t.cursor.position = q ∧ t.events = (Note.events log).reverse ++ s.events) ∧
        ∀ e t, c.evaluate limits id s = .error e t → e = .fuelExhausted) := by
  have hmem : id ∈ c.order := ((covers_of_compile hcompile).mem_order id).mpr hid
  obtain ⟨o, q, log, hrun, heval⟩ := evaluate_run limits (consistent_of_compile hcompile) hmem hs
  exact ⟨o, q, log, hrun, hrun.nested.neverReenters, heval⟩

theorem evaluate_never_reenters_nested : ∃ c, nested.compile ⟨0⟩ = .ok c ∧
    let s := EvalState.initial c {} #[⟨⟨5⟩, 0, "x", true⟩]
    ∃ o t es, c.evaluate {} ⟨0⟩ s = .ok o t ∧ t.Ready c ∧ t.events = es.reverse ∧
      Event.NeverReenters (c.order.length * 2) es := by
  obtain ⟨c, hc⟩ := exists_compile_nested
  refine ⟨c, hc, ?_⟩
  obtain ⟨o, q, log, _, hnever, h⟩ := evaluate_never_reenters {} hc .refl
    (EvalState.ready_initial c {} #[⟨⟨5⟩, 0, "x", true⟩])
  obtain ⟨t, heval, ht, _, hevents⟩ := (h (by simp)).1 rfl
  exact ⟨o, t, Note.events log, heval, ht, hevents.trans (List.append_nil _), hnever⟩

end Grammar

end Descent
