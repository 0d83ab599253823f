import Descent.Proofs.Match.Nesting

/-!
# What a record costs

Every rule entered and every terminal tried is one attempt, and the caps are compared with the
attempts made so far and with the rules that are open. So a record can be replayed under caps
exactly if they leave room for its attempts and, at every time, for its open rules
(`Ledger.charged_replay`); it then leaves what it leaves without caps. Where they do not, the replay
stops with one of the two faults of the caps, after a first part of the events.
-/

namespace Descent

namespace Event

/-- The event is an attempt at a rule or at a terminal. -/
def isAttempt : Event → Bool
  | enter .. | took .. | missed .. => true
  | exit .. | refused .. | backtrack .. => false

/-- The number of rules entered and terminals tried. -/
def attempts (es : List Event) : Nat := es.countP isAttempt

/-- The largest number of rules that are open at one time, with those of the stack open before. -/
def mostOpen (stack : List (RuleId × Nat)) : List Event → Nat
  | [] => stack.length
  | e :: es => max stack.length (mostOpen (openRules stack [e]) es)

/-- With the rules of the stack open before, never more than `d` rules are open. -/
def Shallow (d : Nat) (stack : List (RuleId × Nat)) (es : List Event) : Prop :=
  ∀ before, before <+: es → (openRules stack before).length ≤ d

end Event

/-- The caps leave room for so many attempts and so many open rules. -/
def Limits.Allow (limits : Limits) (attempts nesting : Nat) : Prop :=
  (∀ f, limits.fuel = some f → attempts ≤ f) ∧ ∀ d, limits.depth = some d → nesting ≤ d

/-- Each cap of the second is unset or at least what it is in the first. -/
def Limits.AtMost (limits limits' : Limits) : Prop :=
  (∀ f', limits'.fuel = some f' → ∃ f, limits.fuel = some f ∧ f ≤ f') ∧
    ∀ d', limits'.depth = some d' → ∃ d, limits.depth = some d ∧ d ≤ d'

theorem Limits.Allow.mono {limits limits' : Limits} {attempts nesting : Nat}
    (h : limits.Allow attempts nesting) (hle : limits.AtMost limits') :
    limits'.Allow attempts nesting := by
  refine ⟨?_, ?_⟩
  · intro f' hf'
    obtain ⟨f, hf, hff'⟩ := hle.1 f' hf'
    exact (h.1 f hf).trans hff'
  · intro d' hd'
    obtain ⟨d, hd, hdd'⟩ := hle.2 d' hd'
    exact (h.2 d hd).trans hdd'

/-- With the rules of the stack open before, the events stay within the attempts left and the cap on
open rules. -/
def Event.Within (limits : Limits) (fuel : Option Nat) (stack : List (RuleId × Nat))
    (es : List Event) : Prop :=
  (∀ f, fuel = some f → attempts es ≤ f) ∧ ∀ d, limits.depth = some d → Shallow d stack es

namespace Event

variable {limits : Limits} {fuel : Option Nat} {d : Nat} {stack : List (RuleId × Nat)}
  {es es' : List Event}

@[simp] theorem attempts_append : attempts (es ++ es') = attempts es + attempts es' :=
  List.countP_append

/-- The attempts left after some events and then others. -/
theorem map_sub_attempts_append : (fuel.map (· - attempts es)).map (· - attempts es') =
    fuel.map (· - attempts (es ++ es')) := by
  cases fuel with
  | none => rfl
  | some f =>
      rw [attempts_append]
      exact congrArg some (Nat.sub_sub f _ _)

theorem Shallow.length_le (h : Shallow d stack es) : (openRules stack es).length ≤ d :=
  h es (List.prefix_refl es)

theorem shallow_singleton {e : Event} :
    Shallow d stack [e] ↔ stack.length ≤ d ∧ (openRules stack [e]).length ≤ d := by
  constructor
  · intro h
    exact ⟨h [] List.nil_prefix, h.length_le⟩
  · rintro ⟨hstack, he⟩ before hbefore
    rcases List.prefix_cons_iff.mp hbefore with rfl | ⟨rest, rfl, hrest⟩
    · exact hstack
    · obtain rfl := List.prefix_nil.mp hrest
      exact he

theorem shallow_append :
    Shallow d stack (es ++ es') ↔ Shallow d stack es ∧ Shallow d (openRules stack es) es' := by
  constructor
  · intro h
    refine ⟨?_, ?_⟩
    · intro before hbefore
      exact h before (hbefore.trans (List.prefix_append es es'))
    · intro before hbefore
      rw [← openRules_append]
      exact h (es ++ before) ((List.prefix_append_right_inj es).mpr hbefore)
  · rintro ⟨h, h'⟩ before hbefore
    -- the first part ends in `es` or holds all of it
    rcases List.prefix_or_prefix_of_prefix hbefore (List.prefix_append es es') with hin | hout
    · exact h before hin
    · obtain ⟨rest, rfl⟩ := hout
      rw [openRules_append]
      exact h' rest ((List.prefix_append_right_inj es).mp hbefore)

theorem mostOpen_le_iff : mostOpen stack es ≤ d ↔ Shallow d stack es := by
  induction es generalizing stack with
  | nil =>
      constructor
      · intro h before hbefore
        obtain rfl := List.prefix_nil.mp hbefore
        exact h
      · exact fun h => h.length_le
  | cons e es ih =>
      have hsplit : [e] ++ es = e :: es := rfl
      rw [mostOpen, max_le_iff, ih, ← hsplit, shallow_append, shallow_singleton]
      constructor
      · rintro ⟨hstack, hrest⟩
        exact ⟨⟨hstack, hrest [] List.nil_prefix⟩, hrest⟩
      · rintro ⟨⟨hstack, _⟩, hrest⟩
        exact ⟨hstack, hrest⟩

theorem within_nil : Within limits fuel [] [] := by
  refine ⟨fun f _ => Nat.zero_le f, ?_⟩
  intro d _ before hbefore
  obtain rfl := List.prefix_nil.mp hbefore
  exact Nat.zero_le d

theorem within_append : Within limits fuel stack (es ++ es') ↔
    Within limits fuel stack es ∧
      Within limits (fuel.map (· - attempts es)) (openRules stack es) es' := by
  unfold Within
  simp only [attempts_append, shallow_append]
  constructor
  · rintro ⟨hfuel, hdepth⟩
    refine ⟨⟨?_, fun d hd => (hdepth d hd).1⟩, ?_, fun d hd => (hdepth d hd).2⟩
    · intro f hf
      have hle := hfuel f hf
      omega
    · intro f hf
      obtain ⟨f, hsome, rfl⟩ := Option.map_eq_some_iff.mp hf
      have hle := hfuel f hsome
      omega
  · rintro ⟨⟨hfuel, hdepth⟩, hfuel', hdepth'⟩
    refine ⟨?_, fun d hd => ⟨hdepth d hd, hdepth' d hd⟩⟩
    intro f hf
    have hle := hfuel f hf
    have hle' := hfuel' (f - attempts es) (by rw [hf]; rfl)
    omega

theorem within_nil_iff_allow :
    Within limits limits.fuel [] es ↔ limits.Allow (attempts es) (mostOpen [] es) := by
  unfold Within Limits.Allow
  simp only [mostOpen_le_iff]

end Event

/-- What stops after a first part of the events, with one of the faults of the caps. -/
structure Event.StopsShort (es : List Event) (before : List Event) (e : Fault)
    (after : List Event) : Prop where
  fault : e = .fuelExhausted ∨ e = .recursionLimitExceeded
  events : ∃ part, part <+: es ∧ after = part.reverse ++ before

namespace Event.StopsShort

variable {es es' before middle after : List Event} {e : Fault}

theorem nil (h : e = .fuelExhausted ∨ e = .recursionLimitExceeded) :
    StopsShort es before e before :=
  ⟨h, [], List.nil_prefix, rfl⟩

/-- Events that would have followed do not matter. -/
theorem append (h : StopsShort es before e after) (es' : List Event) :
    StopsShort (es ++ es') before e after := by
  obtain ⟨part, hpart, hafter⟩ := h.events
  exact ⟨h.fault, part, hpart.trans (List.prefix_append es es'), hafter⟩

/-- Events that were over before count as well. -/
theorem after_all (h : StopsShort es' middle e after) (hmiddle : middle = es.reverse ++ before) :
    StopsShort (es ++ es') before e after := by
  obtain ⟨part, hpart, hafter⟩ := h.events
  refine ⟨h.fault, es ++ part, (List.prefix_append_right_inj es).mpr hpart, ?_⟩
  rw [hafter, hmiddle, List.reverse_append, List.append_assoc]

end Event.StopsShort

/-! ## The replay of a record -/

namespace Ledger

/-- The ledger with another number of attempts left. -/
def withFuel (l : Ledger) (fuel : Option Nat) : Ledger := { l with fuel }

variable {limits : Limits} {l l' : Ledger} {stack : List (RuleId × Nat)}

/-- What comes of charging the events to the ledger: they stay within the caps, and what is left of
the ledger is what is left without caps; or they do not, and a fault of the caps stops it. -/
def Charged (limits : Limits) (l : Ledger) (stack : List (RuleId × Nat)) (es : List Event)
    (free : Except (Fault × Ledger) Ledger) : Except (Fault × Ledger) Ledger → Prop
  | .ok l' => Event.Within limits l.fuel stack es ∧ l'.depth = (Event.openRules stack es).length ∧
      l'.fuel = l.fuel.map (· - Event.attempts es) ∧ free = .ok (l'.withFuel none)
  | .error (e, l') => ¬ Event.Within limits l.fuel stack es ∧
      Event.StopsShort es l.events e l'.events

/-- An attempt is paid for if one is left. -/
theorem pay_cases (l : Ledger) : (l.pay = .error (.fuelExhausted, l) ∧ l.fuel = some 0) ∨
    (l.pay = .ok (l.withFuel (l.fuel.map (· - 1))) ∧ l.fuel ≠ some 0) := by
  obtain ⟨depth, fuel, furthest, events⟩ := l
  rcases fuel with _ | _ | n
  · exact Or.inr ⟨rfl, by simp⟩
  · exact Or.inl ⟨rfl, rfl⟩
  · exact Or.inr ⟨rfl, by simp⟩

theorem one_le_of_ne_zero {fuel : Option Nat} (h : fuel ≠ some 0) {f : Nat} (hf : fuel = some f) :
    1 ≤ f := by
  rcases Nat.eq_zero_or_pos f with rfl | hpos
  · exact absurd hf h
  · exact hpos

/-- A reference to a terminal is one attempt and leaves the rules as they are. -/
theorem charged_paid {e : Event} (hattempt : e.isAttempt = true)
    (hopen : Event.openRules stack [e] = stack)
    (htake : ∀ (limits : Limits) (l : Ledger), l.take limits (.event e) = l.pay.map (write e))
    (hl : l.depth = stack.length) (hd : ∀ d, limits.depth = some d → stack.length ≤ d) :
    Charged limits l stack [e] ((l.withFuel none).take {} (.event e))
      (l.take limits (.event e)) := by
  have hone : Event.attempts [e] = 1 := by simp [Event.attempts, hattempt]
  rw [htake, htake]
  rcases l.pay_cases with ⟨hpay, hzero⟩ | ⟨hpay, hleft⟩
  · rw [hpay]
    refine ⟨?_, .nil (Or.inl rfl)⟩
    intro hwithin
    have hle := hwithin.1 0 hzero
    omega
  · rw [hpay]
    refine ⟨⟨?_, ?_⟩, ?_, ?_, rfl⟩
    · intro f hf
      rw [hone]
      exact one_le_of_ne_zero hleft hf
    · intro d hdepth
      rw [Event.shallow_singleton, hopen]
      exact ⟨hd d hdepth, hd d hdepth⟩
    · rw [hopen]
      exact hl
    · rw [hone]
      rfl

/-- Entering a rule is one attempt, and opens one rule more. -/
theorem charged_enter {id : RuleId} {p : Nat} (hl : l.depth = stack.length) :
    Charged limits l stack [.enter id p] ((l.withFuel none).take {} (.event (.enter id p)))
      (l.take limits (.event (.enter id p))) := by
  have htake : l.take limits (.event (.enter id p)) = l.pay.bind fun l =>
      (l.enter limits).bind fun l => .ok (l.write (.enter id p)) := rfl
  have hopen : Event.openRules stack [.enter id p] = (id, p) :: stack := rfl
  rw [htake]
  rcases l.pay_cases with ⟨hpay, hzero⟩ | ⟨hpay, hleft⟩
  · rw [hpay]
    refine ⟨?_, .nil (Or.inl rfl)⟩
    intro hwithin
    have hle : 1 ≤ 0 := hwithin.1 0 hzero
    omega
  · rw [hpay]
    unfold Ledger.enter
    simp only [Except.bind]
    by_cases hcap : limits.depth.any (· ≤ l.depth) = true
    · rw [if_pos (by exact hcap)]
      refine ⟨?_, .nil (Or.inr rfl)⟩
      intro hwithin
      obtain ⟨d, hdepth, hle⟩ := (Option.any_eq_true _ _).mp hcap
      have hshallow := (hwithin.2 d hdepth).length_le
      have hle : d ≤ l.depth := of_decide_eq_true hle
      rw [hopen, List.length_cons] at hshallow
      omega
    · rw [if_neg (by exact hcap)]
      refine ⟨⟨?_, ?_⟩, ?_, rfl, rfl⟩
      · intro f hf
        exact one_le_of_ne_zero hleft hf
      · intro d hdepth
        rw [Event.shallow_singleton, hopen, List.length_cons]
        have hlt : ¬ d ≤ l.depth := by
          intro hle
          exact hcap (by rw [hdepth]; simpa using hle)
        omega
      · show l.depth + 1 = stack.length + 1
        rw [hl]

/-- Taking down one note charges its event, if it has one. -/
theorem charged_take (n : Note) (hl : l.depth = stack.length)
    (hd : ∀ d, limits.depth = some d → stack.length ≤ d) :
    Charged limits l stack (Note.events [n]) ((l.withFuel none).take {} n) (l.take limits n) := by
  have hfree : ∀ {e : Event}, e.isAttempt = false → ∀ f, l.fuel = some f →
      Event.attempts [e] ≤ f := by
    intro e he f _
    simp [Event.attempts, he]
  have hfuel : l.fuel = l.fuel.map (· - 0) := by simp
  cases n with
  | failed p first =>
      refine ⟨⟨fun f _ => Nat.zero_le f, ?_⟩, hl, hfuel, rfl⟩
      intro d hdepth before hbefore
      obtain rfl := List.prefix_nil.mp hbefore
      exact hd d hdepth
  | event e =>
      cases e with
      | enter id p => exact charged_enter hl
      | took t x => exact charged_paid rfl rfl (fun _ _ => rfl) hl hd
      | missed t x => exact charged_paid rfl rfl (fun _ _ => rfl) hl hd
      | exit id b p =>
          have htail : stack.tail.length = stack.length - 1 := List.length_tail
          refine ⟨⟨hfree rfl, ?_⟩, ?_, hfuel, rfl⟩
          · intro d hdepth
            have hle := hd d hdepth
            refine Event.shallow_singleton.mpr ⟨hle, ?_⟩
            show stack.tail.length ≤ d
            omega
          · show l.depth - 1 = stack.tail.length
            rw [htail, hl]
      | refused id p =>
          exact ⟨⟨hfree rfl, fun d hdepth =>
            Event.shallow_singleton.mpr ⟨hd d hdepth, hd d hdepth⟩⟩, hl, hfuel, rfl⟩
      | backtrack id source target =>
          exact ⟨⟨hfree rfl, fun d hdepth =>
            Event.shallow_singleton.mpr ⟨hd d hdepth, hd d hdepth⟩⟩, hl, hfuel, rfl⟩

/-- A record can be replayed exactly if its events stay within the caps, by induction on the notes:
what the first leaves of the caps is what the rest has to stay within. -/
theorem charged_replay (log : List Note) (hl : l.depth = stack.length)
    (hd : ∀ d, limits.depth = some d → stack.length ≤ d) :
    Charged limits l stack (Note.events log) ((l.withFuel none).replay {} log)
      (l.replay limits log) := by
  induction log generalizing l stack with
  | nil =>
      refine ⟨⟨fun f _ => Nat.zero_le f, ?_⟩, hl, by simp [Event.attempts], rfl⟩
      intro d hdepth before hbefore
      obtain rfl := List.prefix_nil.mp hbefore
      exact hd d hdepth
  | cons n log ih =>
      have hsplit : Note.events (n :: log) = Note.events [n] ++ Note.events log :=
        (Note.events_append : Note.events ([n] ++ log) = _)
      have hfirst := charged_take n hl hd
      rw [replay_cons, replay_cons, hsplit]
      cases htake : l.take limits n with
      | error e =>
          rw [htake] at hfirst
          obtain ⟨hnot, hshort⟩ := hfirst
          refine ⟨?_, hshort.append _⟩
          exact fun hwithin => hnot (Event.within_append.mp hwithin).1
      | ok l₁ =>
          rw [htake] at hfirst
          obtain ⟨hwithin, hdepth, hfuel, hfree⟩ := hfirst
          have hrest := ih hdepth fun d hcap => (hwithin.2 d hcap).length_le
          rw [hfree]
          simp only [Except.bind]
          cases hreplay : l₁.replay limits log with
          | error e =>
              rw [hreplay] at hrest
              obtain ⟨hnot, hshort⟩ := hrest
              rw [hfuel] at hnot
              refine ⟨?_, hshort.after_all (take_cases htake).2⟩
              exact fun hboth => hnot (Event.within_append.mp hboth).2
          | ok l₂ =>
              rw [hreplay] at hrest
              obtain ⟨hwithin', hdepth', hfuel', hfree'⟩ := hrest
              rw [hfuel] at hwithin'
              refine ⟨Event.within_append.mpr ⟨hwithin, hwithin'⟩, ?_, ?_, hfree'⟩
              · rw [Event.openRules_append]
                exact hdepth'
              · rw [hfuel', hfuel, Event.map_sub_attempts_append]

end Ledger

end Descent
