import Descent.Match.Trace
import Descent.Proofs.Match.Dispatch
import Descent.Proofs.Match.Outcome

/-!
# Reading a record back

Who reads the events of an evaluation in order can tell at any time where the cursor stands and
which rules are open: a symbol that is taken moves it on by one, giving back moves it where the
event says, and nothing else moves it. `Reading.after?` is such a reader, which gives up at the
first event that does not agree with those before. The events of a run agree throughout
(`Run.after?_eq`), by induction on the run, for any rules that are open around it. The dispatch
tables leave only terminals to try that accept the symbol ahead (`Grammar.sure_of_compile`), so
nothing is missed.

A trace is indented by the rules that the reader has open (`Event.traceFrom_append`).
-/

namespace Descent

/-- Where a reader of events stands: at a position, with some rules open, the innermost first, and
where each was entered. -/
structure Reading where
  position : Nat
  stack : List (RuleId × Nat) := []

/-- The reader takes in one event, if it agrees with what was read before: a rule is entered and
left where the reader stands, and the rule left is the innermost, which ends where it began if it
has not matched and there or further on if it has; what is given back was read by the innermost
rule. No symbol is missed and no rule refused. -/
def Event.read? (r : Reading) : Event → Option Reading
  | enter id p => if p = r.position then some ⟨p, (id, p) :: r.stack⟩ else none
  | exit id matched p =>
    match r.stack with
    | [] => none
    | (opened, start) :: outer =>
      if opened = id ∧ p = r.position ∧ (if matched then start ≤ p else p = start) then
        some ⟨p, outer⟩
      else none
  | took _ _ => some { r with position := r.position + 1 }
  | backtrack id source target =>
    if source = r.position ∧ target < source ∧ r.stack.head?.map (·.1) = some id then
      some { r with position := target }
    else none
  | missed _ _ | refused _ _ => none

namespace Event

variable {r r' : Reading} {id : RuleId}

/-- A reader that asks for something before it goes on. -/
theorem ite_eq_some {q : Prop} [Decidable q] {s : Reading} :
    (if q then some s else none) = some r' ↔ q ∧ r' = s :=
  Option.ite_none_right_eq_some.trans (and_congr_right fun _ => Option.some_inj.trans eq_comm)

theorem read?_enter {p : Nat} : (enter id p).read? r = some r' ↔
    p = r.position ∧ r' = ⟨p, (id, p) :: r.stack⟩ :=
  ite_eq_some

theorem read?_exit {matched : Bool} {p : Nat} : (exit id matched p).read? r = some r' ↔
    p = r.position ∧ ∃ a outer, r.stack = (id, a) :: outer ∧
      (if matched then a ≤ p else p = a) ∧ r' = ⟨p, outer⟩ := by
  obtain ⟨position, stack⟩ := r
  cases stack with
  | nil => simp [read?]
  | cons opened outer =>
      obtain ⟨b, a⟩ := opened
      refine ite_eq_some.trans ?_
      constructor
      · rintro ⟨⟨rfl, hp, hends⟩, rfl⟩
        exact ⟨hp, a, outer, rfl, hends, rfl⟩
      · rintro ⟨hp, a', outer', hstack, hends, rfl⟩
        cases hstack
        exact ⟨⟨rfl, hp, hends⟩, rfl⟩

theorem read?_backtrack {source target : Nat} : (backtrack id source target).read? r = some r' ↔
    (source = r.position ∧ target < source ∧ r.stack.head?.map (·.1) = some id) ∧
      r' = { r with position := target } :=
  ite_eq_some

end Event

/-- Where the reader stands after some events, if they all agree. -/
def Reading.after? (r : Reading) (es : List Event) : Option Reading := es.foldlM Event.read? r

namespace Reading

variable {r r' : Reading} {e : Event} {es es' : List Event}

@[simp] theorem after?_nil : r.after? [] = some r := rfl

theorem after?_cons : r.after? (e :: es) = (e.read? r).bind fun r => r.after? es := rfl

theorem after?_append : r.after? (es ++ es') = (r.after? es).bind fun r => r.after? es' := by
  unfold after?
  rw [List.foldlM_append]
  rfl

theorem after?_trans {mid : Reading} (h : r.after? es = some mid) (h' : mid.after? es' = some r') :
    r.after? (es ++ es') = some r' := by
  rw [after?_append, h]
  exact h'

/-- What agrees up to its end agrees up to any event. -/
theorem exists_after?_of_append (h : r.after? (es ++ es') = some r') :
    ∃ mid, r.after? es = some mid ∧ mid.after? es' = some r' := by
  rw [after?_append] at h
  exact Option.bind_eq_some_iff.mp h

theorem exists_read?_of_cons (h : r.after? (e :: es) = some r') :
    ∃ mid, e.read? r = some mid ∧ mid.after? es = some r' := by
  rw [after?_cons] at h
  exact Option.bind_eq_some_iff.mp h

end Reading

/-! ## The events of a run -/

/-- Whatever is ahead, the terminals that the step tries accept it. -/
def CompiledGrammar.Sure (c : CompiledGrammar) (s : CompiledStep) : Prop :=
  ∀ ahead id, .terminal id ∈ s.tries ahead → ∃ t, ahead = some t ∧ c.accepts id t = true

namespace Fragment

variable (c : CompiledGrammar) (symbols : Array Symbol)

/-- At `p` the fragment tries terminals only that accept the symbol ahead, and what is left of a
sequence is behind its beginning. -/
def Sure (p : Nat) : Fragment → Prop
  | leaf l => ∀ id, l = .terminal id → ∃ y, symbols[p]? = some y ∧ c.accepts id y.terminal = true
  | leaves ls => ∀ id, .terminal id ∈ ls →
      ∃ y, symbols[p]? = some y ∧ c.accepts id y.terminal = true
  | step s => c.Sure s
  | steps _ start ss => start ≤ p ∧ ∀ s ∈ ss, c.Sure s
  | more _ item separator => c.Sure item ∧ c.Sure separator
  | again s => c.Sure s
  | body _ b => ∀ s ∈ b.steps, c.Sure s

/-- The rule that gives back what the fragment itself has read. -/
def rule? : Fragment → Option RuleId
  | steps id .. | more id .. | body id _ => some id
  | leaf _ | leaves _ | step _ | again _ => none

end Fragment

/-- The reader follows the note that a rule gives back what it has read, if the rule is open. -/
theorem Note.after?_backtrack {id : RuleId} {source target start : Nat}
    {outer : List (RuleId × Nat)} (hle : target ≤ source) :
    Reading.after? ⟨source, (id, start) :: outer⟩ (Note.events (Note.backtrack id source target)) =
      some ⟨target, (id, start) :: outer⟩ := by
  unfold Note.backtrack
  by_cases hlt : target < source
  · have hread : (Event.backtrack id source target).read? ⟨source, (id, start) :: outer⟩ = some _ :=
      Event.read?_backtrack.mpr ⟨⟨rfl, hlt, rfl⟩, rfl⟩
    rw [if_pos hlt, Note.events_event, Reading.after?_cons, hread]
    rfl
  · obtain rfl : target = source := by omega
    rw [if_neg hlt]
    rfl

namespace Run

variable {c : CompiledGrammar} {symbols : Array Symbol} {m p q : Nat} {x : Fragment}
  {o : Option (List MatchTree)} {log : List Note}

/-- The events of a run can be read where the run begins, with any rules open around it, and lead to
where the run ends. -/
theorem after?_eq (hc : c.Consistent) (hsteps : ∀ id r, c.rule? id = some r → ∀ s ∈ r.body.steps,
      c.Sure s)
    (h : Run c symbols m x p o q log) (hx : x.Sure c symbols p) (stack : List (RuleId × Nat))
    (hrule : ∀ id, x.rule? = some id → ∃ a outer, stack = (id, a) :: outer) :
    Reading.after? ⟨p, stack⟩ (Note.events log) = some ⟨q, stack⟩ := by
  induction h generalizing stack with
  | took => rfl
  | missed hmissed =>
      obtain ⟨y, hy, haccepts⟩ := hx _ rfl
      rw [hmissed y hy] at haccepts
      cases haccepts
  | @rule m p id r o q log hr hlow body ih =>
      have hbody := ih (hsteps id r hr) ((id, p) :: stack) fun b hb => by
        cases hb
        exact ⟨p, stack, rfl⟩
      have hends : if o.isSome = true then p ≤ q else q = p := by
        cases o with
        | none => exact body.eq_back rfl
        | some ts => exact (body.progress hc rfl).le
      have henter : (Event.enter id p).read? ⟨p, stack⟩ = some ⟨p, (id, p) :: stack⟩ :=
        Event.read?_enter.mpr ⟨rfl, rfl⟩
      have hexit : (Event.exit id o.isSome q).read? ⟨q, (id, p) :: stack⟩ = some ⟨q, stack⟩ :=
        Event.read?_exit.mpr ⟨rfl, p, stack, rfl, hends, rfl⟩
      rw [List.cons_append, Note.events_event, Note.events_append, Reading.after?_cons, henter]
      refine Reading.after?_trans hbody ?_
      rw [Note.events_event, Reading.after?_cons, hexit]
      rfl
  | exhausted | done => rfl
  | first _ ih =>
      exact ih (fun id hid => hx id (hid ▸ List.mem_cons_self)) stack fun id hid => nomatch hid
  | next _ _ ih ihrest =>
      have hleaf := ih (fun id hid => hx id (hid ▸ List.mem_cons_self)) stack fun id hid =>
        nomatch hid
      have hrest := ihrest (fun id hid => hx id (List.mem_cons_of_mem _ hid)) stack hrule
      rw [Note.events_append]
      exact Reading.after?_trans hleaf hrest
  | @step m p s o q log _ _ ih =>
      refine ih ?_ stack fun id hid => nomatch hid
      intro id hid
      obtain ⟨t, hahead, haccepts⟩ := hx _ id hid
      obtain ⟨y, hy, rfl⟩ := Option.map_eq_some_iff.mp hahead
      exact ⟨y, hy, haccepts⟩
  | matched step _ ih ihrest =>
      obtain ⟨hstart, hss⟩ := hx
      obtain ⟨hs, hss⟩ := List.forall_mem_cons.mp hss
      have hstep := ih hs stack fun id hid => nomatch hid
      have hrest := ihrest ⟨hstart.trans (step.progress hc rfl).le, hss⟩ stack hrule
      rw [Note.events_append]
      exact Reading.after?_trans hstep hrest
  | absent _ _ _ ih ihrest =>
      obtain ⟨hstart, hss⟩ := hx
      obtain ⟨hs, hss⟩ := List.forall_mem_cons.mp hss
      have hstep := ih hs stack fun id hid => nomatch hid
      have hrest := ihrest ⟨hstart, hss⟩ stack hrule
      rw [Note.events_append]
      exact Reading.after?_trans hstep hrest
  | failed _ _ ih =>
      obtain ⟨hstart, hss⟩ := hx
      have hstep := ih (hss _ List.mem_cons_self) stack fun id hid => nomatch hid
      obtain ⟨a, outer, rfl⟩ := hrule _ rfl
      rw [Note.events_append, Note.events_failed]
      exact Reading.after?_trans hstep (Note.after?_backtrack hstart)
  | unseparated _ ih => exact ih hx.2 stack fun id hid => nomatch hid
  | givenBack sep _ ih ihstep =>
      have hsep := ih hx.2 stack fun id hid => nomatch hid
      have hstep := ihstep hx.1 stack fun id hid => nomatch hid
      obtain ⟨a, outer, rfl⟩ := hrule _ rfl
      rw [Note.events_append, Note.events_append, Note.events_failed]
      exact Reading.after?_trans hsep (Reading.after?_trans hstep
        (Note.after?_backtrack (sep.progress hc rfl).le))
  | stalled _ _ ih ihstep =>
      have hsep := ih hx.2 stack fun id hid => nomatch hid
      have hstep := ihstep hx.1 stack fun id hid => nomatch hid
      rw [Note.events_append]
      exact Reading.after?_trans hsep hstep
  | item _ _ _ _ ih ihstep ihmore =>
      have hsep := ih hx.2 stack fun id hid => nomatch hid
      have hstep := ihstep hx.1 stack fun id hid => nomatch hid
      rw [Note.events_append, Note.events_append]
      exact Reading.after?_trans hsep (Reading.after?_trans hstep (ihmore hx stack hrule))
  | ended _ ih | idle _ ih => exact ih hx stack hrule
  | again _ _ _ ih ihmore =>
      have hstep := ih hx stack fun id hid => nomatch hid
      rw [Note.events_append]
      exact Reading.after?_trans hstep (ihmore hx stack hrule)
  | sequence _ ih => exact ih ⟨Nat.le_refl _, hx⟩ stack hrule
  | empty _ ih => exact ih (hx _ List.mem_cons_self) stack fun id hid => nomatch hid
  | unmatched _ ih =>
      rw [Note.events_append, Note.events_failed, Note.events_nil, List.append_nil]
      exact ih (hx _ List.mem_cons_self) stack fun id hid => nomatch hid
  | separated _ _ ih ihmore =>
      have hitem := hx _ List.mem_cons_self
      have hseparator := hx _ (List.mem_cons_of_mem _ List.mem_cons_self)
      have hstep := ih hitem stack fun id hid => nomatch hid
      rw [Note.events_append]
      exact Reading.after?_trans hstep (ihmore ⟨hitem, hseparator⟩ stack hrule)
  | cyclic _ ih => exact ih (hx _ List.mem_cons_self) stack fun id hid => nomatch hid

end Run

/-! ## What is tried accepts what is ahead -/

namespace Grammar

variable {α : Type} {g : Grammar α} {root id : RuleId} {c : CompiledGrammar}

theorem sure_compileStep {order : List RuleId} {f : Facts} (hs : Facts.Sound g order)
    (hf : f.Fits g) {s : Step} (hregular : g.Regular order s) (optional : Bool) :
    (g.build root order f).Sure (f.compileStep s optional) := by
  intro ahead id hid
  rw [Facts.tries_compileStep hregular.2, List.mem_filter] at hid
  obtain ⟨hmem, hbegin⟩ := hid
  have hknown : g.terminals.contains id = true := hregular.1 _ hmem
  have hahead : ahead.any (f.leafFirst (.terminal id)).has = true := hbegin
  obtain ⟨t, rfl, ht⟩ := (Option.any_eq_true _ _).mp hahead
  exact ⟨t, rfl, (accepts_iff_mem hs hf root hknown).mpr ((hf.leafFirst_terminal hknown).mp ht)⟩

theorem mem_steps_compileBody {f : Facts} {b : Body} {x : CompiledStep}
    (hx : x ∈ (f.compileBody b).steps) :
    ∃ s ∈ b.whole, ∃ optional, x = f.compileStep s optional := by
  cases b with
  | undefined => cases hx
  | sequence slots =>
      obtain ⟨slot, hslot, rfl⟩ := List.mem_map.mp hx
      exact ⟨slot.step, List.mem_map_of_mem hslot, slot.optional, rfl⟩
  | separated item separator allowEmpty =>
      rcases List.mem_cons.mp hx with rfl | hx
      · exact ⟨item, List.mem_cons_self, false, rfl⟩
      · obtain rfl := List.mem_singleton.mp hx
        exact ⟨separator, List.mem_cons_of_mem _ List.mem_cons_self, false, rfl⟩
  | cyclic alternatives =>
      obtain rfl := List.mem_singleton.mp hx
      exact ⟨.choice alternatives, List.mem_cons_self, false, rfl⟩

/-- The steps of a compiled grammar whose alternatives can be numbered try terminals only that
accept what is ahead. -/
theorem sure_of_compile (hcompile : g.compile root = .ok c)
    (hnumbered : ∀ id r, g.Reachable root id → g.rule? id = some r → ∀ s ∈ r.body.whole,
      s.leaves.length ≤ 65536) :
    ∀ id r, c.rule? id = some r → ∀ s ∈ r.body.steps, c.Sure s := by
  obtain ⟨_, order, hreach, _, rfl⟩ := compile_eq_ok_iff.mp hcompile
  obtain ⟨_, _, _, hsound⟩ := reachable_spec hreach
  intro id r hr x hx
  obtain ⟨hid, y, hy, rfl⟩ := rule?_build_eq_some hr
  obtain ⟨s, hs, optional, rfl⟩ := mem_steps_compileBody hx
  exact sure_compileStep hsound (Facts.fits_of hsound)
    (regular_of_reachable hreach hnumbered id hid y hy s hs) optional

end Grammar

/-! ## Traces -/

namespace Event

variable {c : CompiledGrammar} {v : Verbosity} {r r' : Reading} {e : Event} {es es' : List Event}

/-- The rules that enclose an event where the reader stands. A rule does not enclose the event that
leaves it. -/
def around (r : Reading) : Event → List (RuleId × Nat)
  | exit .. => r.stack.tail
  | _ => r.stack

theorem depthAt_eq (e : Event) : e.depthAt r.stack.length = (e.around r).length := by
  cases e with
  | exit id matched p => exact List.length_tail.symm
  | enter | took | missed | refused | backtrack => rfl

/-- The depth of a trace is the number of rules that the reader has open. -/
theorem depthAfter_eq (h : e.read? r = some r') :
    e.depthAfter r.stack.length = r'.stack.length := by
  cases e with
  | enter id p =>
      obtain ⟨_, rfl⟩ := read?_enter.mp h
      rfl
  | exit id matched p =>
      obtain ⟨_, a, outer, hstack, _, rfl⟩ := read?_exit.mp h
      rw [hstack]
      rfl
  | backtrack id source target =>
      obtain ⟨_, rfl⟩ := read?_backtrack.mp h
      rfl
  | took t x =>
      cases h
      rfl
  | missed | refused => cases h

/-- Reading goes on behind some events, and so does the trace. -/
theorem traceFrom_append (h : r.after? es = some r') :
    traceFrom c v r.stack.length (es ++ es') =
      traceFrom c v r.stack.length es ++ traceFrom c v r'.stack.length es' := by
  induction es generalizing r with
  | nil =>
      cases h
      rfl
  | cons e es ih =>
      obtain ⟨mid, he, hes⟩ := Reading.exists_read?_of_cons h
      rw [List.cons_append, traceFrom, traceFrom, depthAfter_eq he, ih hes, List.append_assoc]

/-- What can be read has the same trace at the two most detailed levels. -/
theorem traceFrom_veryVerbose (h : r.after? es = some r') (depth : Nat) :
    traceFrom c .verbose depth es = traceFrom c .veryVerbose depth es := by
  induction es generalizing r depth with
  | nil => rfl
  | cons e es ih =>
      obtain ⟨mid, he, hes⟩ := Reading.exists_read?_of_cons h
      have hline : e.line? c .verbose = e.line? c .veryVerbose := by
        cases e with
        | missed | refused => cases he
        | exit id matched p => cases matched <;> rfl
        | enter | took | backtrack => rfl
      rw [traceFrom, traceFrom, hline, ih hes]

/-- The events of an evaluation, from where it began to where it ended, are a faithful record: who
reads them can tell at each where the cursor stands and which rules are open, and in the end no rule
is. -/
structure Faithful (c : CompiledGrammar) (start : Nat) (es : List Event) (stop : Nat) : Prop where
  read : Reading.after? ⟨start, []⟩ es = some ⟨stop, []⟩
  /-- What is left is the innermost open rule, at the same position again if it has not matched. -/
  exits : ∀ before id matched p after, es = before ++ .exit id matched p :: after →
    ∃ a outer, Reading.after? ⟨start, []⟩ before = some ⟨p, (id, a) :: outer⟩ ∧
      if matched then a ≤ p else p = a
  missed : ∀ t x, .missed t x ∉ es
  refused : ∀ id p, .refused id p ∉ es
  /-- The two most detailed levels show the same. -/
  levels : trace c .verbose es = trace c .veryVerbose es
  /-- Each line is indented by the rules around its event. -/
  indented : ∀ v before e after, es = before ++ e :: after →
    ∃ r, Reading.after? ⟨start, []⟩ before = some r ∧
      trace c v (before ++ [e]) = trace c v before ++
        ((e.line? c v).map fun l => "".pushn ' ' (2 * (e.around r).length) ++ l).toList ∧
      trace c v (before ++ [e]) <+: trace c v es

/-- What can be read to its end, with all rules closed, is faithful. -/
theorem Faithful.of_after? {start stop : Nat}
    (h : Reading.after? ⟨start, []⟩ es = some ⟨stop, []⟩) : Faithful c start es stop := by
  have hsplit : ∀ before e after, es = before ++ e :: after → ∃ r r',
      Reading.after? ⟨start, []⟩ before = some r ∧ e.read? r = some r' := by
    rintro before e after rfl
    obtain ⟨r, hr, hrest⟩ := Reading.exists_after?_of_append h
    obtain ⟨r', hr', _⟩ := Reading.exists_read?_of_cons hrest
    exact ⟨r, r', hr, hr'⟩
  have hread : ∀ e ∈ es, ∃ r r', e.read? r = some r' := by
    intro e he
    obtain ⟨before, after, heq⟩ := List.append_of_mem he
    obtain ⟨r, r', _, hr'⟩ := hsplit before e after heq
    exact ⟨r, r', hr'⟩
  exact
    { read := h
      exits := by
        intro before id matched p after heq
        obtain ⟨r, r', hr, hr'⟩ := hsplit before _ after heq
        obtain ⟨rfl, a, outer, hstack, hends, _⟩ := read?_exit.mp hr'
        refine ⟨a, outer, ?_, hends⟩
        rw [hr, ← hstack]
      missed := by
        intro t x hmem
        obtain ⟨r, r', hr'⟩ := hread _ hmem
        cases hr'
      refused := by
        intro id p hmem
        obtain ⟨r, r', hr'⟩ := hread _ hmem
        cases hr'
      levels := traceFrom_veryVerbose h 0
      indented := by
        intro v before e after heq
        obtain ⟨r, r', hr, hr'⟩ := hsplit before e after heq
        have hline : traceFrom c v r.stack.length [e] =
            ((e.line? c v).map fun l => "".pushn ' ' (2 * (e.around r).length) ++ l).toList := by
          rw [traceFrom, traceFrom, depthAt_eq, List.append_nil]
        have hnext : Reading.after? ⟨start, []⟩ (before ++ [e]) = some r' := by
          refine Reading.after?_trans hr ?_
          rw [Reading.after?_cons, hr']
          rfl
        refine ⟨r, hr, ?_, traceFrom c v r'.stack.length after, ?_⟩
        · rw [← hline]
          exact traceFrom_append hr
        · have hwhole : es = before ++ [e] ++ after := by rw [heq, List.append_cons]
          rw [hwhole]
          exact (traceFrom_append hnext).symm }

end Event

namespace Grammar

variable {α : Type} {g : Grammar α} {root id : RuleId} {c : CompiledGrammar}

/-- The events of an evaluation that has come to an answer are a faithful record. -/
theorem faithful_of_evaluate (hcompile : g.compile root = .ok c)
    (hnumbered : ∀ id r, g.Reachable root id → g.rule? id = some r → ∀ s ∈ r.body.whole,
      s.leaves.length ≤ 65536)
    (hid : g.Reachable root id) {limits : Limits} {s t : EvalState} {o : Option MatchTree}
    {es : List Event} (hs : s.Ready c) (heval : c.evaluate limits id s = .ok o t)
    (hevents : t.events = es.reverse ++ s.events) :
    Event.Faithful c s.cursor.position es t.cursor.position := by
  have hc := consistent_of_compile hcompile
  have hmem : id ∈ c.order := ((covers_of_compile hcompile).mem_order id).mpr hid
  obtain ⟨m, log, hrun, _, _, hlog⟩ := exists_run_of_evaluate hc hmem hs heval
  have heq : es = Note.events log :=
    List.reverse_injective (List.append_cancel_right (hevents.symm.trans hlog))
  rw [heq]
  exact .of_after? (hrun.after?_eq hc (sure_of_compile hcompile hnumbered)
    (fun _ h => nomatch h) [] fun _ h => nomatch h)

end Grammar

end Descent
