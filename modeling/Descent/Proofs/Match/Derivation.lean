import Descent.Proofs.Match.Dispatch
import Descent.Proofs.Match.Outcome
import Descent.Proofs.Match.Postorder

/-!
# What a match tree stands for

`Derives` is how the rules, as they are written, account for a match: which step each tree came from
and which symbols lie below it. What was tried and given up, what separators matched and iterations
that read nothing leave no tree. Every match of an evaluation has a derivation (`derives_of_run`),
so its symbols stand in order and each rule's children are what its body says (`Derives.shape`).
-/

namespace Descent

/-- The part of the grammar matches from `p` to `q`, and these are the trees that are kept of it. -/
inductive Derives {α : Type} (g : Grammar α) (symbols : Array Symbol) :
    Part → Nat → List MatchTree → Nat → Prop where
  | took {p id x} (hx : symbols[p]? = some x) (h : x.terminal ∈ g.terminals.accepted id) :
      Derives g symbols (.step (.terminal id)) p [.symbol p] (p + 1)
  | reference {p id r ts q} (hr : g.rule? id = some r)
      (body : Derives g symbols (.body r.body) p ts q) :
      Derives g symbols (.step (.rule id)) p [.rule id ts] q
  | choice {p ss s ts q} (hs : s ∈ ss) (step : Derives g symbols (.step s) p ts q) :
      Derives g symbols (.step (.choice ss)) p ts q
  | done {p} : Derives g symbols (.slots []) p [] p
  | matched {p slot slots ts us q r} (step : Derives g symbols (.step slot.step) p ts q)
      (rest : Derives g symbols (.slots slots) q us r) :
      Derives g symbols (.slots (slot :: slots)) p (ts ++ us) r
  | absent {p slot slots us r} (hoptional : slot.optional = true)
      (rest : Derives g symbols (.slots slots) p us r) :
      Derives g symbols (.slots (slot :: slots)) p (.absent :: us) r
  | noMore {p item separator} : Derives g symbols (.more item separator) p [] p
  /-- The trees of the separator are not kept. -/
  | item {p item separator us ts rest q q' q''}
      (sep : Derives g symbols (.step separator) p us q)
      (step : Derives g symbols (.step item) q ts q') (hread : p < q')
      (more : Derives g symbols (.more item separator) q' rest q'') :
      Derives g symbols (.more item separator) p (ts ++ rest) q''
  | ended {p ss} : Derives g symbols (.again ss) p [] p
  | again {p ss ts rest q q'} (step : Derives g symbols (.step (.choice ss)) p ts q)
      (hread : p < q) (more : Derives g symbols (.again ss) q rest q') :
      Derives g symbols (.again ss) p (ts ++ rest) q'
  | sequence {p slots ts q} (steps : Derives g symbols (.slots slots) p ts q) :
      Derives g symbols (.body (.sequence slots)) p ts q
  | empty {p item separator} : Derives g symbols (.body (.separated item separator true)) p [] p
  | separated {p item separator allowEmpty ts rest q q'}
      (step : Derives g symbols (.step item) p ts q)
      (more : Derives g symbols (.more item separator) q rest q') :
      Derives g symbols (.body (.separated item separator allowEmpty)) p (ts ++ rest) q'
  | cyclic {p ss ts q} (more : Derives g symbols (.again ss) p ts q) :
      Derives g symbols (.body (.cyclic ss)) p ts q

namespace MatchTree

/-- The position of a node that is a symbol. -/
def position? : MatchTree → Option Nat
  | symbol i => some i
  | _ => none

/-- The positions of the symbols in some trees, from left to right. -/
def positions (ts : List MatchTree) : List Nat := (postorderAll ts).filterMap position?

theorem postorderAll_append (ts us : List MatchTree) :
    postorderAll (ts ++ us) = postorderAll ts ++ postorderAll us := by
  induction ts with
  | nil => rfl
  | cons t ts ih =>
      rw [List.cons_append, postorderAll, postorderAll, ih, List.append_assoc]

theorem positions_append (ts us : List MatchTree) :
    positions (ts ++ us) = positions ts ++ positions us := by
  unfold positions
  rw [postorderAll_append, List.filterMap_append]

theorem positions_rule (id : RuleId) (ts : List MatchTree) :
    positions [.rule id ts] = positions ts := by
  simp [positions, postorderAll, postorder, position?]

theorem positions_absent (ts : List MatchTree) : positions (.absent :: ts) = positions ts := by
  simp [positions, postorderAll, postorder, position?, List.filterMap_cons]

/-- The numbers rise, from `p` on and below `q`. -/
structure Ascend (p q : Nat) (is : List Nat) : Prop where
  le : p ≤ q
  ascending : is.Pairwise (· < ·)
  bounds : ∀ i ∈ is, p ≤ i ∧ i < q

namespace Ascend

variable {p q r : Nat} {is js : List Nat}

theorem nil (h : p ≤ q) : Ascend p q [] := ⟨h, .nil, by simp⟩

theorem append (h : Ascend p q is) (h' : Ascend q r js) : Ascend p r (is ++ js) := by
  have hpq := h.le
  have hqr := h'.le
  refine ⟨hpq.trans hqr, List.pairwise_append.mpr ⟨h.ascending, h'.ascending, ?_⟩, ?_⟩
  · intro i hi j hj
    exact (h.bounds i hi).2.trans_le (h'.bounds j hj).1
  · intro i hi
    rcases List.mem_append.mp hi with hi | hi
    · have hbounds := h.bounds i hi
      omega
    · have hbounds := h'.bounds i hi
      omega

end Ascend

end MatchTree

namespace Derives

open MatchTree

variable {α : Type} {g : Grammar α} {symbols : Array Symbol} {x : Part} {p q : Nat}
  {ts : List MatchTree}

/-- The symbols that are kept stand in order and within what is matched. -/
theorem ascend (h : Derives g symbols x p ts q) : Ascend p q (positions ts) := by
  induction h with
  | @took p => exact ⟨Nat.le_succ p, by simp [positions, postorderAll, postorder, position?],
      by simp [positions, postorderAll, postorder, position?]⟩
  | reference _ _ ih =>
      rw [positions_rule]
      exact ih
  | choice _ _ ih | sequence _ ih | cyclic _ ih => exact ih
  | done | noMore | ended | empty => exact .nil (Nat.le_refl _)
  | matched _ _ ih ih' | again _ _ _ ih ih' | separated _ _ ih ih' =>
      rw [positions_append]
      exact ih.append ih'
  | absent _ _ ih =>
      rw [positions_absent]
      exact ih
  | item _ _ _ _ ihsep ih ih' =>
      -- the separator takes up room, although nothing is kept of it
      have hbefore : Ascend _ _ [] := .nil ihsep.le
      rw [positions_append]
      exact hbefore.append (ih.append ih')

/-- A step leaves one tree. -/
theorem exists_eq_singleton {s : Step} (h : Derives g symbols (.step s) p ts q) :
    ∃ t, ts = [t] := by
  generalize hx : Part.step s = x at h
  induction h generalizing s with
  | took => exact ⟨_, rfl⟩
  | reference => exact ⟨_, rfl⟩
  | choice _ _ ih => exact ih rfl
  | _ => cases hx

end Derives

/-! ## The children of a rule -/

/-- The step left this tree somewhere in the symbols. -/
def Step.Leaves {α : Type} (g : Grammar α) (symbols : Array Symbol) (s : Step) (t : MatchTree) :
    Prop :=
  ∃ p q, Derives g symbols (.step s) p [t] q

/-- What the children of a rule with the body are: for a sequence one for each step, for a
repetition one for each item that is kept. -/
def Body.Shape {α : Type} (g : Grammar α) (symbols : Array Symbol) (children : List MatchTree) :
    Body → Prop
  | .undefined => False
  | .sequence slots => List.Forall₂ (fun slot t =>
      slot.step.Leaves g symbols t ∨ (slot.optional = true ∧ t = .absent)) slots children
  | .separated item _ allowEmpty =>
      (∀ t ∈ children, item.Leaves g symbols t) ∧ (children = [] → allowEmpty = true)
  | .cyclic alternatives => ∀ t ∈ children, ∃ p q, p < q ∧
      Derives g symbols (.step (.choice alternatives)) p [t] q

namespace Derives

open MatchTree

variable {α : Type} {g : Grammar α} {symbols : Array Symbol} {x : Part} {p q : Nat}
  {ts : List MatchTree}

theorem forall₂_slots {slots : List Slot} (h : Derives g symbols (.slots slots) p ts q) :
    List.Forall₂ (fun slot t => slot.step.Leaves g symbols t ∨
      (slot.optional = true ∧ t = .absent)) slots ts := by
  induction slots generalizing p ts with
  | nil =>
      cases h
      exact .nil
  | cons slot slots ih =>
      cases h with
      | matched step rest =>
          obtain ⟨t, rfl⟩ := step.exists_eq_singleton
          exact .cons (Or.inl ⟨_, _, step⟩) (ih rest)
      | absent hoptional rest => exact .cons (Or.inr ⟨hoptional, rfl⟩) (ih rest)

theorem leaves_of_more {item separator : Step}
    (h : Derives g symbols (.more item separator) p ts q) :
    ∀ t ∈ ts, item.Leaves g symbols t := by
  generalize hx : Part.more item separator = x at h
  induction h with
  | noMore => simp
  | item _ step _ _ _ _ ih =>
      cases hx
      obtain ⟨t, rfl⟩ := step.exists_eq_singleton
      exact List.forall_mem_cons.mpr ⟨⟨_, _, step⟩, ih rfl⟩
  | _ => cases hx

theorem reads_of_again {alternatives : List Step}
    (h : Derives g symbols (.again alternatives) p ts q) :
    ∀ t ∈ ts, ∃ p q, p < q ∧ Derives g symbols (.step (.choice alternatives)) p [t] q := by
  generalize hx : Part.again alternatives = x at h
  induction h with
  | ended => simp
  | again step hread _ _ ih =>
      cases hx
      obtain ⟨t, rfl⟩ := step.exists_eq_singleton
      exact List.forall_mem_cons.mpr ⟨⟨_, _, hread, step⟩, ih rfl⟩
  | _ => cases hx

/-- The children of a rule are what its body says. -/
theorem shape {b : Body} (h : Derives g symbols (.body b) p ts q) : b.Shape g symbols ts := by
  cases h with
  | sequence steps => exact steps.forall₂_slots
  | empty => exact ⟨by simp, fun _ => rfl⟩
  | separated step more =>
      obtain ⟨t, rfl⟩ := step.exists_eq_singleton
      exact ⟨List.forall_mem_cons.mpr ⟨⟨_, _, step⟩, more.leaves_of_more⟩, by simp⟩
  | cyclic more => exact more.reads_of_again

/-- Every rule in a match tree has the children that its body says. -/
theorem shape_of_mem (h : Derives g symbols x p ts q) {id : RuleId} {children : List MatchTree}
    (hmem : .rule id children ∈ postorderAll ts) :
    ∃ r, g.rule? id = some r ∧ r.body.Shape g symbols children := by
  induction h with
  | took => simp [postorderAll, postorder] at hmem
  | @reference _ _ r _ _ hr body ih =>
      rw [postorderAll, postorderAll, List.append_nil, postorder, List.mem_append,
        List.mem_singleton] at hmem
      rcases hmem with hbelow | heq
      · exact ih hbelow
      · cases heq
        exact ⟨r, hr, body.shape⟩
  | choice _ _ ih | sequence _ ih | cyclic _ ih => exact ih hmem
  | done | noMore | ended | empty => simp [postorderAll] at hmem
  | absent _ _ ih =>
      rw [postorderAll, postorder, List.mem_append] at hmem
      rcases hmem with habsent | hrest
      · simp at habsent
      · exact ih hrest
  | matched _ _ ih ih' | again _ _ _ ih ih' | separated _ _ ih ih' | item _ _ _ _ _ ih ih' =>
      rw [postorderAll_append, List.mem_append] at hmem
      rcases hmem with hfirst | hrest
      · exact ih hfirst
      · exact ih' hrest

mutual

theorem of_mem_leaves : ∀ (s : Step) {l : Leaf}, l ∈ s.leaves →
    Derives g symbols (.step l.toStep) p ts q → Derives g symbols (.step s) p ts q
  | .terminal id, l, hl, h => by
      rw [Step.leaves, List.mem_singleton] at hl
      rwa [hl] at h
  | .rule id, l, hl, h => by
      rw [Step.leaves, List.mem_singleton] at hl
      rwa [hl] at h
  | .choice ss, l, hl, h => by
      rw [Step.leaves] at hl
      obtain ⟨s, hs, hstep⟩ := of_mem_leavesOfAll ss hl h
      exact .choice hs hstep

theorem of_mem_leavesOfAll : ∀ (ss : List Step) {l : Leaf}, l ∈ Step.leavesOfAll ss →
    Derives g symbols (.step l.toStep) p ts q → ∃ s ∈ ss, Derives g symbols (.step s) p ts q
  | [], l, hl, _ => by simp [Step.leavesOfAll] at hl
  | s :: ss, l, hl, h => by
      rw [Step.leavesOfAll, List.mem_append] at hl
      rcases hl with hl | hl
      · exact ⟨s, List.mem_cons_self, of_mem_leaves s hl h⟩
      · obtain ⟨s', hs', hstep⟩ := of_mem_leavesOfAll ss hl h
        exact ⟨s', List.mem_cons_of_mem s hs', hstep⟩

end

end Derives

/-! ## Every match has a derivation -/

namespace Grammar

variable {α : Type}

/-- What a match of a fragment says of the part of the grammar that it was compiled from. -/
def Explains (g : Grammar α) (order : List RuleId) (f : Facts) (symbols : Array Symbol)
    (x : Fragment) (p : Nat) (ts : List MatchTree) (q : Nat) : Prop :=
  match x with
  | .leaf l => g.LeafKnown order l → Derives g symbols (.step l.toStep) p ts q
  | .leaves ls => (∀ l ∈ ls, g.LeafKnown order l) →
      ∃ l ∈ ls, Derives g symbols (.step l.toStep) p ts q
  | .step st => ∀ s optional, st = f.compileStep s optional →
      (∀ l ∈ s.leaves, g.LeafKnown order l) → Derives g symbols (.step s) p ts q
  | .steps _ _ ss => ∀ slots : List Slot,
      ss = slots.map (fun slot => f.compileStep slot.step slot.optional) →
      (∀ slot ∈ slots, ∀ l ∈ slot.step.leaves, g.LeafKnown order l) →
      Derives g symbols (.slots slots) p ts q
  | .more _ item separator => ∀ s s', item = f.compileStep s false →
      separator = f.compileStep s' false → (∀ l ∈ s.leaves, g.LeafKnown order l) →
      (∀ l ∈ s'.leaves, g.LeafKnown order l) → Derives g symbols (.more s s') p ts q
  | .again st => ∀ ss, st = f.compileStep (.choice ss) false →
      (∀ l ∈ (Step.choice ss).leaves, g.LeafKnown order l) → Derives g symbols (.again ss) p ts q
  | .body _ b => ∀ b', b = f.compileBody b' → b' ≠ .undefined →
      (∀ s ∈ b'.whole, ∀ l ∈ s.leaves, g.LeafKnown order l) → Derives g symbols (.body b') p ts q

section

variable {g : Grammar α} {root : RuleId} {order : List RuleId} {f : Facts}
  {symbols : Array Symbol} (hs : Facts.Sound g order) (hf : f.Fits g)
  (hknown : ∀ id ∈ order, ∀ r, g.rule? id = some r → ∀ s ∈ r.body.whole, ∀ l ∈ s.leaves,
    g.LeafKnown order l)

include hs hf hknown in
theorem derives_of_run {m p q : Nat} {x : Fragment} {o : Option (List MatchTree)} {log : List Note}
    (h : Run (g.build root order f) symbols m x p o q log) {ts : List MatchTree}
    (ho : o = some ts) : g.Explains order f symbols x p ts q := by
  induction h generalizing ts with
  | took hx haccepts =>
      cases ho
      exact fun hid => .took hx ((accepts_iff_mem hs hf root hid).mp haccepts)
  | rule hr _ _ ih =>
      obtain ⟨us, rfl, rfl⟩ := Option.map_eq_some_iff.mp ho
      obtain ⟨hid, y, hy, rfl⟩ := rule?_build_eq_some hr
      obtain ⟨_, hy', hwf⟩ := hs _ hid
      cases hy.symm.trans hy'
      exact fun _ => .reference hy (ih rfl y.body rfl hwf.defined (hknown _ hid y hy))
  | first _ ih =>
      intro hls
      exact ⟨_, List.mem_cons_self, ih ho (hls _ List.mem_cons_self)⟩
  | next _ _ _ ih =>
      intro hls
      obtain ⟨l, hl, hstep⟩ := ih ho fun l hl => hls l (List.mem_cons_of_mem _ hl)
      exact ⟨l, List.mem_cons_of_mem _ hl, hstep⟩
  | step _ _ ih =>
      rintro s optional rfl hs
      have htried : ∀ ahead, ∀ l ∈ (f.compileStep s optional).tries ahead, l ∈ s.leaves :=
        fun ahead l hl => mem_branches_compileStep.mp (CompiledStep.mem_branches_of_mem_tries hl)
      obtain ⟨l, hl, hstep⟩ := ih ho fun l hl => hs l (htried _ l hl)
      exact .of_mem_leaves s (htried _ l hl) hstep
  | done =>
      cases ho
      intro slots heq _
      obtain rfl := List.map_eq_nil_iff.mp heq.symm
      exact .done
  | matched _ _ ih ihrest =>
      obtain ⟨us, rfl, rfl⟩ := Option.map_eq_some_iff.mp ho
      intro slots heq hslots
      obtain ⟨slot, slots, rfl, rfl, rfl⟩ := List.map_eq_cons_iff.mp heq.symm
      obtain ⟨hslot, hslots⟩ := List.forall_mem_cons.mp hslots
      exact .matched (ih rfl slot.step slot.optional rfl hslot) (ihrest rfl slots rfl hslots)
  | absent _ hoptional _ _ ihrest =>
      obtain ⟨us, rfl, rfl⟩ := Option.map_eq_some_iff.mp ho
      intro slots heq hslots
      obtain ⟨slot, slots, rfl, rfl, rfl⟩ := List.map_eq_cons_iff.mp heq.symm
      exact .absent hoptional (ihrest rfl slots rfl (List.forall_mem_cons.mp hslots).2)
  | unseparated | givenBack | stalled =>
      cases ho
      exact fun _ _ _ _ _ _ => .noMore
  | item _ _ hread _ ih ihstep ihmore =>
      cases ho
      rintro s s' rfl rfl hs hs'
      exact .item (ih rfl s' false rfl hs') (ihstep rfl s false rfl hs) hread
        (ihmore rfl s s' rfl rfl hs hs')
  | ended | idle =>
      cases ho
      exact fun _ _ _ => .ended
  | again _ hread _ ih ihmore =>
      cases ho
      rintro ss rfl hss
      exact .again (ih rfl (.choice ss) false rfl hss) hread (ihmore rfl ss rfl hss)
  | sequence _ ih =>
      intro b hb hdefined hwhole
      cases b with
      | undefined => exact absurd rfl hdefined
      | sequence slots =>
          cases hb
          exact .sequence (ih ho slots rfl fun slot hslot => hwhole _ (List.mem_map_of_mem hslot))
      | separated | cyclic => cases hb
  | empty =>
      cases ho
      intro b hb _ _
      cases b with
      | separated item separator allowEmpty =>
          cases hb
          exact .empty
      | undefined | sequence | cyclic => cases hb
  | separated _ _ ih ihmore =>
      cases ho
      intro b hb _ hwhole
      cases b with
      | separated item separator allowEmpty =>
          cases hb
          have hitem := hwhole item (by simp [Body.whole])
          exact .separated (ih rfl item false rfl hitem)
            (ihmore rfl item separator rfl rfl hitem (hwhole separator (by simp [Body.whole])))
      | undefined | sequence | cyclic => cases hb
  | cyclic _ ih =>
      intro b hb _ hwhole
      cases b with
      | cyclic alternatives =>
          cases hb
          exact .cyclic (ih ho alternatives rfl (hwhole _ (by simp [Body.whole])))
      | undefined | sequence | separated => cases hb
  | missed | exhausted | failed | unmatched => cases ho

end

/-- What a reachable rule of a compiled grammar matches has a derivation. -/
theorem derives_of_matched? {g : Grammar α} {root id : RuleId} {c : CompiledGrammar}
    (hcompile : g.compile root = .ok c) (hid : g.Reachable root id) {symbols : Array Symbol}
    {p q : Nat} {tree : MatchTree} (h : c.matched? symbols id p = some (tree, q)) :
    Derives g symbols (.step (.rule id)) p [tree] q := by
  have hc := consistent_of_compile hcompile
  have hmem : id ∈ c.order := ((covers_of_compile hcompile).mem_order id).mpr hid
  obtain ⟨m, log, hrun⟩ := c.run_of_matched? hc hmem h
  obtain ⟨_, order, hreach, _, rfl⟩ := compile_eq_ok_iff.mp hcompile
  obtain ⟨_, _, _, hsound⟩ := reachable_spec hreach
  exact derives_of_run hsound (Facts.fits_of hsound) (leafKnown_of_reachable hreach) hrun rfl hmem

end Grammar

end Descent
