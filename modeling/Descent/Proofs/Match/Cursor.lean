import Descent.Match.Cursor

/-!
# A cursor under any requests

Whatever is asked of a cursor, and in whatever order, its mark is not behind its position and its
position is not behind the last symbol. A move back is refused exactly if it would cross the mark or
go forward, and then nothing changes; what is read between two moves back is a slice of the symbols
(`serve_keeps_contract`).

`Serves` says without any subtraction what a request may come to. That a request is served so needs
the bounds, and the bounds of the next cursor follow from it alone. `WordCursor` is the same cursor
with counters of 64 bits, and a check that subtracts before it compares: it stays in step with the
first as long as that difference does not wrap around, which is again due to the bounds.
-/

namespace Descent

namespace Cursor

/-! ## Requests -/

/-- What is asked of a cursor. Counts and targets are words of 64 bits. -/
inductive Request where
  | peek
  | peekId
  | advance
  | rollback (n : UInt64)
  | rollbackTo (target : UInt64)
  | commit
deriving Repr, DecidableEq

inductive Reply where
  | symbol (s : Option Symbol)
  | terminal (id : Option TerminalId)
  | done
  | refused (e : CursorError)
deriving Repr, DecidableEq

def Reply.Refused (r : Reply) : Prop := ∃ e, r = .refused e

/-- A move that is refused leaves the cursor where it is. -/
def moved (c : Cursor) : Except CursorError Cursor → Reply × Cursor
  | .ok d => (.done, d)
  | .error e => (.refused e, c)

/-- Does what is asked: the reply, and the cursor after it. -/
def handle (c : Cursor) : Request → Reply × Cursor
  | .peek => (.symbol c.peek?, c)
  | .peekId => (.terminal c.peekId?, c)
  | .advance => (.symbol c.advance.1, c.advance.2)
  | .rollback n => c.moved (c.rollback n.toNat)
  | .rollbackTo target => c.moved (c.rollbackTo target.toNat)
  | .commit => (.done, c.commit)

/-- What came of a request: the reply, and the cursor before and after. -/
structure Service where
  request : Request
  before : Cursor
  reply : Reply
  after : Cursor

namespace Service

/-- The cursor is further back than before. -/
def Backward (x : Service) : Prop := x.after.position < x.before.position

instance (x : Service) : Decidable x.Backward :=
  inferInstanceAs (Decidable (x.after.position < x.before.position))

/-- The symbol that was read, if the request was to advance and there was one. -/
def read? (x : Service) : Option Symbol :=
  match x.request, x.reply with
  | .advance, .symbol s => s
  | _, _ => none

end Service

def reads (log : List Service) : List Symbol := log.filterMap Service.read?

/-- Does what is asked, one after the other, and goes on after a refusal. -/
def serve (c : Cursor) : List Request → List Service × Cursor
  | [] => ([], c)
  | request :: requests =>
    let (reply, d) := c.handle request
    let (log, e) := d.serve requests
    (⟨request, c, reply, d⟩ :: log, e)

/-- What a request may come to: the reply, and the cursor after it. -/
inductive Serves (c : Cursor) : Request → Reply → Cursor → Prop where
  | peek : Serves c .peek (.symbol c.symbols[c.position]?) c
  | peekId : Serves c .peekId (.terminal (c.symbols[c.position]?.map (·.terminal))) c
  | advance {s : Symbol} (h : c.symbols[c.position]? = some s) :
      Serves c .advance (.symbol (some s)) { c with position := c.position + 1 }
  | atEnd (h : c.position = c.symbols.size) : Serves c .advance (.symbol none) c
  | rollback {n : UInt64} {p : Nat} (hn : p + n.toNat = c.position) (hp : c.committed ≤ p) :
      Serves c (.rollback n) .done { c with position := p }
  | refuseRollback {n : UInt64} (h : c.position < c.committed + n.toNat) :
      Serves c (.rollback n) (.refused (.rollback n.toNat c.position c.committed)) c
  | rollbackTo {target : UInt64} (hc : c.committed ≤ target.toNat)
      (hp : target.toNat ≤ c.position) :
      Serves c (.rollbackTo target) .done { c with position := target.toNat }
  | refuseRollbackTo {target : UInt64}
      (h : target.toNat < c.committed ∨ c.position < target.toNat) :
      Serves c (.rollbackTo target)
        (.refused (.rollbackTo target.toNat c.position c.committed)) c
  | commit : Serves c .commit .done { c with committed := c.position }

/-- The mark is not behind the position, and the position not behind the last symbol. -/
structure Bounded (c : Cursor) : Prop where
  committed_le : c.committed ≤ c.position
  position_le : c.position ≤ c.symbols.size

/-- What requests may make of a cursor. -/
structure Keeps (c d : Cursor) : Prop where
  bounded : d.Bounded
  symbols : d.symbols = c.symbols
  committed_le : c.committed ≤ d.committed

section

variable {c d : Cursor} {request : Request} {reply : Reply}

theorem Bounded.start (symbols : Array Symbol) : Bounded { symbols } :=
  ⟨Nat.le_refl 0, Nat.zero_le _⟩

theorem Bounded.keeps (h : c.Bounded) : c.Keeps c := ⟨h, rfl, Nat.le_refl _⟩

theorem Keeps.trans {e : Cursor} (h : c.Keeps d) (h' : d.Keeps e) : c.Keeps e :=
  ⟨h'.bounded, h'.symbols.trans h.symbols, Nat.le_trans h.committed_le h'.committed_le⟩

/-! ## One request -/

theorem Bounded.serves_advance (h : c.Bounded) :
    c.Serves .advance (.symbol c.advance.1) c.advance.2 := by
  unfold Cursor.advance
  split
  · next hnone =>
      have hsize : c.symbols.size ≤ c.position := Array.getElem?_eq_none_iff.mp hnone
      exact .atEnd (Nat.le_antisymm h.position_le hsize)
  · next s hsome => exact .advance hsome

/-- The check compares with a difference, which is the distance to the mark as that is not behind
the position. -/
theorem Bounded.serves_rollback (h : c.Bounded) (n : UInt64) :
    c.Serves (.rollback n) (c.moved (c.rollback n.toNat)).1 (c.moved (c.rollback n.toNat)).2 := by
  have hle := h.committed_le
  unfold Cursor.rollback
  split
  · next hn => exact .rollback (Nat.sub_add_cancel (by omega)) (by omega)
  · next hn => exact .refuseRollback (by omega)

theorem serves_rollbackTo (c : Cursor) (target : UInt64) :
    c.Serves (.rollbackTo target) (c.moved (c.rollbackTo target.toNat)).1
      (c.moved (c.rollbackTo target.toNat)).2 := by
  unfold Cursor.rollbackTo
  split
  · next ht => exact .rollbackTo ht.1 ht.2
  · next ht => exact .refuseRollbackTo (by omega)

theorem Bounded.serves (h : c.Bounded) (request : Request) :
    c.Serves request (c.handle request).1 (c.handle request).2 := by
  cases request with
  | peek => exact .peek
  | peekId => exact .peekId
  | advance => exact h.serves_advance
  | rollback n => exact h.serves_rollback n
  | rollbackTo target => exact c.serves_rollbackTo target
  | commit => exact .commit

theorem Serves.keeps (hserves : c.Serves request reply d) (h : c.Bounded) : c.Keeps d := by
  have hcommitted := h.committed_le
  have hposition := h.position_le
  cases hserves with
  | advance hsome =>
      have hlt : c.position < c.symbols.size := (Array.getElem?_eq_some_iff.mp hsome).choose
      exact ⟨⟨Nat.le_succ_of_le hcommitted, hlt⟩, rfl, Nat.le_refl _⟩
  | rollback hn hp =>
      exact ⟨⟨hp, Nat.le_trans (Nat.le.intro hn) hposition⟩, rfl, Nat.le_refl _⟩
  | rollbackTo hc hp => exact ⟨⟨hc, Nat.le_trans hp hposition⟩, rfl, Nat.le_refl _⟩
  | commit => exact ⟨⟨Nat.le_refl _, hposition⟩, rfl, hcommitted⟩
  | _ => exact h.keeps

theorem Serves.eq_of_refused (h : c.Serves request reply d) (hrefused : reply.Refused) :
    d = c := by
  obtain ⟨e, rfl⟩ := hrefused
  cases h <;> rfl

theorem Serves.rollback_refused_iff {n : UInt64} (h : c.Serves (.rollback n) reply d) :
    reply.Refused ↔ (c.position : Int) - c.committed < n.toNat := by
  cases h with
  | rollback hn hp =>
      constructor
      · rintro ⟨e, he⟩
        cases he
      · intro hlt
        omega
  | refuseRollback h => exact ⟨fun _ => by omega, fun _ => ⟨_, rfl⟩⟩

theorem Serves.rollbackTo_refused_iff {target : UInt64}
    (h : c.Serves (.rollbackTo target) reply d) :
    reply.Refused ↔ ¬ (c.committed ≤ target.toNat ∧ target.toNat ≤ c.position) := by
  cases h with
  | rollbackTo hc hp =>
      constructor
      · rintro ⟨e, he⟩
        cases he
      · intro hout
        exact absurd ⟨hc, hp⟩ hout
  | refuseRollbackTo h => exact ⟨fun _ => by omega, fun _ => ⟨_, rfl⟩⟩

/-- What a request reads is what the cursor passes. -/
theorem Serves.read?_eq_extract (h : c.Serves request reply d) :
    (Service.read? ⟨request, c, reply, d⟩).toList =
      (c.symbols.extract c.position d.position).toList := by
  cases h with
  | advance hsome =>
      obtain ⟨hlt, rfl⟩ := Array.getElem?_eq_some_iff.mp hsome
      have hpush := Array.push_extract_getElem (i := c.position) hlt
      rw [Nat.min_self, Array.extract_empty_of_stop_le_start (Nat.le_refl _)] at hpush
      exact congrArg Array.toList hpush
  | rollback hn hp =>
      rw [Array.extract_empty_of_stop_le_start (Nat.le.intro hn)]
      rfl
  | rollbackTo hc hp =>
      rw [Array.extract_empty_of_stop_le_start hp]
      rfl
  | _ =>
      rw [Array.extract_empty_of_stop_le_start (Nat.le_refl _)]
      rfl

/-! ## All requests -/

theorem serve_cons (c : Cursor) (request : Request) (requests : List Request) :
    c.serve (request :: requests) =
      (⟨request, c, (c.handle request).1, (c.handle request).2⟩ ::
        ((c.handle request).2.serve requests).1, ((c.handle request).2.serve requests).2) := rfl

theorem serve_append (c : Cursor) (requests more : List Request) :
    c.serve (requests ++ more) =
      ((c.serve requests).1 ++ ((c.serve requests).2.serve more).1,
        ((c.serve requests).2.serve more).2) := by
  induction requests generalizing c with
  | nil => rfl
  | cons request requests ih => simp only [List.cons_append, serve, ih]

/-- What each request keeps all of them keep. -/
theorem Bounded.keeps_serve (h : c.Bounded) (requests : List Request) :
    c.Keeps (c.serve requests).2 := by
  induction requests generalizing c with
  | nil => exact h.keeps
  | cons request requests ih =>
      have hstep : c.Keeps (c.handle request).2 := (h.serves request).keeps h
      exact hstep.trans (ih hstep.bounded)

theorem reads_cons (x : Service) (log : List Service) :
    reads (x :: log) = x.read?.toList ++ reads log := by
  unfold reads
  cases h : x.read? <;> simp [h]

/-- As long as no request moves the cursor back, what is read is what it passes. -/
theorem Bounded.reads_serve (h : c.Bounded) {requests : List Request}
    (hforward : ∀ x ∈ (c.serve requests).1, ¬ x.Backward) :
    c.position ≤ (c.serve requests).2.position ∧
      reads (c.serve requests).1 =
        (c.symbols.extract c.position (c.serve requests).2.position).toList := by
  induction requests generalizing c with
  | nil =>
      have hempty : c.symbols.extract c.position c.position = #[] :=
        Array.extract_empty_of_stop_le_start (Nat.le_refl _)
      exact ⟨Nat.le_refl _, (congrArg Array.toList hempty).symm⟩
  | cons request requests ih =>
      have hserves := h.serves request
      have hkeeps : c.Keeps (c.handle request).2 := hserves.keeps h
      have hle : c.position ≤ (c.handle request).2.position :=
        Nat.le_of_not_lt (hforward _ List.mem_cons_self)
      obtain ⟨hrest, hreads⟩ :=
        ih hkeeps.bounded fun x hx => hforward x (List.mem_cons_of_mem _ hx)
      -- The two slices join only because neither part moves the cursor back.
      rw [serve_cons]
      refine ⟨Nat.le_trans hle hrest, ?_⟩
      rw [reads_cons, hserves.read?_eq_extract, hreads, hkeeps.symbols, ← Array.toList_append,
        Array.extract_append_extract, Nat.min_eq_left hle, Nat.max_eq_right hrest]

end

end Cursor

/-! ## Counters in words -/

/-- A cursor whose counters are words of 64 bits. Their sums and differences wrap around. -/
structure WordCursor where
  symbols : Array Symbol
  committed : UInt64 := 0
  position : UInt64 := 0

namespace WordCursor

open Cursor (Request Reply)

/-- What is done with such a cursor. Where it stops, the counters stay as they are by then. -/
abbrev Action := EStateM CursorError WordCursor

def peek : Action (Option Symbol) := do
  let w ← get
  return w.symbols[w.position.toNat]?

def advance : Action (Option Symbol) := do
  match ← peek with
  | none => return none
  | some s =>
    modify fun w => { w with position := w.position + 1 }
    return some s

/-- Goes on only if the condition holds. -/
def require (p : Prop) [Decidable p] (e : CursorError) : Action Unit :=
  unless p do throw e

/-- The check subtracts, whichever of the counters is larger. -/
def rollback (n : UInt64) : Action Unit := do
  let w ← get
  require (n ≤ w.position - w.committed)
    (.rollback n.toNat w.position.toNat w.committed.toNat)
  set { w with position := w.position - n }

def rollbackTo (target : UInt64) : Action Unit := do
  let w ← get
  require (w.committed ≤ target ∧ target ≤ w.position)
    (.rollbackTo target.toNat w.position.toNat w.committed.toNat)
  set { w with position := target }

def commit : Action Unit := modify fun w => { w with committed := w.position }

def answer : Request → Action Reply
  | .peek => return .symbol (← peek)
  | .peekId => return .terminal ((← peek).map (·.terminal))
  | .advance => return .symbol (← advance)
  | .rollback n => do rollback n; return .done
  | .rollbackTo target => do rollbackTo target; return .done
  | .commit => do commit; return .done

def handle (w : WordCursor) (request : Request) : Reply × WordCursor :=
  match answer request w with
  | .ok reply w => (reply, w)
  | .error e w => (.refused e, w)

def serve (w : WordCursor) : List Request → List Reply × WordCursor
  | [] => ([], w)
  | request :: requests =>
    let (reply, w) := w.handle request
    let (replies, w) := w.serve requests
    (reply :: replies, w)

/-- The cursor that the words stand for. -/
def toCursor (w : WordCursor) : Cursor := ⟨w.symbols, w.committed.toNat, w.position.toNat⟩

section

variable {w : WordCursor}

theorem committed_le (h : w.toCursor.Bounded) : w.committed ≤ w.position :=
  UInt64.le_iff_toNat_le.mpr h.committed_le

theorem handle_advance (w : WordCursor) :
    w.handle .advance = match w.symbols[w.position.toNat]? with
      | none => (.symbol none, w)
      | some s => (.symbol (some s), { w with position := w.position + 1 }) := by
  have hpeek : peek w = .ok w.symbols[w.position.toNat]? w := rfl
  simp only [handle, answer, advance, bind, EStateM.bind, hpeek]
  cases w.symbols[w.position.toNat]? <;> rfl

theorem require_bind {β : Type} (p : Prop) [Decidable p] (e : CursorError) (k : Unit → Action β)
    (w : WordCursor) : (require p e >>= k) w = if p then k () w else .error e w := by
  by_cases h : p
  · rw [if_pos h]
    unfold require
    rw [if_pos h]
    rfl
  · rw [if_neg h]
    unfold require
    rw [if_neg h]
    rfl

/-- A move that a check may stop. -/
theorem handle_move {request : Request} {move : Action Unit} {p : Prop} [Decidable p]
    {v : WordCursor} {e : CursorError} (hanswer : answer request = do move; return .done)
    (hmove : move w = if p then .ok () v else .error e w) :
    w.handle request = if p then (.done, v) else (.refused e, w) := by
  simp only [handle, hanswer, bind, EStateM.bind, hmove]
  by_cases h : p
  · rw [if_pos h, if_pos h]
    rfl
  · rw [if_neg h, if_neg h]

theorem handle_rollback (w : WordCursor) (n : UInt64) :
    w.handle (.rollback n) =
      if n ≤ w.position - w.committed then (.done, { w with position := w.position - n })
      else (.refused (.rollback n.toNat w.position.toNat w.committed.toNat), w) :=
  handle_move rfl (require_bind _ _ _ w)

theorem handle_rollbackTo (w : WordCursor) (target : UInt64) :
    w.handle (.rollbackTo target) =
      if w.committed ≤ target ∧ target ≤ w.position then (.done, { w with position := target })
      else (.refused (.rollbackTo target.toNat w.position.toNat w.committed.toNat), w) :=
  handle_move rfl (require_bind _ _ _ w)

/-- As the mark is not behind the position, the difference in the check is that of the numbers. -/
theorem le_sub_iff (h : w.toCursor.Bounded) (n : UInt64) :
    n ≤ w.position - w.committed ↔ n.toNat ≤ w.toCursor.position - w.toCursor.committed := by
  rw [UInt64.le_iff_toNat_le, UInt64.toNat_sub_of_le _ _ (committed_le h)]
  rfl

theorem toNat_position_succ (h : w.position.toNat < w.symbols.size)
    (hsize : w.symbols.size < UInt64.size) :
    (w.position + 1).toNat = w.position.toNat + 1 := by
  rw [UInt64.toNat_add]
  exact Nat.mod_eq_of_lt (Nat.lt_of_le_of_lt h hsize)

theorem advance_toCursor (hsize : w.symbols.size < UInt64.size) :
    w.toCursor.handle .advance = ((w.handle .advance).1, (w.handle .advance).2.toCursor) := by
  have hpeek : w.toCursor.peek? = w.symbols[w.position.toNat]? := rfl
  show (Reply.symbol w.toCursor.advance.1, w.toCursor.advance.2) = _
  unfold Cursor.advance
  rw [handle_advance, hpeek]
  cases hsome : w.symbols[w.position.toNat]? with
  | none => rfl
  | some s =>
      have hlt := (Array.getElem?_eq_some_iff.mp hsome).choose
      simp only [toCursor, toNat_position_succ hlt hsize]

theorem rollback_toCursor (h : w.toCursor.Bounded) (n : UInt64) :
    w.toCursor.handle (.rollback n) =
      ((w.handle (.rollback n)).1, (w.handle (.rollback n)).2.toCursor) := by
  have hcheck := le_sub_iff h n
  show w.toCursor.moved (w.toCursor.rollback n.toNat) = _
  unfold Cursor.rollback
  rw [handle_rollback]
  by_cases hn : n ≤ w.position - w.committed
  · -- The move subtracts once more, from the position alone.
    have hle : n ≤ w.position :=
      UInt64.le_iff_toNat_le.mpr (Nat.le_trans (hcheck.mp hn) (Nat.sub_le _ _))
    rw [if_pos hn, if_pos (hcheck.mp hn)]
    simp only [Cursor.moved, toCursor, UInt64.toNat_sub_of_le _ _ hle]
  · rw [if_neg hn, if_neg (mt hcheck.mpr hn)]
    rfl

theorem rollbackTo_toCursor (w : WordCursor) (target : UInt64) :
    w.toCursor.handle (.rollbackTo target) =
      ((w.handle (.rollbackTo target)).1, (w.handle (.rollbackTo target)).2.toCursor) := by
  have hcheck : w.committed ≤ target ∧ target ≤ w.position ↔
      w.toCursor.committed ≤ target.toNat ∧ target.toNat ≤ w.toCursor.position :=
    and_congr UInt64.le_iff_toNat_le UInt64.le_iff_toNat_le
  show w.toCursor.moved (w.toCursor.rollbackTo target.toNat) = _
  unfold Cursor.rollbackTo
  rw [handle_rollbackTo]
  by_cases ht : w.committed ≤ target ∧ target ≤ w.position
  · rw [if_pos ht, if_pos (hcheck.mp ht)]
    rfl
  · rw [if_neg ht, if_neg (mt hcheck.mpr ht)]
    rfl

/-- A request does to the words what it does to the numbers they stand for. -/
theorem handle_toCursor (h : w.toCursor.Bounded) (hsize : w.symbols.size < UInt64.size)
    (request : Request) :
    w.toCursor.handle request = ((w.handle request).1, (w.handle request).2.toCursor) := by
  cases request with
  | peek => rfl
  | peekId => rfl
  | advance => exact advance_toCursor hsize
  | rollback n => exact rollback_toCursor h n
  | rollbackTo target => exact rollbackTo_toCursor w target
  | commit => rfl

/-- The words stay in step with the numbers whatever is asked. -/
theorem serve_toCursor (h : w.toCursor.Bounded) (hsize : w.symbols.size < UInt64.size)
    (requests : List Request) :
    (w.toCursor.serve requests).1.map (·.reply) = (w.serve requests).1 ∧
      (w.toCursor.serve requests).2 = (w.serve requests).2.toCursor := by
  induction requests generalizing w with
  | nil => exact ⟨rfl, rfl⟩
  | cons request requests ih =>
      have hstep := handle_toCursor h hsize request
      -- The bounds come from the numbers: the words alone would not tell a wrapped difference.
      have hkeeps : w.toCursor.Keeps (w.handle request).2.toCursor := by
        have hserves := h.serves request
        rw [hstep] at hserves
        exact hserves.keeps h
      have hsymbols : (w.handle request).2.symbols = w.symbols := hkeeps.symbols
      obtain ⟨hreplies, hlast⟩ := ih hkeeps.bounded (hsymbols ▸ hsize)
      rw [Cursor.serve_cons, hstep]
      exact ⟨congrArg (List.cons (w.handle request).1) hreplies, hlast⟩

end

end WordCursor

/-! ## What a cursor may be relied on for -/

namespace Cursor

/-- What holds of a cursor at any moment. The differences are those of integers. -/
structure Contract (c : Cursor) : Prop extends Bounded c where
  serves : ∀ request, c.Serves request (c.handle request).1 (c.handle request).2
  rollback_refused_iff : ∀ n, (c.handle (.rollback n)).1.Refused ↔
    (c.position : Int) - c.committed < n.toNat
  rollbackTo_refused_iff : ∀ target, (c.handle (.rollbackTo target)).1.Refused ↔
    ¬ (c.committed ≤ target.toNat ∧ target.toNat ≤ c.position)
  refused : ∀ request, (c.handle request).1.Refused → (c.handle request).2 = c

theorem Bounded.contract {c : Cursor} (h : c.Bounded) : c.Contract where
  toBounded := h
  serves := h.serves
  rollback_refused_iff n := (h.serves_rollback n).rollback_refused_iff
  rollbackTo_refused_iff target := (c.serves_rollbackTo target).rollbackTo_refused_iff
  refused request := (h.serves request).eq_of_refused

/-- Whatever has been asked of a new cursor, it is within its bounds and serves the next request as
it should. Its mark never moves back, and what has been read since the cursor was last moved back is
the slice of the symbols that ends at its position. If the symbols can be counted in words, counters
in words come to the same replies and the same places, and their difference never wraps around. -/
theorem serve_keeps_contract (symbols : Array Symbol) (requests more : List Request) :
    let start : Cursor := { symbols }
    let past := (start.serve requests).1
    let c := (start.serve requests).2
    let log := (c.serve more).1
    let d := (c.serve more).2
    let w := (WordCursor.serve { symbols } requests).2
    start.serve (requests ++ more) = (past ++ log, d) ∧
    c.Contract ∧ c.symbols = symbols ∧ c.committed ≤ d.committed ∧
    ((∀ x ∈ log, ¬ x.Backward) →
      reads log = (symbols.extract c.position d.position).toList) ∧
    (symbols.size < UInt64.size →
      (WordCursor.serve { symbols } requests).1 = past.map (·.reply) ∧ w.toCursor = c ∧
        w.committed ≤ w.position) := by
  intro start past c log d w
  have hstart : start.Bounded := Bounded.start symbols
  have hc : start.Keeps c := hstart.keeps_serve requests
  have hd : c.Keeps d := hc.bounded.keeps_serve more
  refine ⟨serve_append start requests more, hc.bounded.contract, hc.symbols, hd.committed_le,
    ?_, ?_⟩
  · intro hforward
    obtain ⟨_, hreads⟩ := hc.bounded.reads_serve hforward
    rw [hc.symbols] at hreads
    exact hreads
  · intro hsize
    have hwords : WordCursor.toCursor { symbols } = start := rfl
    obtain ⟨hreplies, hlast⟩ := WordCursor.serve_toCursor (hwords ▸ hstart) hsize requests
    rw [hwords] at hreplies hlast
    exact ⟨hreplies.symm, hlast.symm, WordCursor.committed_le (hlast ▸ hc.bounded)⟩

/-- With the third of three symbols read and the first two settled, the largest count and a target
before the mark are refused, and giving the third back is not. -/
theorem serve_keeps_contract_refusals :
    let symbols : Array Symbol :=
      #[⟨⟨1⟩, 0, "+", false⟩, ⟨⟨0⟩, 1, "i", false⟩, ⟨⟨1⟩, 2, "+", false⟩]
    let start : Cursor := { symbols }
    let requests : List Request :=
      [.advance, .advance, .commit, .advance, .rollback 18446744073709551615, .rollbackTo 1,
        .rollback 1]
    let c : Cursor := ⟨symbols, 2, 2⟩
    symbols.size < UInt64.size ∧ (start.serve requests).2 = c ∧ c.Contract ∧
    (WordCursor.serve { symbols } requests).1.drop 4 =
      [.refused (.rollback 18446744073709551615 3 2), .refused (.rollbackTo 1 3 2), .done] ∧
    (∀ x ∈ (c.serve [.advance, .advance]).1, ¬ x.Backward) ∧
    reads (c.serve [.advance, .advance]).1 = [⟨⟨1⟩, 2, "+", false⟩] := by
  intro symbols start requests c
  have hsize : symbols.size < UInt64.size := by decide
  have hlast : (start.serve requests).2 = c := by decide +kernel
  have hforward : ∀ x ∈ (c.serve [.advance, .advance]).1, ¬ x.Backward := by decide
  obtain ⟨_, hcontract, _, _, hreads, hwords⟩ :=
    serve_keeps_contract symbols requests [.advance, .advance]
  obtain ⟨hreplies, _⟩ := hwords hsize
  rw [hlast] at hcontract hreads
  refine ⟨hsize, hlast, hcontract, ?_, hforward, hreads hforward⟩
  rw [hreplies]
  decide +kernel

end Cursor

end Descent
