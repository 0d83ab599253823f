import Descent.Compiled.Basic
import Descent.Symbol.Basic

/-! # Cutting text into pieces

A text is cut from left to right into pieces that leave nothing out. Where an ignored terminal
matches, the first such makes an ignored piece; else the first of the scanned terminals that matches
makes a symbol; else the character there is unmatched. Symbols and diagnostics are read off the
pieces: a run of unmatched characters is one error.
-/

namespace Descent

open Descent.Text

inductive Piece where
  | ignored (text skipped : List Char)
  | symbol (terminal : TerminalId) (captured : Bool) (text skipped : List Char)
  | unmatched (c : Char)
deriving Repr, DecidableEq

namespace Piece

/-- The text of a piece, what is skipped at its end included. -/
def text : Piece → List Char
  | ignored text skipped => text ++ skipped
  | symbol _ _ text skipped => text ++ skipped
  | unmatched c => [c]

/-- Bytes of the piece. -/
def length (p : Piece) : Nat := byteLength p.text

/-- The first terminal of a list that matches at the spot. -/
def firstMatch? (table : TerminalTable) (spot : Spot) (ids : List TerminalId) :
    Option (TerminalId × TerminalMatch) :=
  ids.findSome? fun id => (table.matchAt id spot).map (id, ·)

/-- The piece at the spot and the text behind it; `none` at the end of the text. -/
def next? (table : TerminalTable) (order : TerminalOrder) (spot : Spot) :
    Option (Piece × List Char) :=
  match spot.ahead with
  | [] => none
  | c :: cs =>
    match firstMatch? table spot order.ignored with
    | some (_, m) => some (.ignored m.text m.skipped, m.rest)
    | none =>
      match firstMatch? table spot order.scanned with
      | some (id, m) => some (.symbol id (!table.isLiteral id) m.text m.skipped, m.rest)
      | none => some (.unmatched c, cs)

/-- Cuts the text ahead of a spot. Every piece takes a character, so the length of the text is fuel
enough. -/
def cutFrom (table : TerminalTable) (order : TerminalOrder) : Nat → Spot → List Piece
  | 0, _ => []
  | fuel + 1, spot =>
    match next? table order spot with
    | none => []
    | some (piece, rest) => piece :: cutFrom table order fuel (spot.past piece.text rest)

/-- The pieces of a text. -/
def cutText (table : TerminalTable) (order : TerminalOrder) (source : List Char) : List Piece :=
  cutFrom table order source.length ⟨none, source⟩

/-- The symbols among pieces that begin at byte `start`. -/
def symbols (start : Nat) : List Piece → List Symbol
  | [] => []
  | piece :: pieces =>
    let rest := symbols (start + piece.length) pieces
    match piece with
    | symbol terminal captured text _ => ⟨terminal, start, .ofList text, captured⟩ :: rest
    | _ => rest

/-- The runs of unmatched characters among pieces that begin at byte `start`, each with its first
byte. -/
def strayRuns (start : Nat) : List Piece → List (Nat × List Char)
  | [] => []
  | unmatched c :: pieces =>
    let stop := start + c.utf8Size
    match pieces, strayRuns stop pieces with
    | unmatched _ :: _, (_, cs) :: runs => (start, c :: cs) :: runs
    | _, runs => (start, [c]) :: runs
  | piece :: pieces => strayRuns (start + piece.length) pieces

end Piece

namespace SymbolStream

def ofPieces (pieces : List Piece) : SymbolStream where
  symbols := (Piece.symbols 0 pieces).toArray
  diagnostics := (Piece.strayRuns 0 pieces).map fun run => .unrecognized run.1 run.2

/-- Cuts a source text into symbols. -/
def ofText (table : TerminalTable) (order : TerminalOrder) (source : String) : SymbolStream :=
  ofPieces (Piece.cutText table order source.toList)

end SymbolStream

end Descent
