/-! # Lines of input

Input is cut into lines at line feeds, and a carriage return before one belongs to it. The last line
needs no line feed. A line that is longer than the buffer is handed out in pieces. -/

namespace Pseudocode.Lines

/-- How many bytes a piece of a line may have. -/
def buffer : Nat := 4096

/-- A line, or a piece of one. -/
structure Piece where
  bytes : List UInt8
  /-- Whether the line goes on. -/
  partly : Bool
  deriving Repr, DecidableEq

def lineFeed : UInt8 := 10

def carriageReturn : UInt8 := 13

/-- A line without the carriage return at its end. -/
def withoutReturn (line : List UInt8) : List UInt8 :=
  if line.getLast? = some carriageReturn then line.dropLast else line

/-- The next piece, and what follows it. A piece does not end between a carriage return and what may
be its line feed. -/
def next (bytes : List UInt8) : Piece × List UInt8 :=
  let window := bytes.take buffer
  if lineFeed ∈ window then
    (⟨withoutReturn (window.takeWhile (· ≠ lineFeed)), false⟩, (bytes.dropWhile (· ≠ lineFeed)).drop 1)
  else if window.length < buffer then (⟨window, false⟩, [])
  else
    let piece := withoutReturn window
    (⟨piece, true⟩, bytes.drop piece.length)

/-- The pieces of at most `fuel` steps. -/
def piecesWithin : (fuel : Nat) → List UInt8 → List Piece
  | 0, _ => []
  | _, [] => []
  | fuel + 1, bytes => let (piece, rest) := next bytes; piece :: piecesWithin fuel rest

def pieces (bytes : List UInt8) : List Piece :=
  piecesWithin bytes.length bytes

end Pseudocode.Lines
