/-! # Places in a source text

Lines and columns count from 1, and a column is a number of characters. A span runs from its first
character to the place just after its last one. The zero span, whose four numbers are 0, stands for
"nowhere". -/

namespace Pseudocode

/-- A place between two characters of a source text. -/
structure Position where
  line : Nat
  column : Nat
  deriving Repr, DecidableEq

namespace Position

def first : Position := ⟨1, 1⟩

/-- The place after the character `c` that stands here. -/
def next (p : Position) (c : Char) : Position :=
  if c = '\n' then ⟨p.line + 1, 1⟩ else ⟨p.line, p.column + 1⟩

/-- The place after the characters `cs` that stand here. -/
def after (p : Position) (cs : List Char) : Position :=
  cs.foldl next p

end Position

/-- From the first character of something to the place just after its last one. -/
structure Span where
  start : Position
  stop : Position
  deriving Repr, DecidableEq

namespace Span

/-- The span of what has no place. -/
def zero : Span := ⟨⟨0, 0⟩, ⟨0, 0⟩⟩

def isZero (s : Span) : Bool :=
  s = zero

/-- How messages name the place: by its start. -/
def shown (s : Span) : String :=
  s!"line {s.start.line}, column {s.start.column}"

end Span

end Pseudocode
