/-!
# Places in a text

A place is counted in bytes of UTF-8 from the start of the text. Messages give it as a line, counted
from one, and the number of bytes since the line's start.
-/

namespace AbiBindings.Text

/-- The bytes a text takes in UTF-8. -/
def byteSize : List Char → Nat
  | [] => 0
  | c :: cs => c.utf8Size + byteSize cs

/-- What is left of the text after a number of bytes; a character cut in the middle is left out. -/
def dropBytes : Nat → List Char → List Char
  | 0, cs => cs
  | _ + 1, [] => []
  | n + 1, c :: cs => dropBytes (n + 1 - c.utf8Size) cs

/-- A line and a column. -/
structure Position where
  /-- Lines are counted from one. -/
  line : Nat
  /-- Bytes since the start of the line. -/
  column : Nat
deriving Repr, DecidableEq

/-- Moves a position over the given number of bytes of text. -/
def Position.advance (p : Position) : Nat → List Char → Position
  | 0, _ => p
  | _, [] => p
  | n + 1, c :: cs =>
    if n + 1 < c.utf8Size then { p with column := p.column + (n + 1) }
    else if c = '\n' then Position.advance ⟨p.line + 1, 0⟩ (n + 1 - c.utf8Size) cs
    else Position.advance { p with column := p.column + c.utf8Size } (n + 1 - c.utf8Size) cs

/-- The position of a byte offset. -/
def Position.ofOffset (text : List Char) (offset : Nat) : Position :=
  Position.advance ⟨1, 0⟩ offset text

/-- The position as messages give it. -/
def Position.describe (p : Position) : String :=
  "at line " ++ toString p.line ++ " column " ++ toString p.column

end AbiBindings.Text
