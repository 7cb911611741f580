/-!
# Cutting and patching text

Text is worked on as a list of characters. `pieces` cuts at every separator and keeps empty pieces,
so that joining with separators gives the text back; `words` keeps the non-empty pieces, which are
the maximal runs without a separator. `lines` cuts at line ends, and `replacePair` replaces two
adjacent characters wherever they occur, from the left.
-/

namespace AbiBindings.Text

/-! ### Cutting -/

/-- The pieces between separators, empty ones included: one more than there are separators. -/
def pieces (isSeparator : Char → Bool) : List Char → List (List Char)
  | [] => [[]]
  | c :: cs =>
    if isSeparator c then [] :: pieces isSeparator cs
    else
      match pieces isSeparator cs with
      | [] => [[c]]
      | piece :: rest => (c :: piece) :: rest

/-- The maximal runs of characters that are not separators. -/
def words (isSeparator : Char → Bool) (cs : List Char) : List (List Char) :=
  (pieces isSeparator cs).filter (!·.isEmpty)

/-- A line without the one carriage return it may end in. -/
def dropCarriageReturn (line : List Char) : List Char :=
  if line.getLast? = some '\r' then line.dropLast else line

/-- What is left of the pieces between line feeds: a carriage return before a line feed belongs to
the line end, and text that ends in a line feed has no further line. -/
def finishLines : List (List Char) → List (List Char)
  | [] => []
  | [last] => if last.isEmpty then [] else [last]
  | line :: rest => dropCarriageReturn line :: finishLines rest

/-- The lines of a text. -/
def lines (cs : List Char) : List (List Char) :=
  finishLines (pieces (· = '\n') cs)

/-- The text without the characters at either end that satisfy `p`. -/
def trim (p : Char → Bool) (cs : List Char) : List Char :=
  ((cs.dropWhile p).reverse.dropWhile p).reverse

/-! ### Patching -/

/-- Writes `patch` for each occurrence of `a` followed by `b`, from the left. -/
def replacePair (a b : Char) (patch : List Char) : List Char → List Char
  | [] => []
  | [c] => [c]
  | c :: d :: cs =>
    if c = a ∧ d = b then patch ++ replacePair a b patch cs
    else c :: replacePair a b patch (d :: cs)

end AbiBindings.Text
