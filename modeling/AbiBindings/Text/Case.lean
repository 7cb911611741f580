import AbiBindings.Text.CaseTable

/-!
# Upper and lower case

The case of one character is a sequence of characters, usually a single one. A character outside the
tables is its own upper and lower case.
-/

namespace AbiBindings.Text

/-- The image of a code point under the first run it lies on. -/
def runImage (runs : List (Nat × Nat × Nat × Nat)) (n : Nat) : Option Nat :=
  runs.findSome? fun (first, last, stride, image) ↦
    if first ≤ n ∧ n ≤ last ∧ (n - first) % stride = 0 then some (image + (n - first)) else none

/-- The image of a character under a mapping given by sequences and runs. -/
def mapCase (sequences : List (Nat × List Nat)) (runs : List (Nat × Nat × Nat × Nat)) (c : Char) :
    List Char :=
  match sequences.lookup c.toNat with
  | some image => image.map Char.ofNat
  | none =>
    match runImage runs c.toNat with
    | some n => [Char.ofNat n]
    | none => [c]

/-- The upper case of a character. -/
def upper (c : Char) : List Char := mapCase upperSequences upperRuns c

/-- The lower case of a character. -/
def lower (c : Char) : List Char := mapCase lowerSequences lowerRuns c

end AbiBindings.Text
