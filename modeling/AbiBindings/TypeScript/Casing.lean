import AbiBindings.Text.Case
import AbiBindings.Text.Pieces

/-!
# Casing

Names of types and members are made from words between underscores. The first character of a word is
put in upper case and the rest is kept; a member starts in lower case. The name of a client class
comes from the name of a file, in words of ASCII letters and digits.
-/

namespace AbiBindings.TypeScript

/-- The word with its first character in upper case. -/
def capitalize : List Char → List Char
  | [] => []
  | c :: cs => Text.upper c ++ cs

/-- The words between underscores, capitalized and joined. -/
def typeCaseChars (cs : List Char) : List Char :=
  (Text.words (· = '_') cs).flatMap capitalize

/-- The name of a type. -/
def typeCase (text : String) : String :=
  String.ofList (typeCaseChars text.toList)

/-- The name of a member: as of a type, with the first character in lower case. -/
def memberCase (text : String) : String :=
  match typeCaseChars text.toList with
  | [] => ""
  | c :: cs => String.ofList (Text.lower c ++ cs)

/-! ### Client classes -/

/-- What comes after the last slash or backslash. -/
def fileName (path : List Char) : List Char :=
  (path.reverse.takeWhile fun c ↦ c ≠ '/' ∧ c ≠ '\\').reverse

/-- The name of a file without its last extension; a name that only starts with a dot has none. -/
def fileStem (name : List Char) : List Char :=
  match name.reverse.dropWhile (· ≠ '.') with
  | _ :: front => if front.isEmpty then name else front.reverse
  | [] => name

/-- A word of the name of a client class; one or two characters are put in upper case. -/
def clientWord (word : List Char) : List Char :=
  if word.length ≤ 2 then word.map Char.toUpper else capitalize word

/-- The name of the client class for the file at a path. -/
def clientName (path : String) : String :=
  let words := Text.words (!·.isAlphanum) (fileStem (fileName path.toList))
  let name := words.flatMap clientWord
  let start := if (name.head?.map Char.isDigit).getD false then "Abi" else ""
  start ++ String.ofList name ++ "Client"

end AbiBindings.TypeScript
