import AbiBindings.Text.Position

/-!
# Faults of a JSON text

What can be wrong with a JSON text, and where. The place of a fault is a byte offset; how much of
the text counts as read when a fault is found is part of the fault's rule and stated where it
arises.
-/

namespace AbiBindings.Json

/-- What is wrong with a JSON text. -/
inductive Mistake where
  | endInValue
  | endInList
  | endInObject
  | endInString
  | noValue
  | noKeyword
  | noListSeparator
  | noObjectSeparator
  | noColon
  | noKey
  | trailingComma
  | trailingText
  | tooDeep
  | badNumber
  | numberTooLarge
  | controlCharacter
  | badEscape
  | loneSurrogate
  | halfSurrogatePair
deriving Repr, DecidableEq

/-- The wording of a mistake. -/
def Mistake.message : Mistake → String
  | endInValue => "EOF while parsing a value"
  | endInList => "EOF while parsing a list"
  | endInObject => "EOF while parsing an object"
  | endInString => "EOF while parsing a string"
  | noValue => "expected value"
  | noKeyword => "expected ident"
  | noListSeparator => "expected `,` or `]`"
  | noObjectSeparator => "expected `,` or `\x7d`"
  | noColon => "expected `:`"
  | noKey => "key must be a string"
  | trailingComma => "trailing comma"
  | trailingText => "trailing characters"
  | tooDeep => "recursion limit exceeded"
  | badNumber => "invalid number"
  | numberTooLarge => "number out of range"
  | controlCharacter => "control character (\\u0000-\\u001F) found while parsing a string"
  | badEscape => "invalid escape"
  | loneSurrogate => "lone leading surrogate in hex escape"
  | halfSurrogatePair => "unexpected end of hex escape"

/-- A mistake at a byte offset. -/
structure Fault where
  mistake : Mistake
  offset : Nat
deriving Repr, DecidableEq

/-- A fault as messages give it. -/
def Fault.message (text : List Char) (fault : Fault) : String :=
  fault.mistake.message ++ " " ++ (Text.Position.ofOffset text fault.offset).describe

/-- The two faults that end a reading at one place. A value that is read in full and a value that is
only skipped are checked at the same places, but not always in the same words. -/
structure Break where
  /-- The fault for a value that is read. -/
  read : Fault
  /-- The fault for a value that is skipped. -/
  skipped : Fault
deriving Repr, DecidableEq

/-- A break with one fault for both ways of passing over a value. -/
def Break.both (mistake : Mistake) (offset : Nat) : Break :=
  ⟨⟨mistake, offset⟩, ⟨mistake, offset⟩⟩

/-- A break at one place with a mistake for each way of passing over a value. -/
def Break.either (read skipped : Mistake) (offset : Nat) : Break :=
  ⟨⟨read, offset⟩, ⟨skipped, offset⟩⟩

end AbiBindings.Json
