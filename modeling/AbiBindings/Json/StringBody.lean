import AbiBindings.Json.Fault

/-!
# Strings of a JSON text

The text between quotes is scanned in two steps. `StringBody.scan` finds the units of the string,
which are plain characters and escapes, up to the closing quote or the place where the scan breaks
off: this is all that a skipped string is checked for. `StringBody.read` makes the units into text,
and for that pairs the surrogates among the escaped code units.
-/

namespace AbiBindings.Json

/-- A unit of a string. -/
inductive StringUnit where
  /-- A character that stands for itself. -/
  | plain (c : Char)
  /-- A character written as a backslash and a letter. -/
  | short (c : Char)
  /-- A UTF-16 code unit written as four hexadecimal digits. -/
  | code (n : Nat)
deriving Repr

/-- How a string ends. -/
inductive StringEnd where
  /-- With a closing quote. -/
  | closed
  /-- With a control character, which is not part of the string. -/
  | control
  /-- With a backslash and a character that is no escape. -/
  | badEscape
  /-- With fewer characters than the string needs, or with four that are no hexadecimal digits. -/
  | broken (fault : Fault)
deriving Repr

/-- The units of a string, each with the offset after it, and how it ends. -/
structure StringBody where
  units : List (StringUnit × Nat)
  ending : StringEnd
  /-- The offset of what ends the string. -/
  endOffset : Nat
  /-- What follows the closing quote. -/
  rest : List Char
deriving Repr

namespace StringBody

/-- The value of a hexadecimal digit. -/
def hexDigit? (c : Char) : Option Nat :=
  if '0' ≤ c ∧ c ≤ '9' then some (c.toNat - '0'.toNat)
  else if 'a' ≤ c ∧ c ≤ 'f' then some (c.toNat - 'a'.toNat + 10)
  else if 'A' ≤ c ∧ c ≤ 'F' then some (c.toNat - 'A'.toNat + 10)
  else none

/-- The value of four hexadecimal digits. -/
def hexCode? (a b c d : Char) : Option Nat := do
  return 4096 * (← hexDigit? a) + 256 * (← hexDigit? b) + 16 * (← hexDigit? c) + (← hexDigit? d)

/-- The character that a letter after a backslash stands for. -/
def shortEscape? (c : Char) : Option Char :=
  if c = '"' ∨ c = '\\' ∨ c = '/' then some c
  else if c = 'b' then some '\x08'
  else if c = 'f' then some '\x0c'
  else if c = 'n' then some '\n'
  else if c = 'r' then some '\r'
  else if c = 't' then some '\t'
  else none

/-- The body with one more unit in front. -/
def cons (unit : StringUnit) (stop : Nat) (body : StringBody) : StringBody :=
  { body with units := (unit, stop) :: body.units }

/-- The body that consists of its end. -/
def ended (ending : StringEnd) (offset : Nat) (rest : List Char) : StringBody :=
  ⟨[], ending, offset, rest⟩

/-- The fault of a code unit whose four bytes are not there or are no digits. -/
def codeFault (offset : Nat) (cs : List Char) : Fault :=
  let size := Text.byteSize (cs.take 4)
  if size < 4 then ⟨.endInString, offset + size⟩ else ⟨.badEscape, offset + 4⟩

/-- Scans a string from the character after the opening quote, which stands at `offset`. -/
def scan (offset : Nat) : List Char → StringBody
  | [] => ended (.broken ⟨.endInString, offset⟩) offset []
  | c :: cs =>
    if c = '"' then ended .closed offset cs
    else if c = '\\' then
      match cs with
      | [] => ended (.broken ⟨.endInString, offset + 1⟩) offset []
      | e :: cs =>
        if e = 'u' then
          match cs with
          | h₁ :: h₂ :: h₃ :: h₄ :: rest =>
            match hexCode? h₁ h₂ h₃ h₄ with
            | some n => cons (.code n) (offset + 6) (scan (offset + 6) rest)
            | none => ended (.broken (codeFault (offset + 2) cs)) offset []
          | _ => ended (.broken (codeFault (offset + 2) cs)) offset []
        else
          match shortEscape? e with
          | some d => cons (.short d) (offset + 2) (scan (offset + 2) cs)
          | none => ended .badEscape offset []
    else if c.toNat < 0x20 then ended .control offset []
    else cons (.plain c) (offset + c.utf8Size) (scan (offset + c.utf8Size) cs)

/-- A string without a closing quote breaks the reading off. -/
def break? (body : StringBody) : Option Break :=
  match body.ending with
  | .closed => none
  | .control => some ⟨⟨.controlCharacter, body.endOffset + 1⟩, ⟨.controlCharacter, body.endOffset⟩⟩
  | .badEscape => some (.both .badEscape (body.endOffset + 2))
  | .broken fault => some ⟨fault, fault⟩

/-- A code unit that starts a surrogate pair. -/
def isLeading (n : Nat) : Bool := 0xD800 ≤ n && n ≤ 0xDBFF

/-- A code unit that ends a surrogate pair. -/
def isTrailing (n : Nat) : Bool := 0xDC00 ≤ n && n ≤ 0xDFFF

/-- The character of a surrogate pair. -/
def pairChar (n m : Nat) : Char :=
  Char.ofNat (0x10000 + (n - 0xD800) * 0x400 + (m - 0xDC00))

/-- The fault of a string that ends after `offset`, where the second half of a surrogate pair should
stand. What stands there instead counts as read, after a backslash one more. -/
def unpairedEnd (ending : StringEnd) (offset : Nat) : Fault :=
  match ending with
  | .closed | .control => ⟨.halfSurrogatePair, offset + 1⟩
  | .badEscape => ⟨.halfSurrogatePair, offset + 2⟩
  | .broken fault => fault

/-- The characters of the units; `ending` is how the string ends. -/
def readUnits (ending : StringEnd) : List (StringUnit × Nat) → Except Fault (List Char)
  | [] => .ok []
  | (.plain c, _) :: units | (.short c, _) :: units => return c :: (← readUnits ending units)
  | (.code n, stop) :: units =>
    if isTrailing n then .error ⟨.loneSurrogate, stop⟩
    else if isLeading n then
      match units with
      | [] => .error (unpairedEnd ending stop)
      | (.plain _, _) :: _ => .error ⟨.halfSurrogatePair, stop + 1⟩
      | (.short _, _) :: _ => .error ⟨.halfSurrogatePair, stop + 2⟩
      | (.code m, stop) :: units =>
        if isTrailing m then return pairChar n m :: (← readUnits ending units)
        else .error ⟨.loneSurrogate, stop⟩
    else return Char.ofNat n :: (← readUnits ending units)

/-- The text of the string, or the first fault in it. -/
def read (body : StringBody) : Except Fault String := do
  let cs ← readUnits body.ending body.units
  match body.break? with
  | none => return String.ofList cs
  | some b => .error b.read

end StringBody

end AbiBindings.Json
