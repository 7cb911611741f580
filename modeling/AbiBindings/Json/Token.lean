import AbiBindings.Json.Numeral
import AbiBindings.Json.StringBody

/-!
# Tokens of a JSON text

A JSON text is cut into tokens, each with the offsets where it starts and stops. A token that breaks
off is the last one: what it breaks with matters only if a value may stand there, so the break is
kept with the token. A string or a numeral that is well formed may still have no value, when a
surrogate is unpaired or the number is too large, and then keeps the fault in place of its value.
-/

namespace AbiBindings.Json

/-- The marks between values. -/
inductive Mark where
  | openList
  | closeList
  | openObject
  | closeObject
  | comma
  | colon
deriving Repr, DecidableEq

/-- A value without parts. -/
inductive Scalar where
  | null
  | bool (value : Bool)
  | number (value : JsonNumber)
  | string (value : String)
deriving Repr

/-- What a token is. -/
inductive Lexeme where
  | mark (m : Mark)
  | literal (value : Scalar)
  | number (value : Except Fault JsonNumber)
  | string (value : Except Fault String)
  | brokenString (cut : Break)
  | brokenScalar (cut : Break)
  /-- A character that starts no token. -/
  | unknown

/-- A token with the offsets of its first character and of what follows it. -/
structure Token where
  lexeme : Lexeme
  start : Nat
  stop : Nat

namespace Token

/-- The blanks between tokens. -/
def isBlank (c : Char) : Bool := c = ' ' || c = '\n' || c = '\t' || c = '\r'

/-- The mark that a character is. -/
def mark? (c : Char) : Option Mark :=
  if c = '[' then some .openList
  else if c = ']' then some .closeList
  else if c = '\x7b' then some .openObject
  else if c = '\x7d' then some .closeObject
  else if c = ',' then some .comma
  else if c = ':' then some .colon
  else none

/-- Reads the rest of a keyword; the first wrong character counts as read. -/
def scanKeyword : List Char → Nat → List Char → Except Break (Nat × List Char)
  | [], offset, cs => .ok (offset, cs)
  | _ :: _, offset, [] => .error (.both .endInValue offset)
  | e :: es, offset, c :: cs =>
    if c = e then scanKeyword es (offset + 1) cs else .error (.both .noKeyword (offset + 1))

/-- The keyword that starts with a character: what follows the character, and the value. -/
def keyword? (c : Char) : Option (List Char × Scalar) :=
  if c = 'n' then some (['u', 'l', 'l'], .null)
  else if c = 't' then some (['r', 'u', 'e'], .bool true)
  else if c = 'f' then some (['a', 'l', 's', 'e'], .bool false)
  else none

/-- The token that starts with `c` at `offset`, and what follows it. After a token that breaks off,
or that starts no value, nothing follows. -/
def next (offset : Nat) (c : Char) (cs : List Char) : Token × List Char :=
  match mark? c with
  | some m => (⟨.mark m, offset, offset + 1⟩, cs)
  | none =>
    match keyword? c with
    | some (word, value) =>
      match scanKeyword word (offset + 1) cs with
      | .ok (stop, rest) => (⟨.literal value, offset, stop⟩, rest)
      | .error cut => (⟨.brokenScalar cut, offset, offset⟩, [])
    | none =>
      if c = '"' then
        let body := StringBody.scan (offset + 1) cs
        match body.break? with
        | none => (⟨.string body.read, offset, body.endOffset + 1⟩, body.rest)
        | some cut =>
          match body.read with
          | .ok _ => (⟨.brokenString cut, offset, offset⟩, [])
          | .error fault => (⟨.brokenString { cut with read := fault }, offset, offset⟩, [])
      else if c = '-' ∨ c.isDigit then
        match Numeral.scan offset (c :: cs) with
        | .ok (numeral, stop, rest) => (⟨.number (numeral.value stop), offset, stop⟩, rest)
        | .error cut => (⟨.brokenScalar cut, offset, offset⟩, [])
      else (⟨.unknown, offset, offset⟩, [])

/-- The tokens of a text of at most `size` characters. -/
def scanUpTo : (size : Nat) → (offset : Nat) → List Char → List Token
  | 0, _, _ => []
  | _ + 1, _, [] => []
  | size + 1, offset, c :: cs =>
    if isBlank c then scanUpTo size (offset + 1) cs
    else
      let (token, rest) := next offset c cs
      token :: scanUpTo size token.stop rest

/-- The tokens of a text. -/
def scan (text : List Char) : List Token :=
  scanUpTo text.length 0 text

end Token

end AbiBindings.Json
