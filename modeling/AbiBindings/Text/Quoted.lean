import AbiBindings.Text.Invisible

/-!
# Quoted text in messages

A piece of input shown in a message stands in double quotes, with a backslash before a quote or a
backslash, short escapes for NUL, tab, line feed and carriage return, and `\u{…}` with the code
point in hexadecimal for every other character without a mark of its own.
-/

namespace AbiBindings.Text

/-- One character inside quotes. -/
def quotedChar (c : Char) : List Char :=
  if c = '\x00' then ['\\', '0']
  else if c = '\t' then ['\\', 't']
  else if c = '\n' then ['\\', 'n']
  else if c = '\r' then ['\\', 'r']
  else if c = '"' ∨ c = '\\' then ['\\', c]
  else if isInvisible c then
    ['\\', 'u', '\x7b'] ++ Nat.toDigits 16 c.toNat ++ ['\x7d']
  else [c]

/-- The text in quotes. -/
def quoted (s : String) : String :=
  String.ofList ('"' :: s.toList.flatMap quotedChar ++ ['"'])

end AbiBindings.Text
