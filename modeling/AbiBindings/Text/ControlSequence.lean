/-!
# Text without control sequences

A terminal takes some of the characters sent to it as commands. A command is a control character, or
a sequence that starts with an escape character. `withoutControls` gives the text that is left
without them; of the control characters it keeps those that only set text apart, which are tabs and
ends of lines and pages.

Three kinds of sequences go on after the character that follows the escape character: a control
sequence ends with a letter or another character of that group, an operating system command with a
bell, and the other strings with the byte `0x9C`, even where it is a part of a character. Every
sequence is ended by an escape character, which starts the next one, and by the two control
characters for cancelling.
-/

namespace AbiBindings.Text

/-- Where in a sequence a character stands. -/
inductive ControlStage where
  /-- In no sequence. -/
  | text
  /-- After an escape character. -/
  | escape
  /-- After an escape character and some intermediate characters. -/
  | escapeIntermediate
  /-- In a control sequence. -/
  | sequence
  /-- In an operating system command. -/
  | systemCommand
  /-- At the start of a device string. -/
  | deviceEntry
  /-- In the parameters of a device string. -/
  | deviceParameters
  /-- After the parameters of a device string. -/
  | deviceIntermediate
  /-- In the body of a device string, or in a string of no use. -/
  | hidden
deriving Repr, DecidableEq

/-- A control character that sets text apart. -/
def isSpacing (c : Char) : Bool := c = '\t' || c = '\n' || c = '\x0c' || c = '\r'

namespace ControlStage

/-- The stage after a character that follows an escape character. -/
def afterEscape (c : Char) : ControlStage :=
  if c < ' ' ∨ c = '\x7f' ∨ '\x80' ≤ c then escape
  else if c ≤ '/' then escapeIntermediate
  else if c = '[' then sequence
  else if c = ']' then systemCommand
  else if c = 'P' then deviceEntry
  else if c = 'X' ∨ c = '^' ∨ c = '_' then hidden
  else text

/-- The stage after a character at the start of a device string. -/
def afterDevice (stage : ControlStage) (c : Char) : ControlStage :=
  if c < ' ' ∨ '\x7f' ≤ c then stage
  else if c ≤ '/' then deviceIntermediate
  else if c ≤ '?' then
    if stage = deviceEntry ∨ (stage = deviceParameters ∧ c ≤ ';') then deviceParameters else hidden
  else hidden

/-- The stage after a character. -/
def next (stage : ControlStage) (c : Char) : ControlStage :=
  if c = '\x1b' then escape
  else if c = '\x18' ∨ c = '\x1a' then text
  else
    match stage with
    | text => text
    | escape => afterEscape c
    | escapeIntermediate => if '0' ≤ c ∧ c ≤ '~' then text else escapeIntermediate
    | sequence => if '@' ≤ c ∧ c ≤ '~' then text else sequence
    | systemCommand => if c = '\x07' then text else systemCommand
    | deviceEntry | deviceParameters | deviceIntermediate => afterDevice stage c
    | hidden => if 0x9C ∈ String.utf8EncodeChar c then text else hidden

/-- The character is kept: it is text, or it sets text apart and stands in no string. -/
def keeps (stage : ControlStage) (c : Char) : Bool :=
  match stage with
  | text => isSpacing c || (' ' ≤ c && c != '\x7f')
  | escape | escapeIntermediate | sequence => isSpacing c
  | systemCommand | deviceEntry | deviceParameters | deviceIntermediate | hidden => false

end ControlStage

/-- The characters that are kept, from a stage on. With the first kept character text is `shown`:
what follows is kept up to the next character that is no text. If the kept character stood in a
sequence, that sequence goes on there, unless a character outside ASCII has ended it. -/
def keptFrom (stage : ControlStage) (shown : Bool) : List Char → List Char
  | [] => []
  | c :: cs =>
    if (if shown then ControlStage.text else stage).keeps c then
      c :: keptFrom (if c < '\x80' then stage else .text) true cs
    else keptFrom (stage.next c) false cs

/-- The text without control sequences. -/
def withoutControls (s : String) : String :=
  String.ofList (keptFrom .text false s.toList)

end AbiBindings.Text
