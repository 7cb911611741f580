import AbiBindings.Json.Token

/-!
# JSON as it stands in a text

A JSON text is read once, into a tree that keeps what a plain value loses: the offsets of its parts,
every entry of an object with repeated keys, and the place where the text breaks off, if it does.
Both readings of a text start from this tree: as a plain value, by `Located.toJson`, and as a typed
one.

The tree stops at the first place where even a skipped value would be refused. Faults that only
matter to a value that is read, which are unpaired surrogates, numbers that are too large, and lists
and objects nested too deep, stay at their place in the tree.
-/

namespace AbiBindings.Json

/-- How a list or an object ends. -/
inductive Ending where
  /-- With its closing bracket, whose end has the given offset. -/
  | closed (stop : Nat)
  /-- Before its closing bracket. -/
  | broken (cut : Break)

/-- A key of an object. -/
structure Key where
  name : Except Fault String
  /-- The offset after the key. -/
  stop : Nat

/-- A JSON value as it stands in a text. -/
inductive Located where
  /-- A value without parts, with the offset after it. -/
  | scalar (value : Except Fault Scalar) (stop : Nat)
  /-- A list, with the offset of its bracket. -/
  | list (start : Nat) (tooDeep : Bool) (items : List Located) (ending : Ending)
  /-- An object, with the offset of its bracket. -/
  | object (start : Nat) (tooDeep : Bool) (entries : List (Key × Located)) (ending : Ending)
  /-- No value stands here. -/
  | broken (cut : Break)

namespace Located

/-- The greatest number of lists and objects that may be open at once. -/
def depthLimit : Nat := 127

/-- Where the value breaks off, if it does. -/
def break? : Located → Option Break
  | scalar _ _ => none
  | list _ _ _ (.closed _) | object _ _ _ (.closed _) => none
  | list _ _ _ (.broken cut) | object _ _ _ (.broken cut) => some cut
  | broken cut => some cut

/-- The offset after the value; a value that breaks off has none. -/
def stop : Located → Nat
  | scalar _ stop => stop
  | list _ _ _ (.closed stop) | object _ _ _ (.closed stop) => stop
  | _ => 0

/-- The fault of opening a list or an object too deep, before its bracket is read. -/
def depthFault (start : Nat) : Fault := ⟨.tooDeep, start + 1⟩

/-! ### From tokens to a tree -/

/-- The end of a text, as an offset. -/
abbrev TextEnd := Nat

mutual

/-- The value that the tokens start with, and the tokens after it. `depth` lists and objects enclose
it, and `fuel` bounds the number of steps. -/
def readValue (eof : TextEnd) : (fuel : Nat) → (depth : Nat) → List Token → Located × List Token
  | 0, _, _ | _, _, [] => (broken (.both .endInValue eof), [])
  | fuel + 1, depth, token :: tokens =>
    match token.lexeme with
    | .mark .openList =>
      let (items, ending, rest) := readFirstItem eof fuel (depth + 1) tokens
      (list token.start (depthLimit ≤ depth) items ending, rest)
    | .mark .openObject =>
      let (entries, ending, rest) := readFirstEntry eof fuel (depth + 1) tokens
      (object token.start (depthLimit ≤ depth) entries ending, rest)
    | .literal value => (scalar (.ok value) token.stop, tokens)
    | .number value => (scalar (value.map .number) token.stop, tokens)
    | .string value => (scalar (value.map .string) token.stop, tokens)
    | .brokenString cut | .brokenScalar cut => (broken cut, [])
    | .mark _ | .unknown => (broken (.both .noValue (token.start + 1)), [])

/-- The items of a list after its opening bracket. -/
def readFirstItem (eof : TextEnd) :
    (fuel : Nat) → (depth : Nat) → List Token → List Located × Ending × List Token
  | 0, _, _ | _, _, [] => ([], .broken (.both .endInList eof), [])
  | fuel + 1, depth, token :: tokens =>
    match token.lexeme with
    | .mark .closeList => ([], .closed token.stop, tokens)
    | _ => readItem eof fuel depth (token :: tokens)

/-- The items of a list from one of them on. -/
def readItem (eof : TextEnd) :
    (fuel : Nat) → (depth : Nat) → List Token → List Located × Ending × List Token
  | 0, _, _ => ([], .broken (.both .endInList eof), [])
  | fuel + 1, depth, tokens =>
    let (item, tokens) := readValue eof fuel depth tokens
    match item.break? with
    | some cut => ([item], .broken cut, [])
    | none =>
      let (items, ending, rest) := readNextItem eof fuel depth tokens
      (item :: items, ending, rest)

/-- The items of a list after one of them. -/
def readNextItem (eof : TextEnd) :
    (fuel : Nat) → (depth : Nat) → List Token → List Located × Ending × List Token
  | 0, _, _ | _, _, [] => ([], .broken (.both .endInList eof), [])
  | fuel + 1, depth, token :: tokens =>
    match token.lexeme with
    | .mark .closeList => ([], .closed token.stop, tokens)
    | .mark .comma =>
      match tokens with
      | [] => ([], .broken (.both .endInValue eof), [])
      | after :: _ =>
        match after.lexeme with
        | .mark .closeList => ([], .broken (.either .trailingComma .noValue (after.start + 1)), [])
        | _ => readItem eof fuel depth tokens
    | _ => ([], .broken (.both .noListSeparator (token.start + 1)), [])

/-- The entries of an object after its opening bracket. -/
def readFirstEntry (eof : TextEnd) :
    (fuel : Nat) → (depth : Nat) → List Token → List (Key × Located) × Ending × List Token
  | 0, _, _ | _, _, [] => ([], .broken (.both .endInObject eof), [])
  | fuel + 1, depth, token :: tokens =>
    match token.lexeme with
    | .mark .closeObject => ([], .closed token.stop, tokens)
    | _ => readEntry eof fuel depth (token :: tokens)

/-- The entries of an object from one of them on. -/
def readEntry (eof : TextEnd) :
    (fuel : Nat) → (depth : Nat) → List Token → List (Key × Located) × Ending × List Token
  | 0, _, _ | _, _, [] => ([], .broken (.both .endInObject eof), [])
  | fuel + 1, depth, token :: tokens =>
    match token.lexeme with
    | .string name =>
      let (value, tokens) := readEntryValue eof fuel depth tokens
      match value.break? with
      | some cut => ([(⟨name, token.stop⟩, value)], .broken cut, [])
      | none =>
        let (entries, ending, rest) := readNextEntry eof fuel depth tokens
        ((⟨name, token.stop⟩, value) :: entries, ending, rest)
    | .brokenString cut => ([], .broken cut, [])
    | _ => ([], .broken (.both .noKey (token.start + 1)), [])

/-- The colon after a key and the value after it. -/
def readEntryValue (eof : TextEnd) :
    (fuel : Nat) → (depth : Nat) → List Token → Located × List Token
  | 0, _, _ | _, _, [] => (broken (.both .endInObject eof), [])
  | fuel + 1, depth, token :: tokens =>
    match token.lexeme with
    | .mark .colon => readValue eof fuel depth tokens
    | _ => (broken (.both .noColon (token.start + 1)), [])

/-- The entries of an object after one of them. -/
def readNextEntry (eof : TextEnd) :
    (fuel : Nat) → (depth : Nat) → List Token → List (Key × Located) × Ending × List Token
  | 0, _, _ | _, _, [] => ([], .broken (.both .endInObject eof), [])
  | fuel + 1, depth, token :: tokens =>
    match token.lexeme with
    | .mark .closeObject => ([], .closed token.stop, tokens)
    | .mark .comma =>
      match tokens with
      | [] => ([], .broken (.either .endInValue .endInObject eof), [])
      | after :: _ =>
        match after.lexeme with
        | .mark .closeObject => ([], .broken (.either .trailingComma .noKey (after.start + 1)), [])
        | _ => readEntry eof fuel depth tokens
    | _ => ([], .broken (.both .noObjectSeparator (token.start + 1)), [])

end

/-- A text as a tree, with the fault of what follows the value, if anything does. -/
structure Root where
  value : Located
  trailing : Option Fault

/-- Reads a text. Each token is looked at in at most four steps. -/
def ofText (text : List Char) : Root :=
  let tokens := Token.scan text
  let (value, rest) := readValue (Text.byteSize text) (4 * tokens.length + 4) 0 tokens
  ⟨value, rest.head?.map fun token ↦ ⟨.trailingText, token.start + 1⟩⟩

/-! ### Trees and plain values -/

mutual

/-- A plain value as a tree; its offsets mean nothing. -/
def ofJson : Json → Located
  | .null => scalar (.ok .null) 0
  | .bool b => scalar (.ok (.bool b)) 0
  | .number n => scalar (.ok (.number n)) 0
  | .string s => scalar (.ok (.string s)) 0
  | .array items => list 0 false (ofJsonItems items) (.closed 0)
  | .object entries => object 0 false (ofJsonEntries entries) (.closed 0)

/-- The items of a plain list as trees. -/
def ofJsonItems : List Json → List Located
  | [] => []
  | item :: items => ofJson item :: ofJsonItems items

/-- The entries of a plain object as trees. -/
def ofJsonEntries : List (String × Json) → List (Key × Located)
  | [] => []
  | (key, value) :: entries => (⟨.ok key, 0⟩, ofJson value) :: ofJsonEntries entries

end

/-- A value without parts as a plain value. -/
def scalarJson : Scalar → Json
  | .null => .null
  | .bool b => .bool b
  | .number n => .number n
  | .string s => .string s

/-- What the end of a list or an object makes of its contents. -/
def atEnd {α : Type} (ending : Ending) (contents : α) : Except Fault α :=
  match ending with
  | .closed _ => .ok contents
  | .broken cut => .error cut.read

mutual

/-- The plain value of a tree, or the first fault in it. Of the entries with one key, the last gives
the value and the first its place. -/
def toJson : Located → Except Fault Json
  | scalar value _ => value.map scalarJson
  | list start tooDeep items ending => do
    if tooDeep then .error (depthFault start)
    return .array (← atEnd ending (← toJsonItems items))
  | object start tooDeep entries ending => do
    if tooDeep then .error (depthFault start)
    return .object (Table.ofEntries (← atEnd ending (← toJsonEntries entries)))
  | broken cut => .error cut.read

/-- The plain values of the items of a list. -/
def toJsonItems : List Located → Except Fault (List Json)
  | [] => .ok []
  | item :: items => return (← toJson item) :: (← toJsonItems items)

/-- The plain entries of an object, repeated keys included. -/
def toJsonEntries : List (Key × Located) → Except Fault (List (String × Json))
  | [] => .ok []
  | (key, value) :: entries => return (← key.name, ← toJson value) :: (← toJsonEntries entries)

end

end Located

/-- The plain value of a text, or its first fault. -/
def ofText (text : List Char) : Except Fault Json := do
  let root := Located.ofText text
  let value ← root.value.toJson
  match root.trailing with
  | none => return value
  | some fault => .error fault

end AbiBindings.Json
