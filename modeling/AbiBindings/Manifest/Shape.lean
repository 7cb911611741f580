import AbiBindings.Manifest.Basic
import AbiBindings.Manifest.Problem

/-!
# Reading the parts of a manifest

The parts of a manifest are written as objects with known keys; a list of the values, in the order
of the keys, is taken as well. A `Shape` describes such a part by its keys, and `Shape.ofObject` and
`Shape.ofList` read the two forms. The entries are read in the order in which they stand and the
first problem ends the reading; keys that are not known are skipped over.

A problem that concerns a list or an object as a whole, such as a missing key, is placed where the
reader stands after it has tried to close that list or object.
-/

namespace AbiBindings

open Json

/-! ### Where problems are placed -/

/-- What a reading starts from. -/
inductive Source where
  | value
  | text (chars : List Char)

namespace Source

/-- An offset, if there is a text for it. -/
def place (source : Source) (offset : Nat) : Option Nat :=
  match source with
  | value => none
  | text _ => some offset

/-- The text from an offset on, without leading blanks, and its offset. -/
def fromOffset (chars : List Char) (offset : Nat) : Nat × List Char :=
  let rest := Text.dropBytes offset chars
  let blanks := rest.takeWhile Token.isBlank
  (offset + blanks.length, rest.drop blanks.length)

/-- Where the reader stands after trying to close an object from the given offset. -/
def closeObject (source : Source) (offset : Nat) : Option Nat :=
  match source with
  | value => none
  | text chars =>
    match fromOffset chars offset with
    | (offset, c :: _) => if c = '\x7d' then some (offset + 1) else some offset
    | (offset, []) => some offset

/-- Where the reader stands after trying to close a list from the given offset; a comma is
passed. -/
def closeList (source : Source) (offset : Nat) : Option Nat :=
  match source with
  | value => none
  | text chars =>
    match fromOffset chars offset with
    | (offset, c :: _) =>
      if c = ']' then some (offset + 1)
      else if c = ',' then some (fromOffset chars (offset + 1)).1
      else some offset
    | (offset, []) => some offset

/-- The fault of a list that does not end at the given offset although all its values are read. -/
def openListFault (chars : List Char) (offset : Nat) : Fault :=
  match fromOffset chars offset with
  | (offset, []) => ⟨.endInList, offset⟩
  | (offset, c :: _) =>
    if c = ',' then
      match fromOffset chars (offset + 1) with
      | (offset, []) => ⟨.trailingText, offset⟩
      | (offset, d :: _) => ⟨if d = ']' then .trailingComma else .trailingText, offset + 1⟩
    else ⟨.trailingText, offset + 1⟩

end Source

/-- Places an error that has no place yet. -/
def ReadError.placed (error : ReadError) (close : Nat → Option Nat) (offset : Nat) : ReadError :=
  match error.offset with
  | none => { error with offset := close offset }
  | some _ => error

/-- The error of a value of the wrong kind. A value without parts counts as read, the bracket of any
other value does not. -/
def mismatch (source : Source) (wanted : Wanted) : Located → ReadError
  | .scalar (.ok value) stop => ⟨.mismatch (.scalar value) wanted, source.place stop⟩
  | .scalar (.error fault) _ => .ofFault fault
  | .list start _ _ _ => ⟨.mismatch .list wanted, source.place start⟩
  | .object start _ _ _ => ⟨.mismatch .object wanted, source.place start⟩
  | .broken cut => .ofFault cut.read

/-! ### Values without parts, optional values and lists -/

/-- Reads a text. -/
def readText (source : Source) : Located → Except ReadError String
  | .scalar (.ok (.string s)) _ => .ok s
  | node => .error (mismatch source .text node)

/-- Reads a flag. -/
def readFlag (source : Source) : Located → Except ReadError Bool
  | .scalar (.ok (.bool b)) _ => .ok b
  | node => .error (mismatch source .flag node)

/-- Reads a count of 32 bits. A double is none, even if it is whole. -/
def readCount (source : Source) : Located → Except ReadError UInt32
  | .scalar (.ok (.number (.whole n))) stop =>
    if 0 ≤ n ∧ n < 4294967296 then .ok (UInt32.ofNat n.toNat)
    else .error ⟨.outOfRange n, source.place stop⟩
  | node => .error (mismatch source .count node)

/-- Null stands for a value that is not there. -/
def isNull : Located → Bool
  | .scalar (.ok .null) _ => true
  | _ => false

/-- Refuses a list or an object that is nested too deep. -/
def checkDepth (start : Nat) (tooDeep : Bool) : Except ReadError Unit :=
  if tooDeep then .error (.ofFault (Located.depthFault start)) else .ok ()

/-- The end of a list or an object whose contents are read, as an offset. -/
def readEnding : Ending → Except ReadError Nat
  | .closed stop => .ok stop
  | .broken cut => .error (.ofFault cut.read)

/-- Reads the items of a list in turn. -/
def readItems {α : Type} (source : Source) (read : Located → Except ReadError α) :
    List Located → Except ReadError (List α)
  | [] => .ok []
  | node :: nodes => do
    let item ← (read node).mapError (·.placed source.closeList node.stop)
    return item :: (← readItems source read nodes)

/-- Reads a list. -/
def readList {α : Type} (source : Source) (read : Located → Except ReadError α) :
    Located → Except ReadError (List α)
  | .list start tooDeep nodes ending => do
    checkDepth start tooDeep
    let items ← readItems source read nodes
    let _ ← readEnding ending
    return items
  | node => .error (mismatch source .list node)

/-! ### Objects with known keys -/

/-- A value of an object or a list, with its readings as the parts of a manifest that may contain
themselves. -/
structure Child where
  node : Located
  typeRef : Unit → Except ReadError TypeRef
  fields : Unit → Except ReadError (List Field)

/-- A known key, and how its value is put among the values `σ` read so far. -/
structure Slot (σ : Type) where
  key : String
  given : σ → Bool
  read : Child → Except ReadError (σ → σ)

/-- The known keys of a part `α` of a manifest, and how the values read make up that part. -/
structure Shape (σ α : Type) where
  wanted : Wanted
  slots : List (Slot σ)
  empty : σ
  /-- The part, unless a value is absent. The problem of an absent value depends on the form. -/
  build : (absent : Nat → String → Problem) → σ → Except Problem α

/-- A slot for values of one type, given by where they go. -/
def Slot.of {σ β : Type} (key : String) (get : σ → Option β) (set : β → σ → σ)
    (read : Child → Except ReadError β) : Slot σ where
  key := key
  given parts := (get parts).isSome
  read child := (read child).map set

/-- A slot whose value may be null. -/
def Slot.ofOption {σ β : Type} (key : String) (get : σ → Option (Option β))
    (set : Option β → σ → σ) (read : Child → Except ReadError β) : Slot σ :=
  .of key get set fun child ↦ if isNull child.node then .ok none else (read child).map some

/-- A value that has to be there. -/
def require {β : Type} (problem : Problem) (value : Option β) : Except Problem β :=
  match value with
  | some b => .ok b
  | none => .error problem

namespace Shape

variable {σ α : Type}

/-- Passes over a value that nobody asked for. -/
def skip (node : Located) : Except ReadError Unit :=
  match node.break? with
  | none => .ok ()
  | some cut => .error (.ofFault cut.skipped)

/-- Reads the entries of an object. -/
def readEntries (source : Source) (slots : List (Slot σ)) :
    List (Key × Child) → σ → Except ReadError σ
  | [], parts => .ok parts
  | (key, child) :: entries, parts => do
    let name ← key.name.mapError .ofFault
    match slots.find? (·.key = name) with
    | none =>
      skip child.node
      readEntries source slots entries parts
    | some slot =>
      if slot.given parts then .error ⟨.repeated name, source.closeObject key.stop⟩
      else
        let fill ← (slot.read child).mapError (·.placed source.closeObject child.node.stop)
        readEntries source slots entries (fill parts)

/-- Reads the object form. -/
def ofObject (source : Source) (shape : Shape σ α) (start : Nat) (tooDeep : Bool)
    (entries : List (Key × Child)) (ending : Ending) : Except ReadError α := do
  checkDepth start tooDeep
  let parts ← readEntries source shape.slots entries shape.empty
  let stop ← readEnding ending
  (shape.build (fun _ key ↦ .missing key) parts).mapError (⟨·, source.place stop⟩)

/-- Reads as many values of a list as there are slots. -/
def readValues (source : Source) : List (Slot σ) → List Child → σ → Except ReadError σ
  | slot :: slots, child :: children, parts => do
    let fill ← (slot.read child).mapError (·.placed source.closeList child.node.stop)
    readValues source slots children (fill parts)
  | _, _, parts => .ok parts

/-- The end of a list after as many values as there are slots, or after fewer. -/
def readListEnd (source : Source) (slots : List (Slot σ)) (children : List Child)
    (ending : Ending) : Except ReadError Nat :=
  if children.length < slots.length then readEnding ending
  else
    match source, ending with
    | .text chars, .broken _ => .error (.ofFault (lastFault chars))
    | .text chars, .closed stop =>
      if slots.length < children.length then .error (.ofFault (lastFault chars)) else .ok stop
    | .value, _ =>
      if slots.length < children.length then .error ⟨.tooLong children.length, none⟩
      else readEnding ending
where
  lastFault (chars : List Char) : Fault :=
    Source.openListFault chars (((children.take slots.length).getLast?.map (·.node.stop)).getD 0)

/-- Reads the list form. -/
def ofList (source : Source) (shape : Shape σ α) (start : Nat) (tooDeep : Bool)
    (children : List Child) (ending : Ending) : Except ReadError α := do
  checkDepth start tooDeep
  let parts ← readValues source shape.slots children shape.empty
  let stop ← readListEnd source shape.slots children ending
  (shape.build (fun i _ ↦ .tooShort i shape.wanted shape.slots.length) parts).mapError
    (⟨·, source.place stop⟩)

end Shape

end AbiBindings
