import AbiBindings.Proofs.TypeScript.Allocation
import AbiBindings.Proofs.TypeScript.Statements
import AbiBindings.Proofs.TypeScript.StringReader

/-!
# Object literals

A reader for values that are written as literals: strings in quotes of either kind, and objects in
braces, whose keys are words or strings. The entries of an object are kept as they are listed, so a
key that comes twice is there twice.

`LiteralValue.text` writes such values with a blank inside each brace and keys bare where they can
be. What it writes is read back, whatever the keys are and whatever comes after it
(`readValue_text`).
-/

namespace AbiBindings.TypeScript

open LexState

/-- A value that is written as a literal. -/
inductive LiteralValue where
  | string (text : String)
  | object (entries : List (String × LiteralValue))
deriving Repr

/-! ### Reading -/

/-- What comes after blanks. -/
def skipBlanks (cs : List Char) : List Char := cs.dropWhile (· = ' ')

/-- What comes after a mark that may have blanks before it. -/
def readMark (mark : Char) (cs : List Char) : Option (List Char) :=
  match skipBlanks cs with
  | [] => none
  | c :: rest => if c = mark then some rest else none

/-- A key and what comes after it. A word is as long as it can be. -/
def readKey : List Char → Option (String × List Char)
  | [] => none
  | c :: cs =>
    if isQuote c then (readString c cs).map (.map String.ofList id)
    else if isIdentifierStart c then
      some (String.ofList (c :: cs.takeWhile isIdentifierChar), cs.dropWhile isIdentifierChar)
    else none

mutual

/-- The value at the start of a text and what comes after it, if the number is as large as that of
its characters. -/
def readValue : Nat → List Char → Option (LiteralValue × List Char)
  | 0, _ => none
  | fuel + 1, cs =>
    match skipBlanks cs with
    | [] => none
    | c :: rest =>
      if isQuote c then (readString c rest).map (.map (.string ∘ String.ofList) id)
      else if c = '\x7b' then (readEntries fuel rest).map (.map .object id)
      else none

/-- The entries up to a closing brace. -/
def readEntries : Nat → List Char → Option (List (String × LiteralValue) × List Char)
  | 0, _ => none
  | fuel + 1, cs =>
    match readMark '\x7d' cs with
    | some rest => some ([], rest)
    | none => do
      let (key, rest) ← readKey (skipBlanks cs)
      let rest ← readMark ':' rest
      let (value, rest) ← readValue fuel rest
      match readMark ',' rest with
      | some rest => do
        let (entries, rest) ← readEntries fuel rest
        return ((key, value) :: entries, rest)
      | none => return ([(key, value)], ← readMark '\x7d' rest)

end

/-- The value that a text is, with nothing after it. -/
def readLiteral (text : String) : Option LiteralValue :=
  match readValue text.toList.length text.toList with
  | some (value, []) => some value
  | _ => none

/-! ### Writing -/

namespace LiteralValue

mutual

/-- The text of a value. -/
def text : LiteralValue → String
  | string text => stringLiteral text
  | object entries => "\x7b " ++ ", ".intercalate (entryTexts entries) ++ " \x7d"

/-- The texts of entries. -/
def entryTexts : List (String × LiteralValue) → List String
  | [] => []
  | (key, value) :: entries => (propertyKey key ++ ": " ++ value.text) :: entryTexts entries

end

end LiteralValue

/-! ### Marks and keys -/

theorem skipBlanks_blank (cs : List Char) : skipBlanks (' ' :: cs) = skipBlanks cs := rfl

theorem skipBlanks_of_ne {c : Char} (h : c ≠ ' ') (cs : List Char) :
    skipBlanks (c :: cs) = c :: cs :=
  List.dropWhile_cons_of_neg (by simpa using h)

theorem readMark_blank (mark : Char) (cs : List Char) :
    readMark mark (' ' :: cs) = readMark mark cs := rfl

theorem readMark_self {mark : Char} (h : mark ≠ ' ') (rest : List Char) :
    readMark mark (mark :: rest) = some rest := by
  rw [readMark, skipBlanks_of_ne h]
  exact if_pos rfl

theorem readMark_of_ne {mark c : Char} (hblank : c ≠ ' ') (h : c ≠ mark) (rest : List Char) :
    readMark mark (c :: rest) = none := by
  rw [readMark, skipBlanks_of_ne hblank]
  exact if_neg h

theorem readValue_blank (fuel : Nat) (cs : List Char) :
    readValue fuel (' ' :: cs) = readValue fuel cs := by
  cases fuel with
  | zero => rw [readValue, readValue]
  | succ fuel => rw [readValue, readValue, skipBlanks_blank]

theorem readEntries_blank (fuel : Nat) (cs : List Char) :
    readEntries fuel (' ' :: cs) = readEntries fuel cs := by
  cases fuel with
  | zero => rw [readEntries, readEntries]
  | succ fuel => rw [readEntries, readEntries, readMark_blank, skipBlanks_blank]

/-- A string in quotes is read to its closing quote. -/
theorem readString_quoted (quote : Char) (hquote : isQuote quote = true) (text : String)
    (rest : List Char) :
    ∃ inner, literal quote text.toList ++ rest = quote :: inner ∧
      readString quote inner = some (text.toList, rest) := by
  refine ⟨text.toList.flatMap (escapedChar quote) ++ quote :: rest, ?_,
    readString_literal hquote text.toList rest⟩
  simp [literal]

/-- A key starts with a character that is neither a blank nor a mark, and is read to its end. -/
theorem readKey_propertyKey (key : String) (rest : List Char) (hrest : startsWord rest = false) :
    readKey ((propertyKey key).toList ++ rest) = some (key, rest) ∧
      ∃ c cs, (propertyKey key).toList ++ rest = c :: cs ∧ c ≠ ' ' ∧ c ≠ '\x7d' := by
  rw [propertyKey]
  split_ifs with hbare
  · have hword := (Bool.and_eq_true_iff.1 hbare).1
    cases hkey : key.toList with
    | nil => rw [hkey] at hword; cases hword
    | cons c cs =>
      rw [hkey, isWord_cons_iff] at hword
      have hstart : isQuote c = false ∧ c ≠ ' ' ∧ c ≠ '\x7d' := by
        refine ⟨Bool.eq_false_iff.2 fun hquote ↦ ?_, ?_, ?_⟩
        · have hquotes : c = '\'' ∨ c = '"' := by simpa [isQuote] using hquote
          obtain rfl | rfl := hquotes <;> exact absurd hword.1 (by decide)
        · rintro rfl
          exact absurd hword.1 (by decide)
        · rintro rfl
          exact absurd hword.1 (by decide)
      obtain ⟨htake, hdrop⟩ := span_word hword.2 hrest
      refine ⟨?_, c, cs ++ rest, rfl, hstart.2⟩
      rw [List.cons_append, readKey, hstart.1, if_neg (by decide), if_pos hword.1, htake,
        hdrop, ← hkey, String.ofList_toList]
  · obtain ⟨inner, htext, hread⟩ := readString_quoted '"' rfl key rest
    rw [quotedKey, String.toList_ofList, htext]
    refine ⟨?_, '"', inner, rfl, by decide, by decide⟩
    rw [readKey, if_pos (by decide), hread, Option.map_some, Prod.map_apply, String.ofList_toList]
    rfl

/-! ### Reading back -/

theorem LiteralValue.toList_object (entries : String) :
    ("\x7b " ++ entries ++ " \x7d").toList =
      '\x7b' :: ' ' :: (entries.toList ++ [' ', '\x7d']) := by simp

theorem LiteralValue.toList_entry (key value : String) :
    (propertyKey key ++ ": " ++ value).toList = (propertyKey key).toList ++
      ':' :: ' ' :: value.toList := by simp

section Entries

variable {fuel : Nat} {key : String} {value : LiteralValue} {cs rest : List Char}

/-- An entry is read with its key, its value and the mark after it. -/
theorem readEntries_entry (after : List Char) (hvalue : readValue fuel cs = some (value, after)) :
    readEntries (fuel + 1) ((propertyKey key).toList ++ ':' :: ' ' :: cs) =
      match readMark ',' after with
      | some rest => (readEntries fuel rest).map (.map ((key, value) :: ·) id)
      | none => (readMark '\x7d' after).map ([(key, value)], ·) := by
  obtain ⟨hkey, c, inner, htext, hblank, hbrace⟩ := readKey_propertyKey key (':' :: ' ' :: cs) rfl
  rw [htext] at hkey ⊢
  rw [readEntries, readMark_of_ne hblank hbrace, skipBlanks_of_ne hblank, hkey]
  simp only [Option.bind_eq_bind, Option.bind_some, readMark_self (show ':' ≠ ' ' by decide),
    readValue_blank, hvalue]
  cases readMark ',' after with
  | some rest =>
    dsimp only
    cases readEntries fuel rest <;> rfl
  | none =>
    dsimp only
    cases readMark '\x7d' after <;> rfl

end Entries

namespace LiteralValue

mutual

/-- A value is read back from its text. -/
theorem readValue_text (value : LiteralValue) (fuel : Nat) (hfuel : value.text.toList.length ≤ fuel)
    (rest : List Char) : readValue fuel (value.text.toList ++ rest) = some (value, rest) := by
  cases value with
  | string text =>
    obtain ⟨inner, htext, hread⟩ := readString_quoted '\'' rfl text rest
    rw [LiteralValue.text, stringLiteral, String.toList_ofList] at hfuel ⊢
    obtain ⟨fuel, rfl⟩ := Nat.exists_eq_add_of_le' (Nat.le_trans (Nat.le_add_left 1 _) hfuel)
    rw [htext, readValue, skipBlanks_of_ne (by decide)]
    show (if isQuote '\'' then _ else _) = _
    rw [if_pos (by decide), hread, Option.map_some, Prod.map_apply, Function.comp_apply,
      String.ofList_toList]
    rfl
  | object entries =>
    rw [LiteralValue.text, toList_object] at hfuel ⊢
    obtain ⟨fuel, rfl⟩ := Nat.exists_eq_add_of_le' (Nat.le_trans (Nat.le_add_left 1 _) hfuel)
    simp only [List.length_append, List.length_cons, List.length_nil] at hfuel
    have hentries := readEntries_text entries fuel (by omega) rest
    have happend :
        ('\x7b' :: ' ' ::
          ((", ".intercalate (entryTexts entries)).toList ++ [' ', '\x7d'])) ++ rest =
        '\x7b' :: ' ' :: ((", ".intercalate (entryTexts entries)).toList ++
          ' ' :: '\x7d' :: rest) := by simp
    rw [happend, readValue, skipBlanks_of_ne (by decide)]
    show (if isQuote '\x7b' then _ else if '\x7b' = '\x7b' then _ else _) = _
    rw [if_neg (by decide), if_pos rfl, readEntries_blank, hentries]
    rfl

/-- Entries are read back from their texts, up to the closing brace. -/
theorem readEntries_text (entries : List (String × LiteralValue)) (fuel : Nat)
    (hfuel : (", ".intercalate (entryTexts entries)).toList.length < fuel) (rest : List Char) :
    readEntries fuel ((", ".intercalate (entryTexts entries)).toList ++ ' ' :: '\x7d' :: rest) =
      some (entries, rest) := by
  obtain ⟨fuel, rfl⟩ := Nat.exists_eq_add_of_le' (Nat.le_trans (Nat.le_add_left 1 _) hfuel)
  match entries with
  | [] =>
    rw [entryTexts, String.intercalate_nil]
    show readEntries (fuel + 1) (' ' :: '\x7d' :: rest) = _
    rw [readEntries, readMark_blank, readMark_self (by decide)]
  | [(key, value)] =>
    rw [entryTexts, entryTexts, String.intercalate_singleton, toList_entry] at hfuel ⊢
    simp only [List.length_append, List.length_cons] at hfuel
    have hvalue := readValue_text value fuel (by omega) (' ' :: '\x7d' :: rest)
    rw [List.append_assoc, List.cons_append, List.cons_append, readEntries_entry _ hvalue]
    rfl
  | (key, value) :: (next, other) :: entries =>
    have hsplit (before after : String) : (before ++ ", " ++ after).toList =
        before.toList ++ ',' :: ' ' :: after.toList := by simp
    have htexts : entryTexts ((key, value) :: (next, other) :: entries) =
        (propertyKey key ++ ": " ++ value.text) :: (propertyKey next ++ ": " ++ other.text) ::
        entryTexts entries := by
      rw [entryTexts, entryTexts]
    have hmore := readEntries_text ((next, other) :: entries) fuel
    rw [htexts, String.intercalate_cons_cons, hsplit, toList_entry] at hfuel ⊢
    rw [entryTexts] at hmore
    generalize ", ".intercalate ((propertyKey next ++ ": " ++ other.text) :: entryTexts entries) =
      more at hmore hfuel ⊢
    simp only [List.length_append, List.length_cons] at hfuel
    have hvalue := readValue_text value fuel (by omega)
      (',' :: ' ' :: (more.toList ++ ' ' :: '\x7d' :: rest))
    have hmore := hmore (by omega) rest
    simp only [List.append_assoc, List.cons_append] at hvalue ⊢
    rw [readEntries_entry _ hvalue, readMark_self (by decide)]
    show (readEntries fuel (' ' :: (more.toList ++ ' ' :: '\x7d' :: rest))).map _ = _
    rw [readEntries_blank, hmore]
    rfl

end

/-- A text that was written is read as what it was written for. -/
theorem readLiteral_text (value : LiteralValue) : readLiteral value.text = some value := by
  have hread := readValue_text value _ (Nat.le_refl _) []
  rw [List.append_nil] at hread
  rw [readLiteral, hread]

end LiteralValue

end AbiBindings.TypeScript
