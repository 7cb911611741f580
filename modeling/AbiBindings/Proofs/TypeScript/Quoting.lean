import AbiBindings.Json.StringBody
import AbiBindings.Proofs.TypeScript.ObjectLiteral

/-!
# Quoting loses nothing

`readText` reads strings in quotes with all their escapes: letters for control characters, numbers
of characters in hexadecimal digits, and line ends after a backslash, which stand for nothing. What
the stricter `readString` reads, it reads alike (`readText_of_readString`). So a literal `Denotes`
the text that it was written for: the reader takes all of it and no more, whatever comes after it.

From this it follows that literals of different texts are different. A property key is read back
too, whether it is bare or quoted (`readKey_propertyKey`), and an access is an identifier after a
dot or a literal in brackets, so both are different for different texts as well.
-/

namespace AbiBindings.TypeScript

open LexState

/-! ### Reading strings -/

/-- The number that hexadecimal digits stand for. -/
def hexNumber? (digits : List Char) : Option Nat :=
  digits.foldlM (fun n c ↦ (Json.StringBody.hexDigit? c).map (16 * n + ·)) 0

/-- The character whose number the digits are, if there are digits and a character has the number.
Half of a surrogate pair is no character. -/
def charOfHex? (digits : List Char) : Option Char :=
  if digits.isEmpty then none
  else (hexNumber? digits).bind fun n ↦ if n.isValidChar then some (Char.ofNat n) else none

/-- A character by its number in a fixed count of digits, and what comes after them. -/
def readFixedHex (count : Nat) (cs : List Char) : Option (List Char × List Char) :=
  if cs.length < count then none else (charOfHex? (cs.take count)).map ([·], cs.drop count)

/-- A character by its number in as many digits as come before a closing brace, and what comes after
it. -/
def readBracedHex (cs : List Char) : Option (List Char × List Char) :=
  match cs.dropWhile (· ≠ '\x7d') with
  | [] => none
  | _ :: rest => (charOfHex? (cs.takeWhile (· ≠ '\x7d'))).map ([·], rest)

/-- What an escape stands for, from after the backslash on, and what comes after it. -/
def readEscape : List Char → Option (List Char × List Char)
  | [] => none
  | c :: cs =>
    if c = '\r' then some ([], if cs.head? = some '\n' then cs.tail else cs)
    else if c = '\n' || c = '\u2028' || c = '\u2029' then some ([], cs)
    else if c = '0' && !cs.head?.any Char.isDigit then some (['\x00'], cs)
    else if c.isDigit then none
    else if c = 'x' then readFixedHex 2 cs
    else if c = 'u' then if cs.head? = some '\x7b' then readBracedHex cs.tail else readFixedHex 4 cs
    else some ([(controlEscapes.lookup c).getD c], cs)

example : readEscape ['x', '4', '1', 'b'] = some (['A'], ['b']) ∧
    readEscape ['\r', '\n', 'b'] = some ([], ['b']) ∧
    readEscape ['u', '\x7b', '3', 'b', 'b', '\x7d', 'b'] = some (['λ'], ['b']) ∧
    readEscape ['0', '1'] = none := by
  decide

theorem length_le_of_readFixedHex {count : Nat} {cs text rest : List Char}
    (h : readFixedHex count cs = some (text, rest)) : rest.length ≤ cs.length := by
  rw [readFixedHex] at h
  split at h
  · cases h
  · obtain ⟨c, -, hrest⟩ := Option.map_eq_some_iff.1 h
    cases hrest
    exact (List.drop_sublist _ _).length_le

theorem length_le_of_readBracedHex {cs text rest : List Char}
    (h : readBracedHex cs = some (text, rest)) : rest.length ≤ cs.length := by
  rw [readBracedHex] at h
  split at h
  · cases h
  · rename_i brace after hdrop
    obtain ⟨c, -, hrest⟩ := Option.map_eq_some_iff.1 h
    cases hrest
    have hlength := (List.dropWhile_sublist (· ≠ '\x7d') (l := cs)).length_le
    rw [hdrop, List.length_cons] at hlength
    omega

/-- Reading an escape leaves no more than there was. -/
theorem length_le_of_readEscape {cs text rest : List Char} (h : readEscape cs = some (text, rest)) :
    rest.length ≤ cs.length := by
  rcases cs with _ | ⟨c, cs⟩
  · cases h
  · have htail : cs.tail.length ≤ cs.length := (List.tail_sublist cs).length_le
    rw [readEscape] at h
    refine Nat.le_succ_of_le ?_
    split_ifs at h
    · cases h
      exact htail
    · cases h
      exact Nat.le_refl _
    · cases h
      exact Nat.le_refl _
    · cases h
      exact Nat.le_refl _
    · exact length_le_of_readFixedHex h
    · exact Nat.le_trans (length_le_of_readBracedHex h) htail
    · exact length_le_of_readFixedHex h
    · cases h
      exact Nat.le_refl _

/-- The text of a string, from after its opening quote on, and what comes after its closing
quote. -/
def readText (quote : Char) : List Char → Option (List Char × List Char)
  | [] => none
  | c :: cs =>
    if c = quote then some ([], cs)
    else if isLineEnd c then none
    else if c = '\\' then
      match _ : readEscape cs with
      | none => none
      | some (text, rest) => (readText quote rest).map (.map (text ++ ·) id)
    else (readText quote cs).map (.map (c :: ·) id)
termination_by cs => cs.length
decreasing_by
  · exact Nat.lt_succ_of_le (length_le_of_readEscape ‹_›)
  · exact Nat.lt_succ_self _

/-- A string with its quotes, and what comes after it. -/
def readQuoted : List Char → Option (String × List Char)
  | [] => none
  | c :: cs => if isQuote c then (readText c cs).map (.map String.ofList id) else none

/-- An escape of one character stands for that character. -/
theorem readEscape_of_unescape {c e : Char} (h : unescape c = some e) (cs : List Char) :
    readEscape (c :: cs) = some ([e], cs) := by
  rw [unescape] at h
  split at h
  · cases h
  · rename_i hplain
    cases h
    simp only [Bool.or_eq_true, decide_eq_true_eq, not_or, isLineEnd] at hplain
    have hzero : c ≠ '0' := by
      rintro rfl
      exact hplain.1.1.1.1.1 (by decide)
    simp [readEscape, hplain, hzero]

/-- An escape that is read is put in front of what comes after it. -/
theorem readText_escape {quote : Char} (hquote : '\\' ≠ quote) {cs text rest : List Char}
    (h : readEscape cs = some (text, rest)) :
    readText quote ('\\' :: cs) = (readText quote rest).map (.map (text ++ ·) id) := by
  rw [readText, if_neg hquote, if_neg (by decide), if_pos rfl]
  split
  · rename_i hnone
    rw [h] at hnone
    cases hnone
  · rename_i hsome
    rw [h] at hsome
    cases hsome
    rfl

/-- What the strict reader reads is read alike. -/
theorem readText_of_readString {quote : Char} {cs text rest : List Char}
    (h : readString quote cs = some (text, rest)) : readText quote cs = some (text, rest) := by
  fun_induction readString quote cs generalizing text rest with
  | case1 => cases h
  | case2 cs => rw [readText, if_pos rfl, h]
  | case3 => cases h
  | case4 => cases h
  | case5 d ds hne hline ih =>
    obtain ⟨e, hescape, h⟩ := Option.bind_eq_some_iff.1 h
    obtain ⟨⟨inner, after⟩, hread, h⟩ := Option.map_eq_some_iff.1 h
    cases h
    rw [readText_escape hne (readEscape_of_unescape hescape ds), ih hread]
    rfl
  | case6 c cs hne hline hslash ih =>
    obtain ⟨⟨inner, after⟩, hread, h⟩ := Option.map_eq_some_iff.1 h
    cases h
    rw [readText, if_neg hne, if_neg hline, if_neg hslash, ih hread]
    rfl

/-! ### Literals -/

/-- The first text is a string that stands for the second: it is read to its end and no further,
whatever comes after it, and no line ends in it. -/
structure Denotes (written text : String) : Prop where
  read : ∀ rest, readQuoted (written.toList ++ rest) = some (text, rest)
  lineEnd : ∀ c ∈ written.toList, isLineEnd c = false

/-- No line end is left as it is. -/
theorem isLineEnd_escapedChar {quote : Char} (hquote : isLineEnd quote = false) (c : Char) :
    ∀ d ∈ escapedChar quote c, isLineEnd d = false := by
  have hpair {d : Char} (hd : isLineEnd d = false) : ∀ e ∈ ['\\', d], isLineEnd e = false :=
    List.forall_mem_cons.2 ⟨rfl, List.forall_mem_singleton.2 hd⟩
  unfold escapedChar
  split_ifs with hslash hfeed hreturn htab hsame
  · exact hpair rfl
  · exact hpair rfl
  · exact hpair rfl
  · exact hpair rfl
  · exact hpair (hsame ▸ hquote)
  · exact List.forall_mem_singleton.2 (by simp [isLineEnd, hfeed, hreturn])

/-- A literal stands for the text that it was written for. -/
theorem denotes_literal {quote : Char} (hquote : isQuote quote = true) (text : String) :
    Denotes (String.ofList (literal quote text.toList)) text := by
  constructor
  · intro rest
    obtain ⟨inner, hliteral, hread⟩ := readString_quoted quote hquote text rest
    rw [String.toList_ofList, hliteral, readQuoted, if_pos hquote, readText_of_readString hread,
      Option.map_some, Prod.map_apply, String.ofList_toList]
    rfl
  · have hend : isLineEnd quote = false := by
      have hquotes : quote = '\'' ∨ quote = '"' := by simpa [isQuote] using hquote
      obtain rfl | rfl := hquotes <;> decide
    intro c hc
    rw [String.toList_ofList, literal, List.cons_append] at hc
    rcases List.mem_cons.1 hc with rfl | hc
    · exact hend
    · rcases List.mem_append.1 hc with hc | hc
      · obtain ⟨d, -, hd⟩ := List.mem_flatMap.1 hc
        exact isLineEnd_escapedChar hend d c hd
      · rw [List.mem_singleton.1 hc]
        exact hend

/-- A string literal denotes its text, whatever that is. -/
theorem denotes_stringLiteral (text : String) : Denotes (stringLiteral text) text :=
  denotes_literal rfl text

/-- So does a quoted key. -/
theorem denotes_quotedKey (text : String) : Denotes (quotedKey text) text :=
  denotes_literal rfl text

/-- A string stands for one text only. -/
theorem Denotes.unique {written text other : String} (h : Denotes written text)
    (hother : Denotes written other) : text = other := by
  have hread := h.read []
  rw [hother.read []] at hread
  cases hread
  rfl

theorem length_le_flatMap_escapedChar (quote : Char) (text : List Char) :
    text.length ≤ (text.flatMap (escapedChar quote)).length := by
  induction text with
  | nil => exact Nat.le_refl _
  | cons c text ih =>
    have hchar : 1 ≤ (escapedChar quote c).length := by
      unfold escapedChar
      split_ifs <;> simp
    rw [List.flatMap_cons, List.length_append, List.length_cons]
    omega

/-- A literal is longer than its text. -/
theorem quotedKey_ne (text : String) : quotedKey text ≠ text := by
  intro h
  have hlength := congrArg (fun written : String ↦ written.toList.length) h
  have hle := length_le_flatMap_escapedChar '"' text.toList
  simp only [quotedKey, literal, String.toList_ofList, List.length_append, List.length_cons,
    List.length_nil] at hlength
  omega

/-! ### Keys and accesses -/

/-- Exactly the identifiers are not quoted as keys. -/
theorem propertyKey_eq_self_iff {text : String} :
    propertyKey text = text ↔ isIdentifier text = true := by
  refine ⟨fun hkey ↦ ?_, fun h ↦ if_pos h⟩
  by_contra h
  rw [propertyKey, if_neg h] at hkey
  exact quotedKey_ne text hkey

/-- What comes after a dot differs from what stands in brackets. -/
theorem dot_append_ne_brackets (text key : String) : "." ++ text ≠ "[" ++ key ++ "]" := by
  intro h
  have hhead := congrArg (fun access : String ↦ access.toList.head?) h
  simp at hhead

/-- Exactly the identifiers come after a dot. -/
theorem propertyAccess_eq_dot_iff {text : String} :
    propertyAccess text = "." ++ text ↔ isIdentifier text = true := by
  refine ⟨fun haccess ↦ ?_, fun h ↦ if_pos h⟩
  by_contra h
  rw [propertyAccess, if_neg h] at haccess
  exact dot_append_ne_brackets _ _ haccess.symm

/-- Texts are told apart by their literals. -/
theorem stringLiteral_injective : Function.Injective stringLiteral := by
  intro text other h
  exact (denotes_stringLiteral text).unique (h ▸ denotes_stringLiteral other)

theorem quotedKey_injective : Function.Injective quotedKey := by
  intro text other h
  exact (denotes_quotedKey text).unique (h ▸ denotes_quotedKey other)

/-- A key is read back, bare or not. -/
theorem propertyKey_injective : Function.Injective propertyKey := by
  intro text other h
  have hread := (readKey_propertyKey text [] rfl).1
  rw [h, (readKey_propertyKey other [] rfl).1] at hread
  cases hread
  rfl

theorem propertyAccess_injective : Function.Injective propertyAccess := by
  intro text other h
  unfold propertyAccess at h
  split_ifs at h
  · exact (String.append_right_inj ".").1 h
  · exact absurd h (dot_append_ne_brackets _ _)
  · exact absurd h.symm (dot_append_ne_brackets _ _)
  · exact quotedKey_injective ((String.append_right_inj "[").1 ((String.append_left_inj "]").1 h))

/-- Quoting loses nothing. A literal stands for its text, and so does what is quoted in a key or in
an access; keys and accesses are bare exactly for identifiers; and each of the three is different
for different texts. -/
theorem quoted_denotes (text : String) :
    Denotes (stringLiteral text) text ∧
      (propertyKey text = text ↔ isIdentifier text = true) ∧
      (propertyAccess text = "." ++ text ↔ isIdentifier text = true) ∧
      (isIdentifier text = false → Denotes (propertyKey text) text ∧
        ∃ key, propertyAccess text = "[" ++ key ++ "]" ∧ Denotes key text) ∧
      Function.Injective stringLiteral ∧ Function.Injective propertyKey ∧
        Function.Injective propertyAccess := by
  refine ⟨denotes_stringLiteral text, propertyKey_eq_self_iff,
    propertyAccess_eq_dot_iff, fun h ↦ ?_,
    stringLiteral_injective, propertyKey_injective, propertyAccess_injective⟩
  have hquoted : ¬ isIdentifier text = true := Bool.eq_false_iff.1 h
  rw [propertyKey, propertyAccess, if_neg hquoted, if_neg hquoted]
  exact ⟨denotes_quotedKey text, _, rfl, denotes_quotedKey text⟩

/-- A text with a quote of either kind, a line end, and backslashes before them and at its end. -/
def unquoted : String := "\\'\"\\\n\\"

theorem quoted_denotes_unquoted :
    isIdentifier unquoted = false ∧ Denotes (stringLiteral unquoted) unquoted ∧
      Denotes (propertyKey unquoted) unquoted ∧
      ∃ key, propertyAccess unquoted = "[" ++ key ++ "]" ∧ Denotes key unquoted := by
  have hquoted : isIdentifier unquoted = false := by decide
  obtain ⟨hliteral, -, -, hkeys, -⟩ := quoted_denotes unquoted
  exact ⟨hquoted, hliteral, hkeys hquoted⟩

end AbiBindings.TypeScript
