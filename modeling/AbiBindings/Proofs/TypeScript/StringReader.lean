import AbiBindings.Proofs.TypeScript.Lexer
import AbiBindings.TypeScript.Literal

/-!
# Reading string literals

A reader for strings in quotes, from after the opening quote on. An escape of one character stands
for that character or for a control character. Escapes of more characters, by their number or at the
end of a line, are not read, and neither is a line that ends inside the string.

What is escaped for quotes of one kind is read back, up to the closing quote and not further
(`readString_literal`), whatever the text is and whatever comes after the literal.
-/

namespace AbiBindings.TypeScript

open LexState

/-- The letters that stand for control characters after a backslash. -/
def controlEscapes : List (Char × Char) :=
  [('n', '\n'), ('r', '\r'), ('t', '\t'), ('b', '\x08'), ('v', '\x0b'), ('f', '\x0c')]

/-- What a character stands for after a backslash, if the escape has no further characters. -/
def unescape (c : Char) : Option Char :=
  if c.isDigit || c = 'x' || c = 'u' || isLineEnd c || c = '\u2028' || c = '\u2029' then none
  else some ((controlEscapes.lookup c).getD c)

/-- The text of a string and what comes after its closing quote. -/
def readString (quote : Char) : List Char → Option (List Char × List Char)
  | [] => none
  | c :: cs =>
    if c = quote then some ([], cs)
    else if isLineEnd c then none
    else if c = '\\' then
      match cs with
      | [] => none
      | d :: ds => (unescape d).bind fun e ↦ (readString quote ds).map (.map (e :: ·) id)
    else (readString quote cs).map (.map (c :: ·) id)

example : readString '"' ['a', '\\', '"', '\\', 'n', ';', '"', '|'] =
    some (['a', '"', '\n', ';'], ['|']) := by
  decide

theorem readString_quote (quote : Char) (rest : List Char) :
    readString quote (quote :: rest) = some ([], rest) := by
  unfold readString
  exact if_pos rfl

theorem readString_escape {quote : Char} (hquote : isQuote quote = true) {c e : Char}
    (hc : unescape c = some e) (rest : List Char) :
    readString quote ('\\' :: c :: rest) = (readString quote rest).map (.map (e :: ·) id) := by
  have hne : '\\' ≠ quote := by
    rintro rfl
    exact absurd hquote (by decide)
  rw [readString, if_neg hne, if_neg (by decide), if_pos rfl, hc]
  rfl

/-- What is written for a character is read as that character. -/
theorem readString_escapedChar {quote : Char} (hquote : isQuote quote = true) (c : Char)
    (rest : List Char) :
    readString quote (escapedChar quote c ++ rest) =
      (readString quote rest).map (.map (c :: ·) id) := by
  rw [escapedChar]
  split_ifs with hslash hfeed hreturn htab hsame
  · subst hslash
    exact readString_escape hquote (by decide) rest
  · subst hfeed
    exact readString_escape hquote (by decide) rest
  · subst hreturn
    exact readString_escape hquote (by decide) rest
  · subst htab
    exact readString_escape hquote (by decide) rest
  · subst hsame
    have hquotes : c = '\'' ∨ c = '"' := by simpa [isQuote] using hquote
    refine readString_escape hquote ?_ rest
    obtain rfl | rfl := hquotes <;> decide
  · have hline : ¬ isLineEnd c = true := by simp [isLineEnd, hfeed, hreturn]
    rw [List.singleton_append, readString.eq_def]
    exact (if_neg hsame).trans ((if_neg hline).trans (if_neg hslash))

/-- A literal is read back to its closing quote. -/
theorem readString_literal {quote : Char} (hquote : isQuote quote = true) (text rest : List Char) :
    readString quote (text.flatMap (escapedChar quote) ++ quote :: rest) = some (text, rest) := by
  induction text with
  | nil => exact readString_quote quote rest
  | cons c text ih =>
    rw [List.flatMap_cons, List.append_assoc, readString_escapedChar hquote, ih]
    rfl

/-- The reader takes at least the closing quote. -/
theorem length_lt_of_readString {quote : Char} {cs text rest : List Char}
    (h : readString quote cs = some (text, rest)) : rest.length < cs.length := by
  fun_induction readString quote cs generalizing text rest with
  | case1 => cases h
  | case2 cs => cases h; exact Nat.lt_succ_self _
  | case3 => cases h
  | case4 => cases h
  | case5 d ds hne hline ih =>
    obtain ⟨e, -, h⟩ := Option.bind_eq_some_iff.1 h
    obtain ⟨⟨inner, after⟩, hread, h⟩ := Option.map_eq_some_iff.1 h
    cases h
    exact Nat.lt_add_right 2 (ih hread)
  | case6 c cs hne hline hslash ih =>
    obtain ⟨⟨inner, after⟩, hread, h⟩ := Option.map_eq_some_iff.1 h
    cases h
    exact Nat.lt_succ_of_lt (ih hread)

end AbiBindings.TypeScript
