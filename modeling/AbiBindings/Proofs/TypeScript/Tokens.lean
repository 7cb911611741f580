import AbiBindings.Proofs.TypeScript.TypeGrammar
import Mathlib.Data.List.TakeWhile

/-!
# Tokens of a line of code

The grammar of type expressions has a lexer that stops at characters no type is written with. This
one takes any line apart: words, strings in quotes of either kind, and every other character as a
mark of its own. It is a machine with one step for each character (`Partial.step`), so what a text
contributes is known once the machine has been run over it, whatever comes after it
(`tokens_fixed`).

On the text of a type both lexers agree, wherever the text stands in a line (`Spells.tokens`).
-/

namespace AbiBindings.TypeScript

open LexState

/-- A token of which only a part has been seen. -/
inductive Partial where
  | none
  | word (soFar : List Char)
  | string (quote : Char) (soFar : List Char)
  /-- After a backslash in a string. -/
  | escape (quote : Char) (soFar : List Char)
deriving Repr, DecidableEq

namespace Partial

/-- A character that comes after no token or after a whole one. -/
def start (c : Char) : List Token × Partial :=
  if c = ' ' then ([], none)
  else if isIdentifierStart c then ([], word [c])
  else if isQuote c then ([], string c [])
  else ([.mark c], none)

/-- One character: the tokens it completes, and what it leaves open. -/
def step : Partial → Char → List Token × Partial
  | none, c => start c
  | word soFar, c =>
    if isIdentifierChar c then ([], word (soFar ++ [c]))
    else (.word (String.ofList soFar) :: (start c).1, (start c).2)
  | string quote soFar, c =>
    if c = quote then ([.quoted (String.ofList soFar)], none)
    else if c = '\\' then ([], escape quote soFar)
    else ([], string quote (soFar ++ [c]))
  | escape quote soFar, c => ([], string quote (soFar ++ [(unescape c).getD c]))

/-- A text, one character after the other. -/
def run (seen : Partial) : List Char → List Token × Partial
  | [] => ([], seen)
  | c :: cs => ((seen.step c).1 ++ ((seen.step c).2.run cs).1, ((seen.step c).2.run cs).2)

/-- What is left at the end of a line. A string that is not closed is no token. -/
def flush : Partial → List Token
  | word soFar => [.word (String.ofList soFar)]
  | _ => []

/-- The tokens of what is left of a line. -/
def tokens (seen : Partial) (cs : List Char) :
    List Token := (seen.run cs).1 ++ (seen.run cs).2.flush

end Partial

/-- The tokens of a line. -/
def tokens (line : List Char) : List Token := Partial.none.tokens line

example : tokens "'it\\'s': (): T => $x_1[2]".toList = [.quoted "it's", .mark ':', .mark '(',
    .mark ')', .mark ':', .word "T", .mark '=', .mark '>', .word "$x_1", .mark '[', .mark '2',
    .mark ']'] := by decide

/-! ### Runs -/

namespace Partial

theorem tokens_cons (seen : Partial) (c : Char) (cs : List Char) :
    seen.tokens (c :: cs) = (seen.step c).1 ++ (seen.step c).2.tokens cs :=
  List.append_assoc _ _ _

/-- Tokens are read one part of a text after the other, with the token kept that goes on. -/
theorem tokens_append (seen : Partial) (cs ds : List Char) :
    seen.tokens (cs ++ ds) = (seen.run cs).1 ++ (seen.run cs).2.tokens ds := by
  induction cs generalizing seen with
  | nil => rfl
  | cons c cs ih => rw [List.cons_append, tokens_cons, ih, run, List.append_assoc]

/-- A word goes on as far as it can. -/
theorem tokens_word (soFar : List Char) {cs rest : List Char}
    (h : ∀ c ∈ cs, isIdentifierChar c = true) (hrest : startsWord rest = false) :
    (word soFar).tokens (cs ++ rest) =
      .word (String.ofList (soFar ++ cs)) :: TypeScript.tokens rest := by
  induction cs generalizing soFar with
  | nil =>
    rw [List.append_nil, List.nil_append]
    cases rest with
    | nil => rfl
    | cons c rest =>
      have hc : ¬ isIdentifierChar c = true := Bool.eq_false_iff.1 hrest
      rw [tokens_cons, step, if_neg hc, TypeScript.tokens, tokens_cons]
      rfl
  | cons c cs ih =>
    obtain ⟨hc, hcs⟩ := List.forall_mem_cons.1 h
    rw [List.cons_append, tokens_cons, step, if_pos hc, List.nil_append, ih _ hcs,
      List.append_assoc]
    rfl

/-- A string is read as by the reader for strings. -/
theorem tokens_string {quote : Char} (soFar : List Char) {cs text rest : List Char}
    (h : readString quote cs = some (text, rest)) (more : List Char) :
    (string quote soFar).tokens (cs ++ more) =
      .quoted (String.ofList (soFar ++ text)) :: TypeScript.tokens (rest ++ more) := by
  fun_induction readString quote cs generalizing soFar text rest with
  | case1 => cases h
  | case2 cs =>
    cases h
    rw [List.cons_append, tokens_cons, step, if_pos rfl, List.append_nil]
    rfl
  | case3 => cases h
  | case4 => cases h
  | case5 d ds hne hline ih =>
    obtain ⟨e, hescape, h⟩ := Option.bind_eq_some_iff.1 h
    obtain ⟨⟨inner, after⟩, hread, h⟩ := Option.map_eq_some_iff.1 h
    cases h
    rw [List.cons_append, List.cons_append, tokens_cons, step, if_neg hne, if_pos rfl, tokens_cons,
      step, hescape, List.nil_append, List.nil_append, Option.getD_some, ih _ hread,
      List.append_assoc]
    rfl
  | case6 c cs hne hline hslash ih =>
    obtain ⟨⟨inner, after⟩, hread, h⟩ := Option.map_eq_some_iff.1 h
    cases h
    rw [List.cons_append, tokens_cons, step, if_neg hne, if_neg hslash, List.nil_append,
      ih _ hread, List.append_assoc]
    rfl

end Partial

/-- A text that leaves no token open has the same tokens before any rest. -/
theorem tokens_fixed (text : String) (found : List Token)
    (h : Partial.none.run text.toList = (found, .none)) (rest : List Char) :
    tokens (text.toList ++ rest) = found ++ tokens rest := by
  rw [tokens, Partial.tokens_append, h]
  rfl

/-- A string literal is one token, with the text that it denotes. -/
theorem tokens_literal {quote : Char} (hquote : isQuote quote = true) (text rest : List Char) :
    tokens (literal quote text ++ rest) = .quoted (String.ofList text) :: tokens rest := by
  have hread := readString_literal hquote text []
  have hstart : Partial.start quote = ([], .string quote []) := by
    have hquotes : quote = '\'' ∨ quote = '"' := by simpa [isQuote] using hquote
    obtain rfl | rfl := hquotes <;> decide
  have hstring := Partial.tokens_string [] hread rest
  rw [List.append_assoc, List.nil_append, List.nil_append] at hstring
  rw [literal, List.cons_append, List.cons_append, tokens, Partial.tokens_cons,
    Partial.step, hstart, List.nil_append, List.append_assoc, hstring]

/-! ### Types -/

/-- What comes after the characters of a word does not go on with it. -/
theorem startsWord_dropWhile (cs : List Char) :
    startsWord (cs.dropWhile isIdentifierChar) = false := by
  have hnot := List.head?_dropWhile_not isIdentifierChar cs
  cases hdrop : cs.dropWhile isIdentifierChar with
  | nil => rfl
  | cons d ds =>
    rw [hdrop] at hnot
    exact hnot

/-- Where the lexer of type expressions gets through, it finds the same tokens. -/
theorem tokens_of_lex {cs rest : List Char} {found : List Token} (h : lex cs = some found)
    (hrest : startsWord rest = false) : tokens (cs ++ rest) = found ++ tokens rest := by
  induction cs using lex.induct generalizing found with
  | case1 =>
    rw [lex] at h
    cases h
    rfl
  | case2 cs ih =>
    rw [lex, if_pos rfl] at h
    rw [List.cons_append, tokens, Partial.tokens_cons]
    exact ih h
  | case3 c cs hblank hstart ih =>
    rw [lex, if_neg hblank, if_pos hstart] at h
    obtain ⟨after, hafter, rfl⟩ := Option.map_eq_some_iff.1 h
    -- the word ends inside the text, or with it, and then the rest does not go on with it
    have hseam : startsWord (cs.dropWhile isIdentifierChar ++ rest) = false := by
      have hnot := startsWord_dropWhile cs
      cases hdrop : cs.dropWhile isIdentifierChar with
      | nil => exact hrest
      | cons d ds =>
        rw [hdrop] at hnot
        exact hnot
    have hword := Partial.tokens_word [c]
      (fun d (hd : d ∈ cs.takeWhile isIdentifierChar) ↦ List.mem_takeWhile_imp hd) hseam
    rw [← List.append_assoc, List.takeWhile_append_dropWhile] at hword
    rw [List.cons_append, tokens, Partial.tokens_cons, Partial.step, Partial.start, if_neg hblank,
      if_pos hstart, List.nil_append, hword, ih hafter]
    rfl
  | case4 cs hnone hblank hstart =>
    rw [lex, if_neg hblank, if_neg hstart, if_pos rfl] at h
    split at h
    · cases h
    · rename_i hsome
      rw [hnone] at hsome
      cases hsome
  | case5 cs text after hread hblank hstart ih =>
    rw [lex, if_neg hblank, if_neg hstart, if_pos rfl] at h
    split at h
    · cases h
    · rename_i hsome
      rw [hread] at hsome
      cases hsome
      obtain ⟨more, hmore, rfl⟩ := Option.map_eq_some_iff.1 h
      rw [List.cons_append, tokens, Partial.tokens_cons]
      exact (Partial.tokens_string [] hread rest).trans (congrArg _ (ih hmore))
  | case6 c cs hblank hstart hquote hmark ih =>
    have hmarks : (marks.all fun c ↦ !isQuote c) = true := by decide
    have hnot : ¬ isQuote c = true := by
      simpa using List.all_eq_true.1 hmarks c (List.contains_iff_mem.1 hmark)
    rw [lex, if_neg hblank, if_neg hstart, if_neg hquote, if_pos hmark] at h
    obtain ⟨after, hafter, rfl⟩ := Option.map_eq_some_iff.1 h
    rw [List.cons_append, tokens, Partial.tokens_cons, Partial.step, Partial.start, if_neg hblank,
      if_neg hstart, if_neg hnot]
    exact congrArg _ (ih hafter)
  | case7 c cs hblank hstart hquote hmark =>
    rw [lex, if_neg hblank, if_neg hstart, if_neg hquote, if_neg hmark] at h
    cases h

/-- A text that one of the lexers knows is known to the other, wherever no word goes on after it. -/
theorem Spells.tokens {cs : List Char} {found : List Token} (h : Spells cs found)
    {rest : List Char} (hrest : startsWord rest = false) :
    TypeScript.tokens (cs ++ rest) = found ++ TypeScript.tokens rest := by
  have hlex := h [] rfl
  rw [List.append_nil, lex, Option.map_some, List.append_nil] at hlex
  exact tokens_of_lex hlex hrest

theorem tokens_word {word : String} (h : isWord word.toList = true) {rest : List Char}
    (hrest : startsWord rest = false) : tokens (word.toList ++ rest) = .word word :: tokens rest :=
  (spells_word h).tokens hrest

/-- A line that starts with a word has that word for its first token. -/
theorem head?_tokens {c : Char} (h : isIdentifierStart c = true) (cs : List Char) :
    (tokens (c :: cs)).head? =
      some (.word (String.ofList (c :: cs.takeWhile isIdentifierChar))) := by
  have hblank : c ≠ ' ' := by
    rintro rfl
    cases h
  have hword := Partial.tokens_word [c]
    (fun d (hd : d ∈ cs.takeWhile isIdentifierChar) ↦ List.mem_takeWhile_imp hd)
    (startsWord_dropWhile cs)
  rw [List.takeWhile_append_dropWhile] at hword
  rw [tokens, Partial.tokens_cons, Partial.step, Partial.start, if_neg hblank, if_pos h,
    List.nil_append, hword]
  rfl

theorem tokens_stringLiteral (text : String) (rest : List Char) :
    tokens ((stringLiteral text).toList ++ rest) = .quoted text :: tokens rest := by
  rw [stringLiteral, String.toList_ofList, tokens_literal rfl, String.ofList_toList]

end AbiBindings.TypeScript
