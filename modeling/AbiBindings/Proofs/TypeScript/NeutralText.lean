import AbiBindings.Proofs.TypeScript.Lexer
import AbiBindings.TypeScript.Literal
import AbiBindings.TypeScript.NameSet
import AbiBindings.TypeScript.TypeExpr

/-!
# Neutral names, literals and types

Text from outside enters generated code in three ways. It is made into an identifier, all characters
of which are plain. It is written as a literal, which scanning enters and leaves by its quotes,
whatever the text (`neutral_literal`). Or it is a property key, which is one or the other. Type
expressions are put together from these, so their texts are neutral as soon as the names in them
are.
-/

namespace AbiBindings.TypeScript

open LexState

/-! ### Names -/

/-- All characters may stand in an identifier. -/
def IsName (text : String) : Prop := ∀ c ∈ text.toList, isIdentifierChar c = true

instance (text : String) : Decidable (IsName text) :=
  decidable_of_iff (text.toList.all isIdentifierChar = true) List.all_eq_true

/-- A name has none of the characters that a lexer takes for more than a character. -/
theorem IsName.neutral {text : String} (h : IsName text) : Neutral text :=
  .of_isPlain fun c hc ↦ isPlain_of_class rfl (h c hc)

/-- Names are put together to names. -/
theorem IsName.append {text more : String} (h : IsName text) (hmore : IsName more) :
    IsName (text ++ more) := by
  intro c hc
  rw [String.toList_append, List.mem_append] at hc
  exact hc.elim (h c) (hmore c)

theorem isName_wordOf (text : List Char) : ∀ c ∈ wordOf text, isIdentifierChar c = true := by
  have hmap : ∀ c ∈ text.map (fun c ↦ if isIdentifierChar c then c else '_'),
      isIdentifierChar c = true := by
    intro c hc
    obtain ⟨d, -, rfl⟩ := List.mem_map.1 hc
    split
    · assumption
    · rfl
  unfold wordOf
  split
  · intro c hc
    obtain rfl := List.mem_singleton.1 hc
    rfl
  · rename_i c cs hcs
    rw [hcs] at hmap
    split
    · intro d hd
      obtain rfl | hd := List.mem_cons.1 hd
      · rfl
      · exact hmap d hd
    · exact hmap

/-- Any text becomes a name when it is made into an identifier. -/
theorem isName_identifier (text : String) : IsName (identifier text) := by
  have hword : IsName (String.ofList (wordOf text.toList)) := by
    intro c hc
    rw [String.toList_ofList] at hc
    exact isName_wordOf text.toList c hc
  rw [identifier]
  split
  · exact hword.append (by decide)
  · exact hword

/-- What may start an identifier may also stand in one. -/
theorem isIdentifierChar_of_isIdentifierStart {c : Char} (h : isIdentifierStart c = true) :
    isIdentifierChar c = true := by
  simp only [isIdentifierStart, Bool.or_eq_true, decide_eq_true_eq] at h
  simpa [isIdentifierChar, Char.isAlphanum, or_assoc] using h.imp_right Or.inl

theorem isName_of_isWord {text : String} (h : isWord text.toList = true) : IsName text := by
  intro c hc
  cases hchars : text.toList with
  | nil =>
    rw [hchars] at hc
    cases hc
  | cons d ds =>
    rw [hchars] at h hc
    obtain ⟨hstart, hrest⟩ := Bool.and_eq_true_iff.1 h
    obtain rfl | hc := List.mem_cons.1 hc
    · exact isIdentifierChar_of_isIdentifierStart hstart
    · exact List.all_eq_true.1 hrest c hc

/-- Identifiers are names; a name may also start with a digit. -/
theorem isName_of_isIdentifier {text : String} (h : isIdentifier text = true) : IsName text :=
  isName_of_isWord (Bool.and_eq_true_iff.1 h).1

/-- Numbers are names, and so a name stays one if it is numbered. -/
theorem isName_toString (n : Nat) : IsName (toString n) := by
  intro c hc
  have hdigits : c ∈ Nat.toDigits 10 n := by simpa using hc
  have hdigit := Nat.isDigit_of_mem_toDigits (by decide) (by decide) hdigits
  simp [isIdentifierChar, Char.isAlphanum, hdigit]

theorem IsName.fresh {base : String} (h : IsName base) (set : NameSet) :
    IsName (set.fresh base) := by
  have hcandidate (k : Nat) : IsName (NameSet.candidate base k) := by
    cases k with
    | zero => exact h
    | succ k => exact h.append (isName_toString (k + 2))
  rw [NameSet.fresh]
  split
  · exact hcandidate _
  · exact h

/-- All names that are allocated are names, if they are asked for by names. -/
theorem isName_allocate {bases : List String} (h : ∀ base ∈ bases, IsName base) (set : NameSet) :
    ∀ name ∈ (set.allocate bases).1, IsName name := by
  induction bases generalizing set with
  | nil => exact nofun
  | cons base bases ih =>
    intro name hname
    rw [NameSet.allocate] at hname
    obtain rfl | hname := List.mem_cons.1 hname
    · exact (h base List.mem_cons_self).fresh set
    · exact ih (fun other hother ↦ h other (List.mem_cons_of_mem base hother)) _ name hname

/-! ### Literals and property keys -/

/-- A character is written so that the string goes on after it. -/
theorem scan_escapedChar (quote c : Char) (due : List Char) :
    (⟨.string quote, due⟩ : LexState).scan (escapedChar quote c) = some ⟨.string quote, due⟩ := by
  -- no line end is written as it is: line feed and carriage return become letters after a backslash
  unfold escapedChar
  split_ifs with hbackslash hfeed hreturn htab hquote
  · rfl
  · rfl
  · rfl
  · rfl
  · simp [scan, step, isLineEnd, hfeed, hreturn]
  · simp [scan, step, isLineEnd, hbackslash, hfeed, hreturn, hquote]

/-- A string literal ends with its closing quote and not before: its text is escaped character by
character, and none of them leads out of the string. -/
theorem neutral_literal {quote : Char} (hquote : isQuote quote = true) (text : List Char) :
    Neutral (String.ofList (literal quote text)) := by
  have hbody (due : List Char) :
      (⟨.string quote, due⟩ : LexState).scan (text.flatMap (escapedChar quote)) =
      some ⟨.string quote, due⟩ := by
    induction text with
    | nil => rfl
    | cons c text ih => rw [List.flatMap_cons, scan_append, scan_escapedChar, Option.bind_some, ih]
  have hopen : (⟨.code, []⟩ : LexState).step quote = some ⟨.string quote, []⟩ := by
    simp only [isQuote, Bool.or_eq_true, decide_eq_true_eq] at hquote
    obtain rfl | rfl := hquote <;> rfl
  have hclose : (⟨.string quote, []⟩ : LexState).step quote = some ⟨.code, []⟩ := by
    simp only [isQuote, Bool.or_eq_true, decide_eq_true_eq] at hquote
    obtain rfl | rfl := hquote <;> rfl
  rw [Neutral, Leads, String.toList_ofList, literal, List.cons_append, scan, hopen,
    Option.bind_some, scan_append, hbody, Option.bind_some, scan, hclose]
  rfl

theorem neutral_stringLiteral (text : String) : Neutral (stringLiteral text) :=
  neutral_literal rfl text.toList

/-- A key is a name or a string literal. -/
theorem neutral_propertyKey (text : String) : Neutral (propertyKey text) := by
  rw [propertyKey]
  split
  · rename_i h
    exact (isName_of_isIdentifier h).neutral
  · exact neutral_literal rfl text.toList

/-- A property is accessed by a name, or by a string literal in brackets. -/
theorem neutral_propertyAccess (text : String) : Neutral (propertyAccess text) := by
  rw [propertyAccess]
  split
  · rename_i h
    exact Leads.append (.fixed rfl) (isName_of_isIdentifier h).neutral
  · have hkey : Neutral (quotedKey text) := neutral_literal rfl text.toList
    exact Leads.append (.append (.fixed rfl) (hkey.leads _)) (.fixed rfl)

/-! ### Type expressions -/

/-- A type that allows for null is neutral if the type is. -/
theorem neutral_orNull {type : String} (h : Neutral type) (nullable : Bool) :
    Neutral (orNull type nullable) := by
  cases nullable with
  | false => exact h
  | true => exact h.append (.fixed rfl)

/-- The properties of an object type, or the parameters of a method. -/
theorem neutral_memberTexts {members : List (Member TypeExpr)}
    (h : ∀ member ∈ members, Neutral member.type.text) :
    ∀ text ∈ TypeExpr.memberTexts members, Neutral text := by
  induction members with
  | nil => exact nofun
  | cons member members ih =>
    obtain ⟨key, type, nullable⟩ := member
    rw [TypeExpr.memberTexts]
    intro text htext
    obtain rfl | htext := List.mem_cons.1 htext
    · have htype := neutral_orNull (h _ List.mem_cons_self) nullable
      exact ((neutral_propertyKey key).append (.fixed rfl)).append htype
    · exact ih (fun other hother ↦ h other (List.mem_cons_of_mem _ hother)) text htext

namespace TypeExpr

/-- The brackets of a list type are closed at once. -/
theorem neutral_array {items : TypeExpr} (h : Neutral items.text) : Neutral (array items).text := by
  rw [text]
  exact h.append (.fixed rfl)

/-- A type for maps has no brackets that a lexer counts. -/
theorem neutral_dictionary {key value : TypeExpr} (hkey : Neutral key.text)
    (hvalue : Neutral value.text) : Neutral (dictionary key value).text := by
  rw [text]
  exact ((((Leads.fixed rfl : Neutral "Record<").append hkey).append (.fixed rfl)).append
    hvalue).append (.fixed rfl)

/-- The braces of an object type are closed after its members, whose keys are any texts. -/
theorem neutral_object {members : List (Member TypeExpr)}
    (h : ∀ member ∈ members, Neutral member.type.text) : Neutral (object members).text := by
  cases members with
  | nil =>
    rw [text]
    exact .fixed rfl
  | cons member members =>
    have hmembers := Neutral.intercalate (Leads.fixed rfl : Neutral "; ") (neutral_memberTexts h)
    rw [text]
    exact Leads.append (.append (.fixed rfl) (hmembers.leads _)) (.fixed rfl)

end TypeExpr

end AbiBindings.TypeScript
