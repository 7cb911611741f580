import AbiBindings.Proofs.TypeScript.Allocation
import AbiBindings.Proofs.TypeScript.Exports
import AbiBindings.Proofs.TypeScript.StringReader

/-!
# The grammar of type expressions

A text is split into words, strings in double quotes and marks (`lex`). `IsType` and `AreMembers`
are the grammar of type expressions over these tokens, each rule with the tree it makes: `[]`
belongs to the type right before it, and `| null` to the whole type of a property.

The grammar is unambiguous: a reader by recursive descent finds the tree of every derivation
(`IsType.reads`), so tokens have one tree at most (`IsType.unique`). The text of a type expression
whose names are words has a derivation with that expression for its tree (`exists_isType_text`), and
so no other tree (`parses_text_iff`). The keys of its properties may be any texts.
-/

namespace AbiBindings.TypeScript

/-! ### Tokens -/

/-- A token of a type expression. -/
inductive Token where
  | word (text : String)
  /-- A string, by the text it stands for. -/
  | quoted (text : String)
  | mark (c : Char)
deriving Repr, DecidableEq

/-- The characters that are tokens of their own. -/
def marks : List Char := ['[', ']', '<', '>', '\x7b', '\x7d', ':', ';', ',', '|']

/-- The tokens of a text. A word is as long as it can be. -/
def lex : List Char → Option (List Token)
  | [] => some []
  | c :: cs =>
    if c = ' ' then lex cs
    else if isIdentifierStart c then
      (lex (cs.dropWhile isIdentifierChar)).map
        (.word (String.ofList (c :: cs.takeWhile isIdentifierChar)) :: ·)
    else if c = '"' then
      match _ : readString '"' cs with
      | none => none
      | some (text, rest) => (lex rest).map (.quoted (String.ofList text) :: ·)
    else if marks.contains c then (lex cs).map (.mark c :: ·)
    else none
termination_by cs => cs.length
decreasing_by
  · exact Nat.lt_succ_self _
  · exact Nat.lt_succ_of_le (List.dropWhile_suffix _).length_le
  · exact Nat.lt_succ_of_lt (length_lt_of_readString ‹_›)
  · exact Nat.lt_succ_self _

/-- The text has these tokens wherever no word goes on after it. -/
def Spells (cs : List Char) (tokens : List Token) : Prop :=
  ∀ rest, startsWord rest = false → lex (cs ++ rest) = (lex rest).map (tokens ++ ·)

theorem spells_nil : Spells [] [] := by
  intro rest _
  exact Option.map_id'.symm

/-- A text after another spells the tokens of both, unless a word would go on in it. -/
theorem Spells.append {cs ds : List Char} {tokens more : List Token} (h : Spells cs tokens)
    (hmore : Spells ds more) (hstart : startsWord ds = false) :
    Spells (cs ++ ds) (tokens ++ more) := by
  intro rest hrest
  have hafter : startsWord (ds ++ rest) = false := by
    cases ds with
    | nil => exact hrest
    | cons d ds => exact hstart
  rw [List.append_assoc, h _ hafter, hmore rest hrest, Option.map_map]
  simp [Function.comp_def]

theorem Spells.blank {cs : List Char} {tokens : List Token} (h : Spells cs tokens) :
    Spells (' ' :: cs) tokens := by
  intro rest hrest
  rw [List.cons_append, lex, if_pos rfl]
  exact h rest hrest

theorem Spells.mark {c : Char} (hc : c ∈ marks) {cs : List Char} {tokens : List Token}
    (h : Spells cs tokens) : Spells (c :: cs) (.mark c :: tokens) := by
  have hmarks : (marks.all fun c ↦ c ≠ ' ' ∧ ¬ isIdentifierStart c ∧ c ≠ '"') = true := by decide
  obtain ⟨hblank, hstart, hquote⟩ := of_decide_eq_true (List.all_eq_true.1 hmarks c hc)
  intro rest hrest
  rw [List.cons_append, lex, if_neg hblank, if_neg hstart, if_neg hquote,
    if_pos (List.contains_iff_mem.2 hc), h rest hrest, Option.map_map]
  rfl

/-- The characters of a word spell it. -/
theorem spells_word {word : String} (h : isWord word.toList = true) :
    Spells word.toList [.word word] := by
  intro rest hrest
  obtain ⟨c, cs, hcs⟩ : ∃ c cs, word.toList = c :: cs := by
    cases hword : word.toList with
    | nil => rw [hword] at h; cases h
    | cons c cs => exact ⟨c, cs, rfl⟩
  rw [hcs, isWord_cons_iff] at h
  have hblank : c ≠ ' ' := by
    rintro rfl
    exact absurd h.1 (by decide)
  obtain ⟨htake, hdrop⟩ := span_word h.2 hrest
  rw [hcs, List.cons_append, lex, if_neg hblank, if_pos h.1, htake, hdrop, ← hcs,
    String.ofList_toList]
  rfl

/-- A quoted key spells one token, with the key for its text, whatever that is. -/
theorem spells_quotedKey (text : String) : Spells (quotedKey text).toList [.quoted text] := by
  intro rest _
  have hread : readString '"' (text.toList.flatMap (escapedChar '"') ++ '"' :: rest) =
      some (text.toList, rest) :=
    readString_literal rfl text.toList rest
  rw [quotedKey, String.toList_ofList, literal, List.cons_append, List.cons_append,
    List.append_assoc,
    List.singleton_append, lex, if_neg (by decide), if_neg (by decide), if_pos rfl]
  split
  · rename_i hnone
    rw [hread] at hnone
    cases hnone
  · rename_i found after hsome
    rw [hread] at hsome
    cases hsome
    rw [String.ofList_toList]
    rfl

/-! ### The grammar -/

/-- The name of a property, bare or quoted. -/
def Token.key? : Token → Option String
  | word text | quoted text => some text
  | mark _ => none

/-- What comes after the type of a property that allows for null. -/
def nullTokens (nullable : Bool) : List Token :=
  if nullable then [.mark '|', .word "null"] else []

mutual

/-- The tokens are a type expression with this tree. -/
inductive IsType : List Token → TypeExpr → Prop where
  | name (name : String) : IsType [.word name] (.name name)
  | array {tokens : List Token} {items : TypeExpr} (h : IsType tokens items) :
    IsType (tokens ++ [.mark '[', .mark ']']) (.array items)
  | dictionary {keyTokens valueTokens : List Token} {key value : TypeExpr}
    (hkey : IsType keyTokens key) (hvalue : IsType valueTokens value) :
    IsType (.word "Record" :: .mark '<' :: (keyTokens ++ .mark ',' :: (valueTokens ++ [.mark '>'])))
      (.dictionary key value)
  | empty : IsType [.mark '\x7b', .mark '\x7d'] (.object [])
  | object {tokens : List Token} {members : List (Member TypeExpr)}
    (h : AreMembers tokens members) :
    IsType (.mark '\x7b' :: (tokens ++ [.mark '\x7d'])) (.object members)

/-- The tokens are one property or more. -/
inductive AreMembers : List Token → List (Member TypeExpr) → Prop where
  | last {key : Token} {name : String} {tokens : List Token} {type : TypeExpr}
    (hkey : key.key? = some name) (htype : IsType tokens type) (nullable : Bool) :
    AreMembers (key :: .mark ':' :: (tokens ++ nullTokens nullable)) [⟨name, type, nullable⟩]
  | more {key : Token} {name : String} {tokens rest : List Token} {type : TypeExpr}
    {members : List (Member TypeExpr)}
    (hkey : key.key? = some name) (htype : IsType tokens type) (nullable : Bool)
    (h : AreMembers rest members) :
    AreMembers (key :: .mark ':' :: (tokens ++ (nullTokens nullable ++ .mark ';' :: rest)))
      (⟨name, type, nullable⟩ :: members)

end

/-- The text is a type expression with this tree. -/
def Parses (text : String) (tree : TypeExpr) : Prop :=
  ∃ tokens, lex text.toList = some tokens ∧ IsType tokens tree

/-! ### Recursive descent -/

/-- What comes after a mark. -/
def expect (c : Char) : List Token → Option (List Token)
  | [] => none
  | token :: rest => if token = .mark c then some rest else none

/-- Whether `| null` comes next, and what comes after it. -/
def readNull : List Token → Bool × List Token
  | .mark '|' :: .word "null" :: rest => (true, rest)
  | rest => (false, rest)

/-- The array type that a type makes with the brackets after it. -/
def readBrackets (type : TypeExpr) : List Token → TypeExpr × List Token
  | .mark '[' :: .mark ']' :: rest => readBrackets (.array type) rest
  | rest => (type, rest)

mutual

/-- The tree of the longest type at the start of the tokens, if the number is as large as that of
its tokens. -/
def readType : Nat → List Token → Option (TypeExpr × List Token)
  | fuel + 1, .word name :: rest =>
    match expect '<' rest with
    | none => some (readBrackets (.name name) rest)
    | some rest =>
      if name = "Record" then do
        let (key, rest) ← readType fuel rest
        let rest ← expect ',' rest
        let (value, rest) ← readType fuel rest
        let rest ← expect '>' rest
        return readBrackets (.dictionary key value) rest
      else none
  | fuel + 1, .mark '\x7b' :: rest =>
    match expect '\x7d' rest with
    | some rest => some (readBrackets (.object []) rest)
    | none => do
      let (members, rest) ← readMembers fuel rest
      return readBrackets (.object members) rest
  | _, _ => none

/-- The properties up to a closing brace. -/
def readMembers : Nat → List Token → Option (List (Member TypeExpr) × List Token)
  | fuel + 1, key :: rest => do
    let name ← key.key?
    let rest ← expect ':' rest
    let (type, rest) ← readType fuel rest
    let (nullable, rest) := readNull rest
    match expect ';' rest with
    | none => return ([⟨name, type, nullable⟩], ← expect '\x7d' rest)
    | some rest => do
      let (members, rest) ← readMembers fuel rest
      return (⟨name, type, nullable⟩ :: members, rest)
  | _, _ => none

end

theorem expect_mark (c : Char) (rest : List Token) :
    expect c (.mark c :: rest) = some rest := if_pos rfl

theorem expect_eq_none {c : Char} {tokens : List Token} (h : tokens.head? ≠ some (.mark c)) :
    expect c tokens = none := by
  cases tokens with
  | nil => rfl
  | cons token rest => exact if_neg fun heq ↦ h (congrArg some heq)

/-- Null is read if it is there. -/
theorem readNull_append (nullable : Bool) (rest : List Token) (h : rest.head? ≠ some (.mark '|')) :
    readNull (nullTokens nullable ++ rest) = (nullable, rest) := by
  cases nullable with
  | true => rfl
  | false =>
    show readNull rest = (false, rest)
    unfold readNull
    split
    · exact absurd rfl h
    · rfl

theorem readBrackets_of_ne (type : TypeExpr) {rest : List Token}
    (h : rest.head? ≠ some (.mark '[')) : readBrackets type rest = (type, rest) := by
  unfold readBrackets
  split
  · exact absurd rfl h
  · rfl

theorem head?_nullTokens_append (nullable : Bool) {rest : List Token} {c : Char} (hc : c ≠ '|')
    (h : rest.head? ≠ some (.mark c)) : (nullTokens nullable ++ rest).head? ≠ some (.mark c) := by
  cases nullable with
  | true => simpa [nullTokens] using hc.symm
  | false => exact h

/-- Properties start with a key. -/
theorem AreMembers.head?_ne {tokens : List Token} {members : List (Member TypeExpr)}
    (h : AreMembers tokens members) (rest : List Token) (c : Char) :
    (tokens ++ rest).head? ≠ some (.mark c) := by
  have hkey {key : Token} {name : String} (hkey : key.key? = some name) :
      some key ≠ some (.mark c) := by
    rintro ⟨⟩
    cases hkey
  cases h with
  | last h => exact hkey h
  | more h => exact hkey h

/-- The type is read off its tokens, with all brackets after them. -/
def Reads (fuel : Nat) (tokens : List Token) (type : TypeExpr) : Prop :=
  ∀ rest, rest.head? ≠ some (.mark '<') →
    readType fuel (tokens ++ rest) = some (readBrackets type rest)

/-- The properties are read off their tokens. -/
def ReadsMembers (fuel : Nat) (tokens : List Token) (members : List (Member TypeExpr)) : Prop :=
  ∀ rest, readMembers fuel (tokens ++ .mark '\x7d' :: rest) = some (members, rest)

section Reads

variable {fuel : Nat} {tokens : List Token} {type : TypeExpr}

/-- A type is read up to a token that does not continue it. -/
theorem Reads.stop (h : Reads fuel tokens type) (rest : List Token)
    (hless : rest.head? ≠ some (.mark '<')) (hbracket : rest.head? ≠ some (.mark '[')) :
    readType fuel (tokens ++ rest) = some (type, rest) := by
  rw [h rest hless, readBrackets_of_ne type hbracket]

theorem reads_name (fuel : Nat) (name : String) : Reads (fuel + 1) [.word name] (.name name) := by
  intro rest hrest
  rw [List.singleton_append, readType, expect_eq_none hrest]

/-- Brackets after a type make a list of it. -/
theorem Reads.array (h : Reads fuel tokens type) :
    Reads fuel (tokens ++ [.mark '[', .mark ']']) (.array type) := by
  intro rest _
  rw [List.append_assoc]
  exact h (.mark '[' :: .mark ']' :: rest) (by simp)

/-- A `Record` is read with the types of its keys and values. -/
theorem Reads.dictionary {keyTokens valueTokens : List Token} {key value : TypeExpr}
    (hkey : Reads fuel keyTokens key) (hvalue : Reads fuel valueTokens value) :
    Reads (fuel + 1) (.word "Record" :: .mark '<' ::
      (keyTokens ++ .mark ',' :: (valueTokens ++ [.mark '>']))) (.dictionary key value) := by
  intro rest _
  have hvalue := hvalue.stop (.mark '>' :: rest) (by simp) (by simp)
  have hkey := hkey.stop (.mark ',' :: (valueTokens ++ .mark '>' :: rest)) (by simp) (by simp)
  simp only [List.cons_append, List.append_assoc, List.nil_append]
  rw [readType, expect_mark]
  simp [hkey, hvalue, expect_mark]

theorem reads_empty (fuel : Nat) : Reads (fuel + 1) [.mark '\x7b', .mark '\x7d'] (.object []) := by
  intro rest _
  rw [List.cons_append, List.singleton_append, readType, expect_mark]

/-- An object type is read with its members. -/
theorem ReadsMembers.object {members : List (Member TypeExpr)}
    (h : ReadsMembers fuel tokens members)
    (hkey : ∀ rest c, (tokens ++ rest).head? ≠ some (.mark c)) :
    Reads (fuel + 1) (.mark '\x7b' :: (tokens ++ [.mark '\x7d'])) (.object members) := by
  intro rest _
  have hmembers := h rest
  rw [List.cons_append, List.append_assoc, List.singleton_append, readType,
    expect_eq_none (hkey _ _), hmembers]
  rfl

/-- The type of a property is read up to the mark after it, with whether it allows for null. -/
theorem Reads.member (h : Reads fuel tokens type) (nullable : Bool) {c : Char} (hless : c ≠ '<')
    (hbracket : c ≠ '[') (hbar : c ≠ '|') (rest : List Token) :
    readType fuel (tokens ++ (nullTokens nullable ++ .mark c :: rest)) =
        some (type, nullTokens nullable ++ .mark c :: rest) ∧
      readNull (nullTokens nullable ++ .mark c :: rest) = (nullable, .mark c :: rest) := by
  have hhead {d : Char} (hd : c ≠ d) :
      (Token.mark c :: rest).head? ≠ some (.mark d) := by simpa using hd
  exact ⟨h.stop _ (head?_nullTokens_append nullable (by decide) (hhead hless))
    (head?_nullTokens_append nullable (by decide) (hhead hbracket)),
    readNull_append nullable _ (hhead hbar)⟩

theorem Reads.last (h : Reads fuel tokens type) {key : Token} {name : String}
    (hkey : key.key? = some name) (nullable : Bool) :
    ReadsMembers (fuel + 1) (key :: .mark ':' :: (tokens ++ nullTokens nullable))
    [⟨name, type, nullable⟩] := by
  intro rest
  have hlast : expect ';' (.mark '\x7d' :: rest) = none := expect_eq_none (by simp)
  obtain ⟨htype, hnull⟩ := h.member nullable (c := '\x7d') (by decide) (by decide) (by decide) rest
  simp only [List.cons_append, List.append_assoc]
  rw [readMembers]
  simp [hkey, expect_mark, htype, hnull, hlast]

/-- A member ends at the semicolon after its type. -/
theorem Reads.more (h : Reads fuel tokens type) {key : Token} {name : String}
    (hkey : key.key? = some name) (nullable : Bool) {others : List Token}
    {members : List (Member TypeExpr)} (hmembers : ReadsMembers fuel others members) :
    ReadsMembers (fuel + 1) (key :: .mark ':' ::
      (tokens ++ (nullTokens nullable ++ .mark ';' :: others)))
      (⟨name, type, nullable⟩ :: members) := by
  intro rest
  have hmembers := hmembers rest
  obtain ⟨htype, hnull⟩ := h.member nullable (c := ';') (by decide) (by decide) (by decide)
    (others ++ .mark '\x7d' :: rest)
  simp only [List.cons_append, List.append_assoc]
  rw [readMembers]
  simp [hkey, expect_mark, htype, hnull, hmembers]

end Reads

mutual

/-- All that the grammar takes for a type is read as that type, if there is fuel for each token. -/
theorem IsType.reads {tokens : List Token} {type : TypeExpr} (h : IsType tokens type) (fuel : Nat)
    (hfuel : tokens.length ≤ fuel) : Reads fuel tokens type := by
  obtain ⟨extra, rfl⟩ := Nat.exists_eq_add_of_le' hfuel
  cases h with
  | name name => exact reads_name extra name
  | array h => exact (h.reads _ (by simp; omega)).array
  | dictionary hkey hvalue =>
    exact (hkey.reads _ (by simp; omega)).dictionary (hvalue.reads _ (by simp; omega))
  | empty => exact reads_empty (extra + 1)
  | object h => exact (h.reads _ (by simp; omega)).object h.head?_ne

/-- The same of the members of an object type. -/
theorem AreMembers.reads {tokens : List Token} {members : List (Member TypeExpr)}
    (h : AreMembers tokens members) (fuel : Nat) (hfuel : tokens.length ≤ fuel) :
    ReadsMembers fuel tokens members := by
  obtain ⟨extra, rfl⟩ := Nat.exists_eq_add_of_le' hfuel
  cases h with
  | last hkey htype nullable => exact (htype.reads _ (by simp; omega)).last hkey nullable
  | more hkey htype nullable h =>
    exact (htype.reads _ (by simp; omega)).more hkey nullable (h.reads _ (by simp; omega))

end

/-- Tokens have one tree at most. -/
theorem IsType.unique {tokens : List Token} {type other : TypeExpr} (h : IsType tokens type)
    (hother : IsType tokens other) : type = other := by
  have hread := (h.reads _ (Nat.le_refl _)).stop [] (by simp) (by simp)
  have hreadOther := (hother.reads _ (Nat.le_refl _)).stop [] (by simp) (by simp)
  rw [hread] at hreadOther
  cases hreadOther
  rfl

/-! ### The text of a type expression -/

/-- The text of a key spells one token, quoted or not, which gives back the key. -/
theorem exists_spells_propertyKey (key : String) :
    ∃ token : Token, token.key? = some key ∧ Spells (propertyKey key).toList [token] := by
  rw [propertyKey]
  split_ifs with hbare
  · exact ⟨.word key, rfl, spells_word (Bool.and_eq_true_iff.1 hbare).1⟩
  · exact ⟨.quoted key, rfl, spells_quotedKey key⟩

theorem Spells.orNull {type : String} {tokens : List Token} (h : Spells type.toList tokens)
    (nullable : Bool) : Spells (orNull type nullable).toList (tokens ++ nullTokens nullable) := by
  cases nullable with
  | false =>
    show Spells type.toList (tokens ++ [])
    rwa [List.append_nil]
  | true =>
    have htext : (type ++ " | null").toList = type.toList ++
        ' ' :: '|' :: ' ' :: "null".toList := by simp
    have hnull : Spells "null".toList [.word "null"] := spells_word (by decide)
    show Spells (type ++ " | null").toList (tokens ++ [.mark '|', .word "null"])
    rw [htext]
    exact h.append (.blank (.mark (by decide) hnull.blank)) rfl

theorem Spells.member {key type : String} {token : Token} {tokens : List Token}
    (hkey : Spells (propertyKey key).toList [token]) (h : Spells type.toList tokens)
    (nullable : Bool) :
    Spells (propertyKey key ++ ": " ++ TypeScript.orNull type nullable).toList
      (token :: .mark ':' :: (tokens ++ nullTokens nullable)) := by
  have htext (after : String) : (propertyKey key ++ ": " ++ after).toList =
      (propertyKey key).toList ++ ':' :: ' ' :: after.toList := by simp
  rw [htext]
  exact hkey.append (.mark (by decide) (h.orNull nullable).blank) rfl

namespace TypeExpr

mutual

/-- The text of a type expression is one with this tree, if the names in it are words. -/
theorem exists_isType_text {type : TypeExpr} (h : ∀ name ∈ type.names, isWord name.toList = true) :
    ∃ tokens, IsType tokens type ∧ Spells type.text.toList tokens := by
  cases type with
  | name n =>
    rw [names] at h
    rw [text]
    exact ⟨_, .name n, spells_word (h n List.mem_cons_self)⟩
  | array items =>
    rw [names] at h
    obtain ⟨tokens, htype, hitems⟩ := exists_isType_text h
    have htext : (items.text ++ "[]").toList = items.text.toList ++ ['[', ']'] := by simp
    rw [text, htext]
    exact ⟨_, .array htype, hitems.append (.mark (by decide) (.mark (by decide) spells_nil)) rfl⟩
  | dictionary key value =>
    rw [names, List.forall_mem_append] at h
    obtain ⟨keyTokens, hkey, hkeyText⟩ := exists_isType_text h.1
    obtain ⟨valueTokens, hvalue, hvalueText⟩ := exists_isType_text h.2
    have htext : ("Record<" ++ key.text ++ ", " ++ value.text ++ ">").toList =
        "Record".toList ++ '<' ::
        (key.text.toList ++ ',' :: ' ' :: (value.text.toList ++ ['>'])) := by simp
    have hrecord : Spells "Record".toList [.word "Record"] := spells_word (by decide)
    have hclose : Spells ['>'] [.mark '>'] := .mark (by decide) spells_nil
    have hvalueText := hvalueText.append hclose rfl
    have hkeyText := hkeyText.append (hvalueText.blank.mark (c := ',') (by decide)) rfl
    rw [text, htext]
    exact ⟨_, .dictionary hkey hvalue, hrecord.append (.mark (by decide) hkeyText) rfl⟩
  | object members =>
    rw [names] at h
    match members with
    | [] =>
      have htext : "\x7b\x7d".toList = ['\x7b', '\x7d'] := by simp
      rw [text, htext]
      exact ⟨_, .empty, .mark (by decide) (.mark (by decide) spells_nil)⟩
    | member :: members =>
      obtain ⟨tokens, hmembers, hmembersText⟩ := exists_areMembers_text h (List.cons_ne_nil _ _)
      have htext (inner : String) : ("\x7b " ++ inner ++ " \x7d").toList =
          '\x7b' :: ' ' :: (inner.toList ++ [' ', '\x7d']) := by simp
      have hclose : Spells [' ', '\x7d'] [.mark '\x7d'] := .blank (.mark (by decide) spells_nil)
      have hmembersText := hmembersText.append hclose rfl
      rw [text, htext]
      exact ⟨_, .object hmembers, .mark (by decide) hmembersText.blank⟩

/-- The texts of members spell tokens that the grammar takes for these members. -/
theorem exists_areMembers_text {members : List (Member TypeExpr)}
    (h : ∀ name ∈ memberNames members, isWord name.toList = true) (hne : members ≠ []) :
    ∃ tokens, AreMembers tokens members ∧
      Spells ("; ".intercalate (memberTexts members)).toList tokens := by
  match members with
  | [] => exact absurd rfl hne
  | ⟨key, type, nullable⟩ :: members =>
    rw [memberNames, List.forall_mem_append] at h
    obtain ⟨token, hkey, hkeyText⟩ := exists_spells_propertyKey key
    obtain ⟨tokens, htype, htext⟩ := exists_isType_text h.1
    have hmember := hkeyText.member htext nullable
    match members with
    | [] =>
      rw [memberTexts, memberTexts, String.intercalate_singleton]
      exact ⟨_, .last hkey htype nullable, hmember⟩
    | ⟨otherKey, otherType, otherNullable⟩ :: members =>
      obtain ⟨others, hothers, hothersText⟩ := exists_areMembers_text h.2 (List.cons_ne_nil _ _)
      have hsplit (before after : String) : (before ++ "; " ++ after).toList =
          before.toList ++ ';' :: ' ' :: after.toList := by simp
      refine ⟨_, .more hkey htype nullable hothers, ?_⟩
      rw [memberTexts] at hothersText
      rw [memberTexts, memberTexts, String.intercalate_cons_cons, hsplit,
        ← List.append_assoc tokens]
      exact hmember.append (.mark (by decide) hothersText.blank) rfl

end

/-- The text of a type expression whose names are words has this expression for its only tree. -/
theorem parses_text_iff {type tree : TypeExpr}
    (h : ∀ name ∈ type.names, isWord name.toList = true) : Parses type.text tree ↔ tree = type := by
  obtain ⟨tokens, htype, htext⟩ := exists_isType_text h
  have hlex : lex type.text.toList = some tokens := by
    have hspells := htext [] rfl
    rwa [List.append_nil, lex, Option.map_some, List.append_nil] at hspells
  constructor
  · rintro ⟨found, hfound, htree⟩
    rw [hlex] at hfound
    cases hfound
    exact htree.unique htype
  · rintro rfl
    exact ⟨tokens, hlex, htype⟩

end TypeExpr

end AbiBindings.TypeScript
