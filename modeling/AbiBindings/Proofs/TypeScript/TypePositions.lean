import AbiBindings.Proofs.TypeScript.CodeLines
import AbiBindings.Proofs.TypeScript.Tokens

/-!
# Names in type positions

The names that stand where a type is written are read off a text. In the declaration of a type these
are all words after the declared name, except those that are keys of properties. In an object with
functions they are the words in front of `=>`, and in a class those of the parameters and the result
of an asynchronous member, and those of a type that a value is given by `as`. Words of the language
are left out (`builtinTypes`, `genericTypes`), and so are statements that export nothing.

The reader does not ask for a form that types have to be in: whatever stands in such a place, its
words are seen. Of the text of a type expression it sees the names in the expression
(`IsType.usedNames_append`). Statements contribute their names one after the other
(`Contributes.append`).
-/

namespace AbiBindings.TypeScript

open LexState Layout

/-! ### Reading names -/

/-- The words of the language that are types. -/
def builtinTypes : List String :=
  ["any", "boolean", "never", "null", "number", "string", "unknown", "void"]

/-- The types of the language that are written with further types in angle brackets. -/
def genericTypes : List String := ["Record", "Promise"]

/-- The names in a text of types. A word before a colon is the key of a property. -/
def usedNames : List Token → List String
  | [] => []
  | .word name :: rest =>
    if rest.head? = some (.mark ':') ∨ name ∈ builtinTypes ∨
        rest.head? = some (.mark '<') ∧ name ∈ genericTypes then usedNames rest
    else name :: usedNames rest
  | .quoted _ :: rest | .mark _ :: rest => usedNames rest

/-- The names in the types of a function with an arrow, if the line has one. -/
def arrowNames (line : List Token) : List String :=
  if .mark '=' ∈ line then usedNames (line.takeWhile (· ≠ .mark '=')) else []

/-- The names in the types on a line in a class. -/
def classLineNames : List Token → List String
  | .word "public" :: .word "async" :: .word _ :: rest => usedNames rest
  | line => usedNames (line.dropWhile (· ≠ .word "as")).tail

/-- The keyword of a statement that exports something. -/
def exportKeyword? : List Token → Option String
  | .word "export" :: .word keyword :: .word _ :: _ => some keyword
  | _ => none

/-- The names in type positions on the first line of a statement, after the name it declares. -/
def namesOnFirst (first : List Token) : List String :=
  match exportKeyword? first with
  | some "interface" | some "type" => usedNames (first.drop 3)
  | _ => []

/-- The names in type positions on a later line of a statement with this first line. -/
def namesBelow (first line : List Token) : List String :=
  match exportKeyword? first with
  | some "interface" | some "type" => usedNames line
  | some "const" => arrowNames line
  | some "class" => classLineNames line
  | _ => []

/-- A line by its tokens. At the top of a text it is the first one of a statement. -/
structure TokenLine where
  top : Bool
  tokens : List Token
deriving Repr, DecidableEq

/-- The line, if it has code: a line that starts with a slash is one of a comment. -/
def lookAtTokens (state : LexState) (line : List Char) : List TokenLine :=
  if state.mode = .code ∧ (skipBlanks line).head?.any (· ≠ '/') = true then
    [⟨state.due.isEmpty && startsWord (skipBlanks line), tokens line⟩]
  else []

/-- The lines of a text that have code. -/
def tokenLines (text : String) : List TokenLine :=
  readFrom lookAtTokens ⟨.code, []⟩ (Text.pieces (· = '\n') text.toList)

/-- The names in type positions, if the first lines belong to a statement that is read in the given
way. -/
def typeNamesFrom (read : List Token → List String) : List TokenLine → List String
  | [] => []
  | line :: lines =>
    if line.top then namesOnFirst line.tokens ++ typeNamesFrom (namesBelow line.tokens) lines
    else read line.tokens ++ typeNamesFrom read lines

/-- The names in type positions of a text, other than those that the language has itself. -/
def typeNames (text : String) : List String := typeNamesFrom (fun _ ↦ []) (tokenLines text)

example : typeNames
    "export interface A \x7b\n  'b': C | null;\n\x7d\n// D\nconst E = F as G;\n" = ["C"] ∧
    typeNames "export const H = \x7b\n  i: (j: K): L => m,\n\x7d as const;\n" = ["K", "L"] ∧
    typeNames "export class O \x7b\n  public async p(q: R): Promise<S>\n  return t as U;\n\x7d\n" =
      ["R", "S", "U"] := by decide

/-! ### Types -/

/-- The names in a type expression, other than words that are types. -/
def TypeExpr.used (type : TypeExpr) : List String := type.names.filter (· ∉ builtinTypes)

/-- What comes next neither makes a key of a type nor gives it further types. -/
structure Ends (rest : List Token) : Prop where
  key : rest.head? ≠ some (.mark ':')
  generic : rest.head? ≠ some (.mark '<')

theorem ends_mark {c : Char} (hkey : c ≠ ':') (hgeneric : c ≠ '<') (rest : List Token) :
    Ends (.mark c :: rest) :=
  ⟨by simpa using hkey, by simpa using hgeneric⟩

theorem ends_nullTokens (nullable : Bool) {rest : List Token} (h : Ends rest) :
    Ends (nullTokens nullable ++ rest) :=
  ⟨head?_nullTokens_append nullable (by decide) h.key,
    head?_nullTokens_append nullable (by decide) h.generic⟩

/-- A built-in type is no name that is used. -/
theorem usedNames_builtin {name : String} (h : name ∈ builtinTypes) (rest : List Token) :
    usedNames (.word name :: rest) = usedNames rest := by
  rw [usedNames, if_pos (.inr (.inl h))]

/-- Neither is a generic one before its arguments. -/
theorem usedNames_generic {name : String} (h : name ∈ genericTypes) (rest : List Token) :
    usedNames (.word name :: .mark '<' :: rest) = usedNames rest := by
  rw [usedNames, if_pos (.inr (.inr ⟨rfl, h⟩)), usedNames]

/-- Neither is a key, quoted or not. -/
theorem usedNames_key {key : Token} {name : String} (h : key.key? = some name) (rest : List Token) :
    usedNames (key :: .mark ':' :: rest) = usedNames rest := by
  cases key with
  | word text => rw [usedNames, if_pos (.inl rfl), usedNames]
  | quoted text => rw [usedNames, usedNames]
  | mark c => cases h

/-- A name that is no key and takes no arguments is used. -/
theorem usedNames_name (name : String) {rest : List Token} (h : Ends rest) :
    usedNames (.word name :: rest) = (TypeExpr.name name).used ++ usedNames rest := by
  rw [TypeExpr.used, TypeExpr.names]
  by_cases hname : name ∈ builtinTypes
  · rw [usedNames_builtin hname, List.filter_cons_of_neg (by simpa using hname)]
    rfl
  · have hnot : ¬ (rest.head? = some (.mark ':') ∨ name ∈ builtinTypes ∨
        rest.head? = some (.mark '<') ∧ name ∈ genericTypes) := by
      simp [h.key, h.generic, hname]
    rw [usedNames, if_neg hnot, List.filter_cons_of_pos (by simpa using hname)]
    rfl

theorem usedNames_nullTokens (nullable : Bool) (rest : List Token) :
    usedNames (nullTokens nullable ++ rest) = usedNames rest := by
  cases nullable with
  | false => rfl
  | true => exact usedNames_builtin (by decide) rest

mutual

/-- Of the tokens of a type, the names in it are seen. -/
theorem IsType.usedNames_append {found : List Token} {type : TypeExpr} (h : IsType found type)
    {rest : List Token} (hrest : Ends rest) :
    usedNames (found ++ rest) = type.used ++ usedNames rest := by
  cases h with
  | name name => exact usedNames_name name hrest
  | array h =>
    simp only [List.cons_append, List.append_assoc, List.nil_append]
    rw [h.usedNames_append (ends_mark (by decide) (by decide) _), usedNames, usedNames]
    simp only [TypeExpr.used, TypeExpr.names]
  | dictionary hkey hvalue =>
    simp only [List.cons_append, List.append_assoc, List.nil_append]
    rw [usedNames_generic (by decide), hkey.usedNames_append (ends_mark (by decide) (by decide) _),
      usedNames, hvalue.usedNames_append (ends_mark (by decide) (by decide) _), usedNames]
    simp only [TypeExpr.used, TypeExpr.names, List.filter_append, List.append_assoc]
  | empty => rfl
  | object h =>
    simp only [List.cons_append, List.append_assoc, List.nil_append]
    rw [usedNames, h.usedNames_append (ends_mark (by decide) (by decide) _), usedNames,
      TypeExpr.used, TypeExpr.names]

/-- The members of an object type are seen with the names in their types, and their keys are not. -/
theorem AreMembers.usedNames_append {found : List Token} {members : List (Member TypeExpr)}
    (h : AreMembers found members) {rest : List Token} (hrest : Ends rest) :
    usedNames (found ++ rest) =
      (TypeExpr.memberNames members).filter (· ∉ builtinTypes) ++ usedNames rest := by
  cases h with
  | last hkey htype nullable =>
    simp only [List.cons_append, List.append_assoc]
    rw [usedNames_key hkey, htype.usedNames_append (ends_nullTokens nullable hrest),
      usedNames_nullTokens, TypeExpr.memberNames, TypeExpr.memberNames, List.append_nil]
    rfl
  | more hkey htype nullable h =>
    simp only [List.cons_append, List.append_assoc]
    rw [usedNames_key hkey,
      htype.usedNames_append (ends_nullTokens nullable (ends_mark (by decide) (by decide) _)),
      usedNames_nullTokens, usedNames, h.usedNames_append hrest, TypeExpr.memberNames,
      List.filter_append, List.append_assoc]
    rfl

end

mutual

/-- A type ends before an equals sign. -/
theorem IsType.equals_not_mem {found : List Token} {type : TypeExpr} (h : IsType found type) :
    .mark '=' ∉ found := by
  cases h with
  | name name => simp
  | array h => simp [h.equals_not_mem]
  | dictionary hkey hvalue => simp [hkey.equals_not_mem, hvalue.equals_not_mem]
  | empty => simp
  | object h => simp [h.equals_not_mem]

theorem AreMembers.equals_not_mem {found : List Token} {members : List (Member TypeExpr)}
    (h : AreMembers found members) : .mark '=' ∉ found := by
  have hnull (nullable : Bool) : .mark '=' ∉ nullTokens nullable := by cases nullable <;> decide
  have hne {key : Token} {name : String} (hkey : key.key? = some name) : .mark '=' ≠ key := by
    rintro rfl
    cases hkey
  cases h with
  | last hkey htype nullable => simp [hne hkey, htype.equals_not_mem, hnull nullable]
  | more hkey htype nullable h =>
    simp [hne hkey, htype.equals_not_mem, hnull nullable, h.equals_not_mem]

end

/-- The text of a type has tokens that the grammar takes for that type, before anything that does
not go on with a word. -/
theorem TypeExpr.exists_tokens {type : TypeExpr}
    (h : ∀ name ∈ type.names, isWord name.toList = true) :
    ∃ found, IsType found type ∧ ∀ rest, startsWord rest = false →
      tokens (type.text.toList ++ rest) = found ++ tokens rest := by
  obtain ⟨found, htype, hspells⟩ := exists_isType_text h
  exact ⟨found, htype, fun rest hrest ↦ hspells.tokens hrest⟩

/-- What comes after the arrow of a function is no type. -/
theorem arrowNames_append {before : List Token} (h : .mark '=' ∉ before) (after : List Token) :
    arrowNames (before ++ .mark '=' :: after) = usedNames before := by
  have hbefore : ∀ token ∈ before, decide (token ≠ .mark '=') = true := fun token htoken ↦
    decide_eq_true fun heq ↦ h (heq ▸ htoken)
  rw [arrowNames, if_pos (by simp), List.takeWhile_append_of_pos hbefore,
    List.takeWhile_cons_of_neg, List.append_nil]
  simp

/-- A line of a class that opens no member has types after the word `as` only. -/
theorem classLineNames_of_head {line : List Token} (h : line.head? ≠ some (.word "public")) :
    classLineNames line = usedNames (line.dropWhile (· ≠ .word "as")).tail := by
  unfold classLineNames
  split
  · exact absurd rfl h
  · rfl

/-- A line in a class that gives no value a type. -/
theorem classLineNames_eq_nil {line : List Token} (hhead : line.head? ≠ some (.word "public"))
    (h : .word "as" ∉ line) : classLineNames line = [] := by
  have hall : line.dropWhile (· ≠ .word "as") = [] :=
    List.dropWhile_eq_nil_iff.2 fun token htoken ↦ decide_eq_true fun heq ↦ h (heq ▸ htoken)
  rw [classLineNames_of_head hhead, hall]
  rfl

/-- A line in a class that gives a value a type. -/
theorem classLineNames_as {before type : List Token}
    (hhead : (before ++ .word "as" :: type).head? ≠ some (.word "public"))
    (h : .word "as" ∉ before) : classLineNames (before ++ .word "as" :: type) = usedNames type := by
  have hbefore : ∀ token ∈ before, decide (token ≠ .word "as") = true := fun token htoken ↦
    decide_eq_true fun heq ↦ h (heq ▸ htoken)
  rw [classLineNames_of_head hhead, List.dropWhile_append_of_pos hbefore,
    List.dropWhile_cons_of_neg, List.tail_cons]
  simp

/-! ### Statements -/

/-- The lines are seen to hold these names, whatever comes before and after them. -/
def Contributes (lines : List TokenLine) (names : List String) : Prop :=
  ∀ read more, ∃ next, typeNamesFrom read (lines ++ more) = names ++ typeNamesFrom next more

theorem contributes_nil : Contributes [] [] := fun read _ ↦ ⟨read, rfl⟩

/-- Lines that come one after the other give their names one after the other. -/
theorem Contributes.append {lines others : List TokenLine} {names otherNames : List String}
    (h : Contributes lines names) (hothers : Contributes others otherNames) :
    Contributes (lines ++ others) (names ++ otherNames) := by
  intro read more
  obtain ⟨middle, hmiddle⟩ := h read (others ++ more)
  obtain ⟨next, hnext⟩ := hothers middle more
  exact ⟨next, by rw [List.append_assoc, hmiddle, hnext, List.append_assoc]⟩

theorem contributes_flatMap {σ : Type} {lines : σ → List TokenLine} {names : σ → List String}
    {items : List σ} (h : ∀ item ∈ items, Contributes (lines item) (names item)) :
    Contributes (items.flatMap lines) (items.flatMap names) := by
  induction items with
  | nil => exact contributes_nil
  | cons item items ih =>
    obtain ⟨hitem, hitems⟩ := List.forall_mem_cons.1 h
    exact hitem.append (ih hitems)

/-- What the lines of a text give are the names in its type positions. -/
theorem typeNames_of_contributes {text : String} {names : List String}
    (h : Contributes (tokenLines text) names) : typeNames text = names := by
  obtain ⟨next, hnext⟩ := h (fun _ ↦ []) []
  rwa [List.append_nil, typeNamesFrom, List.append_nil] at hnext

theorem exists_typeNamesFrom_append (read : List Token → List String)
    (lines more : List TokenLine) :
    ∃ next, typeNamesFrom read (lines ++ more) =
      typeNamesFrom read lines ++ typeNamesFrom next more := by
  induction lines generalizing read with
  | nil => exact ⟨read, rfl⟩
  | cons line lines ih =>
    rw [List.cons_append, typeNamesFrom, typeNamesFrom]
    split
    · obtain ⟨next, hnext⟩ := ih (namesBelow line.tokens)
      exact ⟨next, by rw [hnext, List.append_assoc]⟩
    · obtain ⟨next, hnext⟩ := ih read
      exact ⟨next, by rw [hnext, List.append_assoc]⟩

/-- What comes before the first line of a statement does not matter. -/
theorem contributes_of_top {lines : List TokenLine} (h : lines.head?.any (·.top) = true) :
    Contributes lines (typeNamesFrom (fun _ ↦ []) lines) := by
  intro read more
  cases lines with
  | nil => cases h
  | cons line lines =>
    have htop : line.top = true := h
    obtain ⟨next, hnext⟩ := exists_typeNamesFrom_append (namesBelow line.tokens) lines more
    refine ⟨next, ?_⟩
    rw [List.cons_append, typeNamesFrom, typeNamesFrom, if_pos htop, if_pos htop, hnext,
      List.append_assoc]

/-- Lines below a statement are all read as its first line says. -/
theorem typeNamesFrom_inside (read : List Token → List String) {lines : List TokenLine}
    (h : ∀ line ∈ lines, line.top = false) :
    typeNamesFrom read lines = lines.flatMap (read ·.tokens) := by
  induction lines with
  | nil => rfl
  | cons line lines ih =>
    obtain ⟨hline, hlines⟩ := List.forall_mem_cons.1 h
    rw [typeNamesFrom, hline, if_neg Bool.false_ne_true, ih hlines, List.flatMap_cons]

/-- A statement contributes the names on its first line and those on the lines below. -/
theorem contributes_statement (first : List Token) {below : List TokenLine}
    (h : ∀ line ∈ below, line.top = false) :
    Contributes (⟨true, first⟩ :: below)
      (namesOnFirst first ++ below.flatMap (namesBelow first ·.tokens)) := by
  have htop : Contributes (⟨true, first⟩ :: below) _ := contributes_of_top rfl
  rwa [typeNamesFrom, if_pos rfl, typeNamesFrom_inside _ h] at htop

/-! ### Nodes -/

/-- The line has code in it and is not one of a comment. -/
def Shown (line : List Char) : Prop := (skipBlanks line).head?.any (· ≠ '/') = true

instance (line : List Char) : Decidable (Shown line) := inferInstanceAs (Decidable (_ = _))

theorem shown_of_startsWord {line : List Char} (h : startsWord line = true) : Shown line := by
  rw [Shown, skipBlanks_word h]
  cases line with
  | nil => cases h
  | cons c cs =>
    refine decide_eq_true fun hslash ↦ ?_
    subst hslash
    cases h

/-- The same line in a block. -/
def TokenLine.inside (line : TokenLine) : TokenLine := ⟨false, line.tokens⟩

/-- Indentation is no token. -/
theorem tokens_indented (depth : Nat) (cs : List Char) :
    tokens (("".pushn ' ' (2 * depth)).toList ++ cs) = tokens cs := by
  have hblank : ∀ c ∈ ("".pushn ' ' (2 * depth)).toList, c = ' ' := fun c hc ↦ mem_indentation hc
  generalize ("".pushn ' ' (2 * depth)).toList = indentation at hblank
  induction indentation with
  | nil => rfl
  | cons c indentation ih =>
    obtain ⟨rfl, hrest⟩ := List.forall_mem_cons.1 hblank
    exact ih hrest

/-- A line of code is seen with its tokens, and with whether it starts a statement at the top. -/
theorem lookAtTokens_shown {cs : List Char} (h : Shown cs) (due : List Char) (depth : Nat) :
    lookAtTokens ⟨.code, due⟩ (("".pushn ' ' (2 * depth)).toList ++ cs) =
      [⟨due.isEmpty && startsWord (skipBlanks cs), tokens cs⟩] := by
  rw [lookAtTokens, skipBlanks_indented, tokens_indented]
  exact if_pos ⟨rfl, h⟩

/-- Inside a block a line is seen in the same way, but not at the top. -/
theorem lookAtTokens_above (state : LexState) (line : List Char) :
    lookAtTokens (state.above ['\x7d']) line =
      (lookAtTokens state line).filterMap (some ∘ TokenLine.inside) := by
  rw [lookAtTokens, lookAtTokens, above]
  by_cases h : state.mode = .code ∧ (skipBlanks line).head?.any (· ≠ '/') = true
  · rw [if_pos h, if_pos h, List.filterMap_eq_map, List.map_singleton, TokenLine.inside]
    simp
  · rw [if_neg h, if_neg h]
    rfl

theorem lookAtTokens_eq_nil {line : List Char} (h : ¬ Shown line) (state : LexState) :
    lookAtTokens state line = [] :=
  if_neg fun hcode ↦ h hcode.2

/-- The lines of a text are seen node by node. -/
theorem tokenLines_render {nodes : List Node} (h : ∀ node ∈ nodes, node.Closed) :
    tokenLines (render nodes) = nodes.flatMap (readNode lookAtTokens 0) :=
  readFrom_render (lookAtTokens_eq_nil fun h ↦ by cases h) h

theorem tokenLines_line {text : String} (h : OneLine text) (hshown : Shown text.toList)
    (depth : Nat) :
    readNode lookAtTokens depth (.line text) =
      [⟨startsWord (skipBlanks text.toList), tokens text.toList⟩] := by
  rw [readNode_line h, lookAtTokens_shown hshown]
  rfl

/-- Nothing is seen of a comment. -/
theorem tokenLines_doc (depth : Nat) (lines : List String) :
    readNode lookAtTokens depth (.doc lines) = [] := by
  have hslash (line : List Char) : ¬ Shown (("".pushn ' ' (2 * depth)).toList ++ '/' :: line) := by
    rw [Shown, skipBlanks_indented]
    exact Bool.false_ne_true
  exact readNode_doc (fun due line ↦ if_neg fun hcode ↦ by cases hcode.1)
    (fun line ↦ lookAtTokens_eq_nil (hslash line) _) lines

/-- A block is seen by its opening line, its body and its closing line. -/
theorem tokenLines_block {opening closing : String} {body : List Node}
    (hblock : (Node.block opening body closing).Closed) (hopen : OneLine opening)
    (hclose : OneLine closing) (hopening : Shown opening.toList) (hclosing : Shown closing.toList)
    {depth : Nat} (hbody : tidy (nodesLines (depth + 1) body) ≠ []) :
    readNode lookAtTokens depth (.block opening body closing) =
      ⟨startsWord (skipBlanks opening.toList), tokens opening.toList⟩ ::
        ((body.flatMap (readNode lookAtTokens (depth + 1))).map TokenLine.inside ++
          [⟨false, tokens closing.toList⟩]) := by
  rw [readNode_block lookAtTokens_above depth hblock hopen hclose hbody,
    lookAtTokens_shown hopening, lookAtTokens_shown hclosing, List.filterMap_eq_map]
  rfl

/-- A block with nothing inside stands on one line. -/
theorem readNode_emptyBlock {α : Type} (look : LexState → List Char → List α) (depth : Nat)
    (opening closing : String) :
    readNode look depth (.block opening [] closing) =
      readNode look depth (.line (opening ++ closing)) := by
  rw [readNode, readNode, nodeLines, nodeLines, nodesLines]
  rfl

theorem contributes_blank (depth : Nat) : Contributes (readNode lookAtTokens depth .blank) [] := by
  rw [readNode_blank]
  exact contributes_nil

theorem contributes_cons {node : Node} {nodes : List Node} {names otherNames : List String}
    (h : Contributes (readNode lookAtTokens 0 node) names)
    (hnodes : Contributes (nodes.flatMap (readNode lookAtTokens 0)) otherNames) :
    Contributes ((node :: nodes).flatMap (readNode lookAtTokens 0)) (names ++ otherNames) := by
  rw [List.flatMap_cons]
  exact h.append hnodes

/-! ### Nodes inside a statement -/

/-- The names that are seen of a node if all its lines are read in the given way. -/
def namesSeen (read : List Token → List String) (depth : Nat) (node : Node) : List String :=
  (readNode lookAtTokens depth node).flatMap (read ·.tokens)

section Seen

variable {read : List Token → List String}

theorem namesSeen_line {text : String} (h : OneLine text) (hshown : Shown text.toList)
    (depth : Nat) : namesSeen read depth (.line text) = read (tokens text.toList) := by
  rw [namesSeen, tokenLines_line h hshown, List.flatMap_singleton]

theorem namesSeen_blank (depth : Nat) : namesSeen read depth .blank = [] := by
  rw [namesSeen, readNode_blank]
  rfl

theorem namesSeen_doc (depth : Nat) (lines : List String) :
    namesSeen read depth (.doc lines) = [] := by
  rw [namesSeen, tokenLines_doc]
  rfl

theorem flatMap_inside (depth : Nat) (nodes : List Node) :
    ((nodes.flatMap (readNode lookAtTokens depth)).map TokenLine.inside).flatMap (read ·.tokens) =
      nodes.flatMap (namesSeen read depth) := by
  rw [List.flatMap_map, List.flatMap_assoc]
  rfl

/-- So are the names in it. -/
theorem namesSeen_block {opening closing : String} {body : List Node}
    (hblock : (Node.block opening body closing).Closed) (hopen : OneLine opening)
    (hclose : OneLine closing) (hopening : Shown opening.toList) (hclosing : Shown closing.toList)
    {depth : Nat} (hbody : tidy (nodesLines (depth + 1) body) ≠ []) :
    namesSeen read depth (.block opening body closing) = read (tokens opening.toList) ++
      (body.flatMap (namesSeen read (depth + 1)) ++ read (tokens closing.toList)) := by
  rw [namesSeen, tokenLines_block hblock hopen hclose hopening hclosing hbody, List.flatMap_cons,
    List.flatMap_append, flatMap_inside, List.flatMap_singleton]

end Seen

/-- A block at the top of a text is a statement. -/
theorem contributes_block {opening closing : String} {body : List Node}
    (hblock : (Node.block opening body closing).Closed) (hopen : OneLine opening)
    (hclose : OneLine closing) (hopening : startsWord opening.toList = true)
    (hclosing : Shown closing.toList) (hbody : tidy (nodesLines (0 + 1) body) ≠ [])
    {first : List Token} (hfirst : tokens opening.toList = first) :
    Contributes (readNode lookAtTokens 0 (.block opening body closing))
      (namesOnFirst first ++ (body.flatMap (namesSeen (namesBelow first) 1) ++
        namesBelow first (tokens closing.toList))) := by
  have hbelow : ∀ line ∈ (body.flatMap (readNode lookAtTokens 1)).map TokenLine.inside ++
      [⟨false, tokens closing.toList⟩], line.top = false := by
    rw [List.forall_mem_append, List.forall_mem_map]
    exact ⟨fun line _ ↦ rfl, List.forall_mem_singleton.2 rfl⟩
  have hstatement := contributes_statement first hbelow
  rw [List.flatMap_append, flatMap_inside, List.flatMap_singleton] at hstatement
  rwa [tokenLines_block hblock hopen hclose (shown_of_startsWord hopening) hclosing hbody,
    skipBlanks_word hopening, hopening, hfirst]

/-- A line at the top of a text is a statement. -/
theorem contributes_line {text : String} (h : OneLine text)
    (hword : startsWord text.toList = true) :
    Contributes (readNode lookAtTokens 0 (.line text)) (namesOnFirst (tokens text.toList)) := by
  have hstatement := contributes_statement (tokens text.toList) (List.forall_mem_nil _)
  rw [List.flatMap_nil, List.append_nil] at hstatement
  rwa [tokenLines_line h (shown_of_startsWord hword), skipBlanks_word hword, hword]

/-- A block at the top of a text that has no types on its first and last line contributes the names
inside. If nothing stands inside, these lines are one. -/
theorem contributes_body {opening closing : String} {body : List Node}
    (hblock : (Node.block opening body closing).Closed) (hopen : OneLine opening)
    (hclose : OneLine closing) (hword : startsWord opening.toList = true)
    (hclosing : Shown closing.toList) (hbody : body ≠ [] → ∃ text, .line text ∈ body)
    {first : List Token} (hfirst : ∀ rest, tokens (opening.toList ++ rest) = first ++ tokens rest)
    (hnone : namesOnFirst first = []) (hempty : namesOnFirst (first ++ tokens closing.toList) = [])
    (hlast : namesBelow first (tokens closing.toList) = []) :
    Contributes (readNode lookAtTokens 0 (.block opening body closing))
      (body.flatMap (namesSeen (namesBelow first) 1)) := by
  -- with nothing inside, the opening and the closing text make up one line
  by_cases hnil : body = []
  · subst hnil
    have hstart : startsWord (opening ++ closing).toList = true := by
      rw [String.toList_append]
      exact startsWord_append hword _
    have hline := contributes_line (oneLine_append_iff.2 ⟨hopen, hclose⟩) hstart
    rwa [String.toList_append, hfirst, hempty, ← readNode_emptyBlock] at hline
  · obtain ⟨text, htext⟩ := hbody hnil
    have hopening := hfirst []
    rw [List.append_nil, show tokens [] = [] from rfl, List.append_nil] at hopening
    have hcontributes := contributes_block hblock hopen hclose hword hclosing
      (tidy_ne_nil_of_mem_line htext) hopening
    rwa [hnone, hlast, List.append_nil, List.nil_append] at hcontributes

end AbiBindings.TypeScript
