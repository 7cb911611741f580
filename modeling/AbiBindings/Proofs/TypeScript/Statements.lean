import AbiBindings.Proofs.TypeScript.LineReader

/-!
# Statements of a text

A statement at the top of a text starts with a line that is in code and outside of all brackets, and
that starts with a word: the lines that go on with a statement are indented. `statements` takes
these lines off a text with the lexer. A line of a comment is not among them, whatever it says, and
neither is a line of a block.

The lines are looked at one by one (`statementsFrom_eq`). Under a bracket that a text leaves open no
statement starts. So the statements of a rendered text are those of its nodes, one after the other
(`statements_render`), and a block has only its opening line (`statements_block`).
-/

namespace AbiBindings.TypeScript

open LexState Layout

/-- The line starts with a character of a word. -/
def startsWord (line : List Char) : Bool := line.head?.any isIdentifierChar

/-- The first lines of the statements, from a state of the lexer on. -/
def statementsFrom (state : LexState) : List (List Char) → List (List Char)
  | [] => []
  | line :: lines =>
    (if state = ⟨.code, []⟩ then [line].filter startsWord else []) ++
      (state.scan (line ++ ['\n'])).elim [] (statementsFrom · lines)

/-- The first lines of the statements of a text. -/
def statements (text : String) : List (List Char) :=
  statementsFrom ⟨.code, []⟩ (Text.pieces (· = '\n') text.toList)

example :
    (statements "type A =\n  | 'x';\n/*\ntype B\n*/\nconst C = \x7b\ntype D\n\x7d;\n").map
      String.ofList =
    ["type A =", "const C = \x7b"] := by decide

/-! ### Lines -/

/-- A word ends where no character of a word follows. -/
theorem span_word {cs rest : List Char} (h : ∀ c ∈ cs, isIdentifierChar c = true)
    (hrest : startsWord rest = false) :
    (cs ++ rest).takeWhile isIdentifierChar = cs ∧
      (cs ++ rest).dropWhile isIdentifierChar = rest := by
  rw [List.takeWhile_append_of_pos h, List.dropWhile_append_of_pos h]
  cases rest with
  | nil => exact ⟨List.append_nil cs, rfl⟩
  | cons c rest =>
    have hc : ¬ isIdentifierChar c = true := Bool.eq_false_iff.1 hrest
    rw [List.takeWhile_cons_of_neg hc, List.dropWhile_cons_of_neg hc, List.append_nil]
    exact ⟨rfl, rfl⟩

theorem startsWord_append {start : List Char} (h : startsWord start = true) (rest : List Char) :
    startsWord (start ++ rest) = true := by
  cases start with
  | nil => cases h
  | cons c cs => exact h

/-- What is seen of a line that a statement may start with. -/
def lookForStatement (state : LexState) (line : List Char) : List (List Char) :=
  if state = ⟨.code, []⟩ then [line].filter startsWord else []

/-- Statements are what a reader of lines sees that looks for their first lines. -/
theorem statementsFrom_eq (state : LexState) (lines : List (List Char)) :
    statementsFrom state lines = readFrom lookForStatement state lines := by
  induction lines generalizing state with
  | nil => rfl
  | cons line lines ih =>
    rw [statementsFrom, readFrom, lookForStatement]
    simp only [ih]

theorem lookForStatement_eq_nil {line : List Char} (h : startsWord line = false)
    (state : LexState) : lookForStatement state line = [] := by
  rw [lookForStatement, List.filter_cons_of_neg (by simp [h]), List.filter_nil, ite_self]

/-- No statement starts under an open bracket. -/
theorem lookForStatement_above {below : List Char} (h : below ≠ []) (state : LexState)
    (line : List Char) : lookForStatement (state.above below) line = [] :=
  if_neg fun heq ↦ h (List.append_eq_nil_iff.1 (congrArg LexState.due heq)).2

/-! ### Texts of one line -/

/-- A text has no line end exactly if neither of its parts has one. -/
@[simp] theorem oneLine_append_iff {text more : String} :
    OneLine (text ++ more) ↔ OneLine text ∧ OneLine more := by
  rw [OneLine, String.toList_append, List.mem_append, not_or]
  rfl

/-- A line end is no character of names. -/
theorem IsName.oneLine {text : String} (h : IsName text) : OneLine text :=
  fun hmem ↦ absurd (h '\n' hmem) (by decide)

/-- A line end is escaped in a string literal. -/
theorem oneLine_literal {quote : Char} (hquote : quote ≠ '\n') (text : List Char) :
    OneLine (String.ofList (literal quote text)) := by
  have hchar (c : Char) : '\n' ∉ escapedChar quote c := by
    unfold escapedChar
    split_ifs with hbackslash hfeed <;> simp [Ne.symm hquote, eq_comm, *]
  rw [OneLine, String.toList_ofList, literal]
  simp [hquote.symm, hchar]

theorem oneLine_stringLiteral (text : String) : OneLine (stringLiteral text) :=
  oneLine_literal (by decide) text.toList

theorem oneLine_propertyKey (text : String) : OneLine (propertyKey text) := by
  rw [propertyKey]
  split
  · rename_i h
    exact (isName_of_isIdentifier h).oneLine
  · exact oneLine_literal (by decide) text.toList

theorem oneLine_propertyAccess (text : String) : OneLine (propertyAccess text) := by
  rw [propertyAccess]
  split
  · rename_i h
    exact oneLine_append_iff.2 ⟨by decide, (isName_of_isIdentifier h).oneLine⟩
  · have hkey : OneLine (quotedKey text) := oneLine_literal (by decide) text.toList
    simp only [oneLine_append_iff, hkey, and_true]
    decide

theorem oneLine_intercalate {separator : String} (hseparator : OneLine separator)
    {texts : List String} (h : ∀ text ∈ texts, OneLine text) :
    OneLine (separator.intercalate texts) :=
  forall_intercalate (by decide) (fun htext hmore ↦ oneLine_append_iff.2 ⟨htext, hmore⟩)
    hseparator h

theorem mem_of_mem_replacePair {a b c : Char} {patch cs : List Char}
    (h : c ∈ Text.replacePair a b patch cs) : c ∈ patch ∨ c ∈ cs := by
  induction cs using Text.replacePair.induct a b with
  | case1 => cases h
  | case2 d => exact .inr h
  | case3 d e cs hpair ih =>
    rw [Text.replacePair, if_pos hpair, List.mem_append] at h
    exact h.elim .inl fun h ↦
      (ih h).imp_right fun h ↦ List.mem_cons_of_mem d (List.mem_cons_of_mem e h)
  | case4 d e cs hpair ih =>
    rw [Text.replacePair, if_neg hpair] at h
    obtain rfl | h := List.mem_cons.1 h
    · exact .inr List.mem_cons_self
    · exact (ih h).imp_right (List.mem_cons_of_mem d)

/-- What is changed in a comment is changed within its lines. -/
theorem oneLine_commentText {text : String} (h : OneLine text) : OneLine (commentText text) := by
  intro hmem
  rw [commentText, String.toList_ofList] at hmem
  exact (mem_of_mem_replacePair hmem).elim (by decide) h

/-! ### Nodes -/

/-- The first lines of the statements that start in a node at the top of a text. -/
def Node.statements (node : Node) : List (List Char) :=
  statementsFrom ⟨.code, []⟩ ((nodeLines 0 node).flatMap Line.rows)

theorem Node.statements_eq (node : Node) : node.statements = readNode lookForStatement 0 node :=
  statementsFrom_eq _ _

/-- The statements of a text of closed nodes are those of the nodes. -/
theorem statements_render {nodes : List Node} (h : ∀ node ∈ nodes, node.Closed) :
    statements (render nodes) = nodes.flatMap Node.statements := by
  rw [statements, statementsFrom_eq, readFrom_render (lookForStatement_eq_nil rfl) h]
  exact congrArg (nodes.flatMap ·) (funext fun node ↦ node.statements_eq.symm)

/-- A line at the top is a statement if it starts with a word. -/
theorem statements_line {text : String} (h : OneLine text) :
    (Node.line text).statements = [text.toList].filter startsWord := by
  rw [Node.statements_eq, readNode_line h]
  rfl

theorem statements_blank : Node.blank.statements = [] := by
  rw [Node.statements_eq, readNode_blank]

/-- A comment is no statement, whatever its lines look like. -/
theorem statements_doc (lines : List String) : (Node.doc lines).statements = [] := by
  rw [Node.statements_eq]
  exact readNode_doc (fun _ _ ↦ rfl) (fun _ ↦ rfl) lines

/-- A block that starts with a word is one statement. If nothing stands inside, its opening line
goes on. -/
theorem statements_block {opening closing : String} {body : List Node}
    (hblock : (Node.block opening body closing).Closed) (hopen : OneLine opening)
    (hword : startsWord opening.toList = true) (hclose : OneLine closing) :
    ∃ rest, (Node.block opening body closing).statements = [opening.toList ++ rest] := by
  by_cases hbody : tidy (nodesLines (0 + 1) body) = []
  · have hline : OneLine (opening ++ closing) := oneLine_append_iff.2 ⟨hopen, hclose⟩
    refine ⟨closing.toList, ?_⟩
    rw [Node.statements, nodeLines, blockLines, hbody]
    show statementsFrom _ ([Line.text 0 (opening ++ closing)].flatMap Line.rows) = _
    rw [List.flatMap_singleton, hline.rows, statementsFrom_eq, readFrom_singleton,
      lookForStatement, if_pos rfl,
      String.toList_append, List.filter_cons_of_pos (startsWord_append hword closing.toList),
      List.filter_nil]
  · have hlook (state : LexState) (line : List Char) :
        lookForStatement (state.above ['\x7d']) line =
        (lookForStatement state line).filterMap fun _ ↦ none := by
      rw [lookForStatement_above (List.cons_ne_nil _ _), List.filterMap_none]
    refine ⟨[], ?_⟩
    rw [Node.statements_eq, readNode_block hlook 0 hblock hopen hclose hbody, List.filterMap_none,
      List.append_nil]
    show [opening.toList].filter startsWord ++ [] = _
    rw [List.filter_cons_of_pos hword, List.filter_nil, List.append_nil]

/-- A fixed text has the statements that are read off its lines. -/
theorem statements_snippet (cs : List Char) :
    (Node.snippet (String.ofList cs)).statements = statementsFrom ⟨.code, []⟩ (snippetRows cs) := by
  rw [Node.statements_eq, readNode_snippet, statementsFrom_eq]

end AbiBindings.TypeScript
