import AbiBindings.Proofs.TypeScript.Rendering
import AbiBindings.Proofs.TypeScript.Seams

/-!
# Reading line by line

A reader looks at each line of a text in the state of the lexer that the line starts in, and the
lexer carries the state from one line to the next (`readFrom`). What it sees of a rendered text is
what it sees of the nodes, one after the other (`readFrom_render`). In a block, it sees the lines
inside in the state that the opening line leads to (`readNode_block`), and under further brackets it
sees what it would see without them, changed by what it makes of brackets (`readFrom_frame`).

A documentation comment is not seen by a reader that looks at code only, whatever it holds
(`readNode_doc`).
-/

namespace AbiBindings.TypeScript

open LexState Layout

/-- What is seen of lines, from a state of the lexer on. -/
def readFrom {α : Type} (look : LexState → List Char → List α) (state : LexState) :
    List (List Char) → List α
  | [] => []
  | line :: lines =>
    look state line ++ (state.scan (line ++ ['\n'])).elim [] (readFrom look · lines)

section Lines

variable {α : Type} {look : LexState → List Char → List α}

/-- What is seen of later lines depends on the state that the earlier ones lead to. -/
theorem readFrom_append (state : LexState) (lines more : List (List Char)) :
    readFrom look state (lines ++ more) =
      readFrom look state lines ++
        (state.scan (lines.flatMap (· ++ ['\n']))).elim [] (readFrom look · more) := by
  induction lines generalizing state with
  | nil => rfl
  | cons line lines ih =>
    rw [List.cons_append, readFrom, readFrom, List.flatMap_cons, scan_append _ (line ++ ['\n']),
      List.append_assoc]
    congr 1
    cases state.scan (line ++ ['\n']) with
    | none => rfl
    | some next => exact ih next

theorem readFrom_singleton (state : LexState) (line : List Char) :
    readFrom look state [line] = look state line := by
  rw [readFrom]
  cases state.scan (line ++ ['\n']) <;> exact List.append_nil _

/-- Under brackets that the lines do not close, a reader sees what it makes of the brackets. -/
theorem readFrom_frame {below : List Char} {pick : α → Option α}
    (hlook : ∀ state line, look (state.above below) line = (look state line).filterMap pick)
    {state next : LexState} {lines : List (List Char)}
    (h : state.scan (lines.flatMap (· ++ ['\n'])) = some next) :
    readFrom look (state.above below) lines = (readFrom look state lines).filterMap pick := by
  induction lines generalizing state with
  | nil => rfl
  | cons line lines ih =>
    rw [List.flatMap_cons, scan_append] at h
    obtain ⟨middle, hline, hlines⟩ := Option.bind_eq_some_iff.1 h
    rw [readFrom, readFrom, hlook, scan_frame hline below, hline, List.filterMap_append]
    exact congrArg _ (ih hlines)

/-- A text without a line end can be left out if it makes no difference to how the line is seen. -/
theorem readFrom_pieces_append {start : List Char} (hstart : '\n' ∉ start) {state next : LexState}
    (hscan : state.scan start = some next)
    (hlook : ∀ line, look state (start ++ line) = look next line) (cs : List Char) :
    readFrom look state (Text.pieces (· = '\n') (start ++ cs)) =
      readFrom look next (Text.pieces (· = '\n') cs) := by
  obtain ⟨line, lines, hpieces⟩ := List.exists_cons_of_ne_nil (Text.pieces_ne_nil (· = '\n') cs)
  have hmore := Text.pieces_append_left (Text.forall_ne_newline hstart) hpieces
  rw [hpieces, hmore, readFrom, readFrom, hlook, List.append_assoc, scan_append, hscan]
  rfl

end Lines

/-! ### Lines of a layout -/

/-- The lines of text that a line of a layout makes, with their indentation; a blank line is passed
over. -/
def Layout.Line.rows : Line → List (List Char)
  | .blank => []
  | .text depth content =>
    Text.pieces (· = '\n') (("".pushn ' ' (2 * depth)).toList ++ content.toList)

/-- Blank lines have no rows, so tidying does not matter. -/
theorem flatMap_rows_tidyFrom (started pending : Bool) (lines : List Line) :
    (tidyFrom started pending lines).flatMap Line.rows = lines.flatMap Line.rows :=
  flatMap_tidyFrom rfl started pending lines

/-- Reading rows leads to the same state as reading lines. -/
theorem scan_rows {state : LexState} (h : Resting state) (lines : List Line) :
    state.scan ((lines.flatMap Line.rows).flatMap (· ++ ['\n'])) = scanLines state lines := by
  induction lines generalizing state with
  | nil => rfl
  | cons line lines ih =>
    cases line with
    | blank => exact ih h
    | text depth content =>
      rw [List.flatMap_cons, List.flatMap_append, Line.rows, Text.flatMap_pieces, scan_append,
        List.append_assoc, h.scan_indentation, scanLines]
      exact Option.bind_congr fun next hnext ↦ ih (resting_of_scan_newline hnext)

/-- The text has no line end. -/
def OneLine (text : String) : Prop := '\n' ∉ text.toList

instance (text : String) : Decidable (OneLine text) :=
  inferInstanceAs (Decidable ('\n' ∉ text.toList))

/-- A text without line ends is one row, after its indentation. -/
theorem OneLine.rows_indented {text : String} (h : OneLine text) (depth : Nat) :
    (Line.text depth text).rows = [("".pushn ' ' (2 * depth)).toList ++ text.toList] := by
  refine Text.pieces_of_forall (Text.forall_ne_newline fun hmem ↦ ?_)
  obtain hmem | hmem := List.mem_append.1 hmem
  · exact absurd (mem_indentation hmem) (by decide)
  · exact h hmem

theorem OneLine.rows {text : String} (h : OneLine text) : (Line.text 0 text).rows = [text.toList] :=
  h.rows_indented 0

section Layout

variable {α : Type} {look : LexState → List Char → List α}

section Render

variable (hblank : ∀ state, look state [] = [])
include hblank

theorem readFrom_nil_cons {state : LexState} (h : Resting state) (lines : List (List Char)) :
    readFrom look state ([] :: lines) = readFrom look state lines := by
  rw [readFrom, hblank, List.nil_append, List.nil_append, h.scan_newline]
  rfl

/-- A text that is rendered is read row by row. -/
theorem readFrom_lines {state : LexState} (h : Resting state) (lines : List Line) :
    readFrom look state (Text.pieces (· = '\n') (String.join (lines.map Line.render)).toList) =
      readFrom look state (lines.flatMap Line.rows) := by
  induction lines generalizing state with
  | nil => exact readFrom_nil_cons hblank h []
  | cons line lines ih =>
    rw [List.map_cons, String.join_cons, String.toList_append, List.flatMap_cons]
    cases line with
    | blank =>
      show readFrom look state (Text.pieces _ ([] ++ '\n' :: _)) = _
      rw [Text.pieces_append rfl]
      exact (readFrom_nil_cons hblank h _).trans (ih h)
    | text depth content =>
      have hrender : (Line.text depth content).render.toList =
          ("".pushn ' ' (2 * depth)).toList ++ content.toList ++ ['\n'] := by
        rw [Line.render, String.toList_append, String.toList_append]
        rfl
      rw [hrender, List.append_assoc, List.singleton_append, Text.pieces_append rfl,
        readFrom_append, readFrom_append, Line.rows, Text.flatMap_pieces]
      congr 1
      cases hscan : state.scan (("".pushn ' ' (2 * depth)).toList ++ content.toList ++ ['\n']) with
      | none => rfl
      | some next => exact ih (resting_of_scan_newline hscan)

end Render

/-- What is seen of a node in code, at a depth and outside of all brackets. -/
def readNode (look : LexState → List Char → List α) (depth : Nat) (node : Node) : List α :=
  readFrom look ⟨.code, []⟩ ((nodeLines depth node).flatMap Line.rows)

/-- Closed nodes are read one by one, each from the same state. -/
theorem readFrom_nodesLines (depth : Nat) {nodes : List Node} (h : ∀ node ∈ nodes, node.Closed) :
    readFrom look ⟨.code, []⟩ ((nodesLines depth nodes).flatMap Line.rows) =
      nodes.flatMap (readNode look depth) := by
  induction nodes with
  | nil => rw [nodesLines]; rfl
  | cons node nodes ih =>
    have hnode := (h node List.mem_cons_self).neutralLines depth
    rw [nodesLines, List.flatMap_append, readFrom_append, scan_rows (resting_code []), hnode,
      List.flatMap_cons, ← ih fun other hother ↦ h other (List.mem_cons_of_mem node hother)]
    rfl

/-- What is seen of a rendered text is what is seen of its nodes. -/
theorem readFrom_render (hblank : ∀ state, look state [] = []) {nodes : List Node}
    (h : ∀ node ∈ nodes, node.Closed) :
    readFrom look ⟨.code, []⟩ (Text.pieces (· = '\n') (render nodes).toList) =
      nodes.flatMap (readNode look 0) := by
  rw [render, readFrom_lines hblank (resting_code []), tidy, flatMap_rows_tidyFrom,
    readFrom_nodesLines 0 h]

theorem readNode_line {text : String} (h : OneLine text) (depth : Nat) :
    readNode look depth (.line text) =
      look ⟨.code, []⟩ (("".pushn ' ' (2 * depth)).toList ++ text.toList) := by
  rw [readNode, nodeLines, List.flatMap_singleton, h.rows_indented, readFrom_singleton]

theorem readNode_blank (depth : Nat) : readNode look depth .blank = [] := by
  rw [readNode, nodeLines]
  rfl

/-- A block with something inside. Its nodes are read under the brace that the opening line leaves
open. -/
theorem readNode_block {pick : α → Option α}
    (hlook : ∀ state line, look (state.above ['\x7d']) line = (look state line).filterMap pick)
    (depth : Nat) {opening closing : String} {body : List Node}
    (hblock : (Node.block opening body closing).Closed) (hopen : OneLine opening)
    (hclose : OneLine closing) (hbody : tidy (nodesLines (depth + 1) body) ≠ []) :
    readNode look depth (.block opening body closing) =
      look ⟨.code, []⟩ (("".pushn ' ' (2 * depth)).toList ++ opening.toList) ++
        ((body.flatMap (readNode look (depth + 1))).filterMap pick ++
          look ⟨.code, ['\x7d']⟩ (("".pushn ' ' (2 * depth)).toList ++ closing.toList)) := by
  obtain ⟨hopening, hclosed⟩ : Leads [] opening ['\x7d'] ∧ ∀ node ∈ body, node.Closed := by
    cases hblock with
    | block hopening hclosed _ => exact ⟨hopening, hclosed⟩
  have hneutral : NeutralLines (nodesLines (depth + 1) body) :=
    neutralLines_nodesLines fun node hnode ↦ (hclosed node hnode).neutralLines (depth + 1)
  have hscan := (scan_rows (resting_code []) _).trans hneutral
  have hinside : readFrom look ⟨.code, ['\x7d']⟩ ((nodesLines (depth + 1) body).flatMap Line.rows) =
      (body.flatMap (readNode look (depth + 1))).filterMap pick := by
    rw [← readFrom_nodesLines (depth + 1) hclosed]
    exact readFrom_frame hlook hscan
  have hunder : (⟨.code, ['\x7d']⟩ : LexState).scan
      (((nodesLines (depth + 1) body).flatMap Line.rows).flatMap (· ++ ['\n'])) =
        some ⟨.code, ['\x7d']⟩ :=
    scan_frame hscan ['\x7d']
  have hrows := flatMap_rows_tidyFrom false false (nodesLines (depth + 1) body)
  rw [← tidy] at hrows
  rw [readNode, nodeLines, blockLines]
  split
  · rename_i hnil
    exact absurd hnil hbody
  · rw [List.cons_append, List.flatMap_cons, List.flatMap_append, hrows, hopen.rows_indented,
      List.singleton_append,
      readFrom, List.append_assoc, (resting_code []).scan_indentation, hopening.scan_newline,
      Option.elim_some,
      readFrom_append, hinside, hunder, Option.elim_some, List.flatMap_singleton,
      hclose.rows_indented, readFrom_singleton]

/-- A body with a line in it is not empty. -/
theorem tidy_ne_nil_of_mem_line {depth : Nat} {body : List Node} {text : String}
    (h : .line text ∈ body) : tidy (nodesLines depth body) ≠ [] := by
  have hmem : .text depth text ∈ nodesLines depth body := by
    induction body with
    | nil => cases h
    | cons node body ih =>
      rw [nodesLines, List.mem_append]
      obtain rfl | h := List.mem_cons.1 h
      · rw [nodeLines]
        exact .inl List.mem_cons_self
      · exact .inr (ih h)
  intro hnil
  have hrows := flatMap_rows_tidyFrom false false (nodesLines depth body)
  rw [← tidy, hnil, List.flatMap_nil, eq_comm, List.flatMap_eq_nil_iff] at hrows
  exact Text.pieces_ne_nil _ _ (hrows _ hmem)

/-- The lines of a text of several lines, as the characters that they are made from. -/
def snippetRows (cs : List Char) : List (List Char) :=
  ((Text.lines (Text.trim (· = '\n') cs)).filter (!·.all Text.isBlank)).flatMap
    (Text.pieces (· = '\n'))

/-- A text of several lines is read as the characters that it is made from, which is the form that
evaluates. -/
theorem readNode_snippet (cs : List Char) :
    readNode look 0 (.snippet (String.ofList cs)) = readFrom look ⟨.code, []⟩ (snippetRows cs) := by
  rw [readNode, nodeLines, snippetLines, List.flatMap_map, String.toList_ofList, snippetRows]
  congr 1
  induction Text.lines (Text.trim (· = '\n') cs) with
  | nil => rfl
  | cons line lines ih =>
    rw [List.flatMap_cons, ih]
    by_cases hblank : line.all Text.isBlank = true
    · rw [if_pos hblank, List.filter_cons_of_neg (by simp [hblank])]
      rfl
    · rw [if_neg hblank, List.filter_cons_of_pos (by simpa using hblank),
        List.flatMap_cons, Line.rows, String.toList_ofList]
      rfl

end Layout

/-! ### Comments -/

theorem noEnd_commentText (text : String) : NoEnd (commentText text).toList := by
  rw [commentText, String.toList_ofList]
  exact noEnd_replacePair text.toList

/-- A line of a comment does not end the comment. -/
theorem noEnd_commentLine (text : String) : NoEnd (commentLine text).toList := by
  rw [commentLine]
  split
  · decide
  · rw [String.toList_append]
    refine List.IsChain.append (by decide) (noEnd_commentText text) fun c hc ↦ ?_
    cases hc
    exact fun d _ h ↦ absurd h.1 (by decide)

theorem NoEnd.indented {cs : List Char} (h : NoEnd cs) (depth : Nat) :
    NoEnd (("".pushn ' ' (2 * depth)).toList ++ cs) := by
  generalize hindentation : ("".pushn ' ' (2 * depth)).toList = indentation
  have hblank : ∀ c ∈ indentation, c = ' ' := fun c hc ↦ mem_indentation (hindentation ▸ hc)
  clear hindentation
  induction indentation with
  | nil => exact h
  | cons c indentation ih =>
    obtain ⟨rfl, hrest⟩ := List.forall_mem_cons.1 hblank
    exact List.isChain_cons.2 ⟨fun d _ h ↦ absurd h.1 (by decide), ih hrest⟩

section Comments

variable {α : Type} {look : LexState → List Char → List α}
  (hcomment : ∀ due line, look ⟨.blockComment, due⟩ line = [])
include hcomment

/-- Nothing is seen of a text in which the comment goes on, up to the end of the line that it ends
on. -/
theorem readFrom_comment {cs stop : List Char} (hcs : NoEnd cs) (hstop : '\n' ∉ stop)
    (due : List Char) :
    readFrom look ⟨.blockComment, due⟩ (Text.pieces (· = '\n') (cs ++ stop)) = [] := by
  by_cases hmem : '\n' ∈ cs
  · obtain ⟨line, rest, rfl, hline⟩ := List.eq_append_cons_of_mem hmem
    have hend : NoEnd line := hcs.left_of_append
    obtain ⟨after, hafter, hscan⟩ := hend.scan (.inl rfl) (fun hstar ↦ by cases hstar) due
    have hnext : (⟨.blockComment, due⟩ : LexState).scan (line ++ ['\n']) =
        some ⟨.blockComment, due⟩ := by
      rw [scan_append, hscan]
      obtain rfl | rfl := hafter <;> rfl
    rw [List.append_assoc, List.cons_append, Text.pieces_append rfl,
      Text.pieces_of_forall (Text.forall_ne_newline hline), List.singleton_append, readFrom,
      hcomment, hnext]
    exact readFrom_comment hcs.right_of_append.tail hstop due
  · have hnot : '\n' ∉ cs ++ stop := fun h ↦ (List.mem_append.1 h).elim hmem hstop
    rw [Text.pieces_of_forall (Text.forall_ne_newline hnot), readFrom_singleton, hcomment]
termination_by cs.length
decreasing_by
  subst_vars
  simp only [List.length_append, List.tail_cons, List.length_cons]
  omega

/-- Nothing is seen of the lines of a comment. -/
theorem readFrom_commentLines (depth : Nat) (lines : List String) (due : List Char) :
    readFrom look ⟨.blockComment, due⟩
      ((lines.map (.text depth <| commentLine ·)).flatMap Line.rows) = [] := by
  induction lines with
  | nil => rfl
  | cons line lines ih =>
    have hresting : Resting ⟨.blockComment, due⟩ := .inr rfl
    have hrows : readFrom look ⟨.blockComment, due⟩ (Line.text depth (commentLine line)).rows =
        [] := by
      have hend := (noEnd_commentLine line).indented depth
      have hread := readFrom_comment hcomment hend List.not_mem_nil due
      rwa [List.append_nil] at hread
    have hscan : (⟨.blockComment, due⟩ : LexState).scan
        ((Line.text depth (commentLine line)).rows.flatMap (· ++ ['\n'])) =
          some ⟨.blockComment, due⟩ := by
      have hline := (scan_rows hresting [.text depth (commentLine line)]).trans
        (scanLines_commentLines depth [line] due)
      rwa [List.flatMap_singleton] at hline
    rw [List.map_cons, List.flatMap_cons, readFrom_append, hrows, hscan]
    exact ih

/-- Nothing is seen of a documentation comment. -/
theorem readNode_doc {depth : Nat}
    (hslash : ∀ line, look ⟨.code, []⟩ (("".pushn ' ' (2 * depth)).toList ++ '/' :: line) = [])
    (lines : List String) : readNode look depth (.doc lines) = [] := by
  rw [readNode, nodeLines]
  unfold docLines
  split
  · rfl
  · rename_i line
    have hcontent : ("".pushn ' ' (2 * depth)).toList ++
        ("/** " ++ commentText line ++ " */").toList =
        ("".pushn ' ' (2 * depth)).toList ++ "/** ".toList ++
          ((commentText line).toList ++ " */".toList) := by
      simp only [String.toList_append, List.append_assoc]
    have hscan :
        (⟨.code, []⟩ : LexState).scan (("".pushn ' ' (2 * depth)).toList ++ "/** ".toList) =
        some ⟨.blockComment, []⟩ := (resting_code []).scan_indentation _ _
    have hstart : '\n' ∉ ("".pushn ' ' (2 * depth)).toList ++ "/** ".toList := by
      rw [List.mem_append, not_or]
      exact ⟨fun hmem ↦ absurd (mem_indentation hmem) (by decide), by decide⟩
    rw [List.flatMap_singleton, Line.rows, hcontent, readFrom_pieces_append hstart hscan]
    · exact readFrom_comment hcomment (noEnd_commentText line) (by decide) []
    · intro more
      rw [hcomment, List.append_assoc]
      exact hslash _
  · have hopen : OneLine "/**" := by decide
    have hclose : OneLine " */" := by decide
    have hscan : (⟨.blockComment, []⟩ : LexState).scan
        (((lines.map (.text depth <| commentLine ·)).flatMap Line.rows).flatMap (· ++ ['\n'])) =
          some ⟨.blockComment, []⟩ :=
          (scan_rows (.inr rfl) _).trans (scanLines_commentLines depth lines [])
    rw [List.cons_append, List.flatMap_cons, List.flatMap_append, hopen.rows_indented,
      List.singleton_append, readFrom, List.append_assoc, (resting_code []).scan_indentation]
    show look _ _ ++ readFrom look ⟨.blockComment, []⟩ _ = _
    rw [readFrom_append, readFrom_commentLines hcomment, hscan, List.flatMap_singleton,
      hclose.rows_indented, Option.elim_some, readFrom_singleton, hcomment]
    exact (List.append_nil _).trans (hslash _)

end Comments

end AbiBindings.TypeScript
