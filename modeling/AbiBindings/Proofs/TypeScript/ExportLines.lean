import AbiBindings.Proofs.TypeScript.Exports
import AbiBindings.Proofs.TypeScript.Seams

/-!
# Lines that start with an export

What a text exports is read with the lexer (`exports`). Here the text is only cut at its line ends,
and the lines that start with `export` are kept as they stand, so a line that a comment or a literal
of several lines would forge is counted as well.

Blank lines do not start so, and no line end is lost in the layout. So these lines of a rendered
text are those of its nodes, one after the other (`exportLines_render`). A line of a block is
indented, and a block has only its opening line (`exportLines_block`).
-/

namespace AbiBindings.TypeScript

open Layout

/-- The line starts with an export. -/
def startsExport (line : List Char) : Bool := "export ".toList.isPrefixOf line

/-- Those of the lines that start with an export. -/
def exportsAmong (lines : List (List Char)) :
    List String := (lines.filter startsExport).map String.ofList

/-- The lines of a text that start with an export. -/
def exportLines (text : String) : List String := exportsAmong (Text.pieces (· = '\n') text.toList)

example : exportLines "export type A =\n  | 'x';\n/*\nexport type B\n*/\n export const C\n" =
    ["export type A =", "export type B"] := by decide +kernel

/-! ### Lines -/

theorem exportsAmong_append (lines more : List (List Char)) :
    exportsAmong (lines ++ more) = exportsAmong lines ++ exportsAmong more := by
  rw [exportsAmong, List.filter_append, List.map_append]
  rfl

theorem exportsAmong_of_startsExport {text : String} (h : startsExport text.toList = true) :
    exportsAmong [text.toList] = [text] := by
  rw [exportsAmong, List.filter_cons_of_pos h, List.filter_nil, List.map_singleton,
    String.ofList_toList]

theorem exportsAmong_eq_nil {line : List Char} (h : startsExport line = false) :
    exportsAmong [line] = [] := by
  rw [exportsAmong, List.filter_cons_of_neg (by simp [h]), List.filter_nil, List.map_nil]

/-- Whether a line starts with an export is decided by its start. -/
theorem startsExport_append {start : String} (h : startsExport start.toList = true)
    (rest : String) : startsExport (start ++ rest).toList = true := by
  rw [startsExport, List.isPrefixOf_iff_prefix] at h ⊢
  rw [String.toList_append]
  exact h.trans (List.prefix_append _ _)

/-- Cutting the text of lines at its line ends gives back what stands on them. -/
theorem exportLines_linesText (lines : List Line) :
    exportLines (linesText lines) = exportsAmong (lines.flatMap Line.rows) := by
  induction lines with
  | nil => rfl
  | cons line lines ih =>
    rw [exportLines] at ih ⊢
    rw [linesText_cons, String.toList_append, List.flatMap_cons, exportsAmong_append, ← ih,
      ← exportsAmong_append]
    rcases line with _ | ⟨depth, content⟩
    · show exportsAmong (Text.pieces _ ([] ++ '\n' :: _)) = _
      rw [Text.pieces_append rfl]
      exact exportsAmong_append [[]] _
    · have hrender : (Line.text depth content).render.toList =
          ("".pushn ' ' (2 * depth)).toList ++ content.toList ++ ['\n'] := by
        rw [Line.render, String.toList_append, String.toList_append]
        rfl
      rw [hrender, List.append_assoc, List.singleton_append, Text.pieces_append rfl, Line.rows]

/-! ### Nodes -/

/-- The lines of a node, at the top of a text, that start with an export. -/
def Node.exportLines (node : Node) :
    List String := exportsAmong ((nodeLines 0 node).flatMap Line.rows)

/-- The lines of a text that start with an export are those of its nodes. -/
theorem exportLines_render (nodes : List Node) :
    exportLines (render nodes) = nodes.flatMap Node.exportLines := by
  show exportLines (linesText (tidyFrom false false (nodesLines 0 nodes))) = _
  rw [exportLines_linesText, flatMap_rows_tidyFrom]
  induction nodes with
  | nil => rw [nodesLines]; rfl
  | cons node nodes ih =>
    rw [nodesLines, List.flatMap_append, exportsAmong_append, ih]
    rfl

theorem exportLines_blank : Node.blank.exportLines = [] := by
  rw [Node.exportLines, nodeLines]
  rfl

/-- A line that starts with an export is one of the lines. -/
theorem exportLines_line {text : String} (hline : OneLine text)
    (h : startsExport text.toList = true) : (Node.line text).exportLines = [text] := by
  rw [Node.exportLines, nodeLines, List.flatMap_singleton, hline.rows,
    exportsAmong_of_startsExport h]

theorem exportLines_line_eq_nil {text : String} (hline : OneLine text)
    (h : startsExport text.toList = false) : (Node.line text).exportLines = [] := by
  rw [Node.exportLines, nodeLines, List.flatMap_singleton, hline.rows, exportsAmong_eq_nil h]

/-- A comment of one line has none, since it starts otherwise. -/
theorem exportLines_doc {text : String} (h : OneLine text) :
    (Node.doc [text]).exportLines = [] := by
  have hline : OneLine ("/** " ++ commentText text ++ " */") := by
    rw [oneLine_append_iff, oneLine_append_iff]
    exact ⟨⟨by decide, oneLine_commentText h⟩, by decide⟩
  rw [Node.exportLines, nodeLines, docLines, List.flatMap_singleton, hline.rows,
    String.toList_append, String.toList_append]
  rfl

/-- A line that is indented does not start with an export. -/
theorem exportsAmong_indented {content : String} (h : OneLine content) :
    exportsAmong (Line.text 1 content).rows = [] := by
  have hrows : (Line.text 1 content).rows = [' ' :: ' ' :: content.toList] := by
    refine Text.pieces_of_forall fun c hc ↦ decide_eq_false ?_
    rintro rfl
    have hmem : '\n' ∈ ' ' :: ' ' :: content.toList := hc
    simp only [List.mem_cons, Char.reduceEq, false_or] at hmem
    exact h hmem
  rw [hrows]
  rfl

/-- Lines inside a block are indented, so none of them starts with an export. -/
theorem exportsAmong_inside {body : List Node}
    (h : ∀ node ∈ body, ∃ text, OneLine text ∧ node = .line text) :
    exportsAmong ((nodesLines 1 body).flatMap Line.rows) = [] := by
  induction body with
  | nil => rw [nodesLines]; rfl
  | cons node body ih =>
    obtain ⟨text, htext, rfl⟩ := h node List.mem_cons_self
    rw [nodesLines, nodeLines, List.flatMap_append, exportsAmong_append, List.flatMap_singleton,
      exportsAmong_indented htext, ih fun other hother ↦ h other (List.mem_cons_of_mem _ hother)]
    rfl

/-- A block of single lines has only its opening line. If nothing stands inside, the closing line
follows on it. -/
theorem exportLines_block {opening closing : String} (hopening : OneLine opening)
    (hstart : startsExport opening.toList = true) (hclosing : OneLine closing)
    (hend : startsExport closing.toList = false) {body : List Node}
    (hbody : ∀ node ∈ body, ∃ text, OneLine text ∧ node = .line text) :
    (Node.block opening body closing).exportLines =
      [opening ++ if body.isEmpty then closing else ""] := by
  rcases body with _ | ⟨node, body⟩
  · have hline : OneLine (opening ++ closing) := oneLine_append_iff.2 ⟨hopening, hclosing⟩
    rw [Node.exportLines, nodeLines, nodesLines]
    show exportsAmong ([Line.text 0 (opening ++ closing)].flatMap Line.rows) = _
    rw [List.flatMap_singleton, hline.rows,
      exportsAmong_of_startsExport (startsExport_append hstart closing)]
    rfl
  · have hinside := exportsAmong_inside hbody
    obtain ⟨text, -, rfl⟩ := hbody node List.mem_cons_self
    -- the first line inside has text, so the block has more than one line
    have hlines : blockLines 0 opening closing (nodesLines 1 (.line text :: body)) =
        .text 0 opening :: tidyFrom false false (nodesLines 1 (.line text :: body)) ++
          [.text 0 closing] := by
      rw [nodesLines, nodeLines]
      rfl
    rw [Node.exportLines, nodeLines, hlines, List.flatMap_append, List.flatMap_cons,
      flatMap_rows_tidyFrom,
      exportsAmong_append, exportsAmong_append, hinside, hopening.rows,
      exportsAmong_of_startsExport hstart,
      List.flatMap_singleton, hclosing.rows, exportsAmong_eq_nil hend, List.isEmpty_cons,
      if_neg Bool.false_ne_true, String.append_empty]
    rfl

/-! ### Statements -/

theorem StartsWith.startsExport {start keyword : String} (h : StartsWith start keyword)
    {name tail : String} : startsExport (start ++ name ++ tail).toList = true := by
  rw [h.eq]
  simp only [String.append_assoc]
  exact startsExport_append (by decide) _

section Statements

variable {start keyword : String} (hstart : StartsWith start keyword) (name : String)
    (hname : IsName name)
  {tail : String} (htail : OneLine tail)
include hstart hname htail

/-- A statement on one line has this line. -/
theorem exportLines_statement :
    (Node.line (start ++ name ++ tail)).exportLines = [start ++ name ++ tail] :=
  exportLines_line (oneLine_statement hstart hname htail) hstart.startsExport

/-- A statement with a block has its first line, which ends with the closing text if there is
nothing in between. -/
theorem exportLines_statement_block {closing : String} (hclosing : OneLine closing)
    (hend : startsExport closing.toList = false) {body : List Node}
    (hbody : ∀ node ∈ body, ∃ text, OneLine text ∧ node = .line text) :
    (Node.block (start ++ name ++ tail) body closing).exportLines =
      [start ++ name ++ tail ++ if body.isEmpty then closing else ""] :=
  exportLines_block (oneLine_statement hstart hname htail) hstart.startsExport hclosing hend hbody

end Statements

end AbiBindings.TypeScript
