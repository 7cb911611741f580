import AbiBindings.TypeScript.Layout
import Mathlib.Data.List.Basic

/-!
# Rendering part by part

Tidying looks across the parts of a text: a blank line at the end of one part and one at the start
of the next make a single one, and a part without lines leaves none at all. Still, a text is
rendered part by part where a blank line is asked for. Each part is tidied on its own, and the blank
line stands between two parts if both have lines (`render_append_blank`).

The tidying of what comes after a seam depends on what came before only through whether there was a
line with text and whether a blank line came after it (`tidyFrom_append`).
-/

namespace AbiBindings.TypeScript.Layout

/-! ### Lines -/

/-- Before the first line with text, blank lines are dropped, so a pending one makes no
difference. -/
theorem tidyFrom_false (pending : Bool) (lines : List Line) :
    tidyFrom false pending lines = tidy lines := by
  induction lines generalizing pending with
  | nil => rfl
  | cons line lines ih =>
    rcases line with _ | ⟨depth, content⟩
    · exact (ih true).trans (ih true).symm
    · rfl

/-- After a line with text, a pending blank line shows up if another line with text comes. -/
theorem tidyFrom_true_true (lines : List Line) :
    tidyFrom true true lines = if tidy lines = [] then [] else .blank :: tidy lines := by
  induction lines with
  | nil => rfl
  | cons line lines ih =>
    rcases line with _ | ⟨depth, content⟩
    · have htidy : tidy (.blank :: lines) = tidy lines := tidyFrom_false true lines
      rw [htidy]
      exact ih
    · exact (if_neg (List.cons_ne_nil _ _)).symm

/-- Whether a blank line is pending after lines; `pending` says so of what came before them. -/
def pendingAfter (pending : Bool) (lines : List Line) :
    Bool := lines.getLast?.elim pending (· = .blank)

theorem pendingAfter_cons (pending : Bool) (line : Line) (lines : List Line) :
    pendingAfter pending (line :: lines) = pendingAfter (line = .blank) lines := by
  rcases hlast : lines.getLast? with _ | last
  · simp [pendingAfter, List.getLast?_cons, hlast]
  · simp [pendingAfter, List.getLast?_cons, hlast]

/-- Of the lines before a seam it only matters whether one had text, and whether the last one was
blank. -/
theorem tidyFrom_append (started pending : Bool) (lines more : List Line) :
    tidyFrom started pending (lines ++ more) =
      tidyFrom started pending lines ++
        tidyFrom (started || !(tidy lines).isEmpty) (pendingAfter pending lines) more := by
  induction lines generalizing started pending with
  | nil => exact congrArg (tidyFrom · pending more) (Bool.or_false started).symm
  | cons line lines ih =>
    rw [pendingAfter_cons]
    rcases line with _ | ⟨depth, content⟩
    · have htidy : tidy (.blank :: lines) = tidy lines := tidyFrom_false true lines
      rw [htidy]
      exact ih started true
    · have hseen : (started || !(tidy (.text depth content :: lines)).isEmpty) = true :=
        Bool.or_true started
      rw [List.cons_append, tidyFrom, ih true false, hseen, tidyFrom, List.append_assoc]
      rfl

/-- The lines after a seam are tidied by themselves, with a blank line pending. -/
theorem tidyFrom_append_blank (started pending : Bool) (lines more : List Line) :
    tidyFrom started pending (lines ++ .blank :: more) =
      tidyFrom started pending lines ++ tidyFrom (started || !(tidy lines).isEmpty) true more :=
  tidyFrom_append started pending lines (.blank :: more)

/-- Tidying changes nothing in what is made of the lines with text. -/
theorem flatMap_tidyFrom {α : Type} {f : Line → List α} (hblank : f .blank = [])
    (started pending : Bool) (lines : List Line) :
    (tidyFrom started pending lines).flatMap f = lines.flatMap f := by
  induction lines generalizing started pending with
  | nil => rfl
  | cons line lines ih =>
    rcases line with _ | ⟨depth, content⟩
    · rw [List.flatMap_cons, hblank]
      exact ih started true
    · have hgap : (if started && pending then [Line.blank] else []).flatMap f = [] := by
        split
        · rw [List.flatMap_singleton, hblank]
        · rfl
      rw [tidyFrom, List.flatMap_append, hgap, List.nil_append, List.flatMap_cons,
        List.flatMap_cons, ih]

theorem tidy_append_blank (lines more : List Line) :
    tidy (lines ++ .blank :: more) =
      if tidy lines = [] then tidy more
      else if tidy more = [] then tidy lines
      else tidy lines ++ .blank :: tidy more := by
  rw [tidy, tidyFrom_append_blank, Bool.false_or]
  show tidy lines ++ _ = _
  by_cases hlines : tidy lines = []
  · rw [if_pos hlines, hlines]
    exact tidyFrom_false true more
  · have hstarted : (!(tidy lines).isEmpty) = true := by simpa using hlines
    rw [if_neg hlines, hstarted, tidyFrom_true_true]
    split
    · exact List.append_nil _
    · rfl

/-! ### Texts -/

/-- After a line with text, tidying starts anew. -/
theorem tidyFrom_append_text (started pending : Bool) (lines : List Line) (depth : Nat)
    (content : String) (more : List Line) :
    ∃ front, tidyFrom started pending (lines ++ .text depth content :: more) =
      front ++ .text depth content :: tidyFrom true false more := by
  induction lines generalizing started pending with
  | nil => exact ⟨_, rfl⟩
  | cons line lines ih =>
    rcases line with _ | ⟨depth', content'⟩
    · exact ih started true
    · obtain ⟨front, hfront⟩ := ih true false
      refine ⟨(if started && pending then [.blank] else []) ++ .text depth' content' :: front, ?_⟩
      rw [List.cons_append, tidyFrom, hfront, List.append_assoc]
      rfl

theorem nodesLines_append (depth : Nat) (nodes more : List Node) :
    nodesLines depth (nodes ++ more) = nodesLines depth nodes ++ nodesLines depth more := by
  induction nodes with
  | nil => rw [nodesLines]; rfl
  | cons node nodes ih => rw [List.cons_append, nodesLines, nodesLines, ih, List.append_assoc]

/-- The text of lines. -/
def linesText (lines : List Line) : String := String.join (lines.map Line.render)

theorem linesText_append (lines more : List Line) :
    linesText (lines ++ more) = linesText lines ++ linesText more := by
  rw [linesText, List.map_append, String.join_append]
  rfl

theorem linesText_cons (line : Line) (lines : List Line) :
    linesText (line :: lines) = line.render ++ linesText lines :=
  String.join_cons

theorem Line.render_text_zero (content : String) :
    (Line.text 0 content).render = content ++ "\n" := by
  show "" ++ content ++ "\n" = _
  rw [String.empty_append]

/-- A text of lines ends in a line end. -/
theorem exists_linesText_eq (line : Line) (lines : List Line) :
    ∃ text, linesText (line :: lines) = text ++ "\n" := by
  induction lines generalizing line with
  | nil =>
    rw [linesText_cons]
    show ∃ text, line.render ++ "" = _
    rw [String.append_empty]
    rcases line with _ | ⟨depth, content⟩
    · exact ⟨"", rfl⟩
    · exact ⟨_, rfl⟩
  | cons next lines ih =>
    obtain ⟨text, htext⟩ := ih next
    exact ⟨line.render ++ text, by rw [linesText_cons, htext, String.append_assoc]⟩

theorem append_newline_ne_empty (text : String) : text ++ "\n" ≠ "" := by
  rw [Ne, String.append_eq_empty_iff]
  exact fun h ↦ absurd h.2 (by decide)

theorem Line.render_ne_empty (line : Line) : line.render ≠ "" := by
  rcases line with _ | ⟨depth, content⟩
  · decide
  · exact append_newline_ne_empty _

theorem linesText_eq_empty_iff {lines : List Line} : linesText lines = "" ↔ lines = [] := by
  rcases lines with _ | ⟨line, lines⟩
  · exact iff_of_true rfl rfl
  · refine iff_of_false (fun h ↦ ?_) (List.cons_ne_nil line lines)
    rw [linesText_cons, String.append_eq_empty_iff] at h
    exact line.render_ne_empty h.1

/-- Two texts with an empty line between them; a text that is empty leaves the other as it is. -/
def seam (text more : String) : String :=
  if text = "" then more else if more = "" then text else text ++ "\n" ++ more

/-- Around a blank node a text is rendered part by part. -/
theorem render_append_blank (nodes more : List Node) :
    render (nodes ++ .blank :: more) = seam (render nodes) (render more) := by
  have hlines : nodesLines 0 (nodes ++ .blank :: more) = nodesLines 0 nodes ++
      .blank :: nodesLines 0 more := by
    rw [nodesLines_append, nodesLines, nodeLines]
    rfl
  show linesText (tidy (nodesLines 0 (nodes ++ .blank :: more))) =
    seam (linesText (tidy (nodesLines 0 nodes))) (linesText (tidy (nodesLines 0 more)))
  rw [hlines, tidy_append_blank, seam]
  simp only [linesText_eq_empty_iff]
  split_ifs
  · rfl
  · rfl
  · rw [linesText_append, linesText_cons, String.append_assoc]
    rfl

theorem seam_of_left {text : String} (h : text ≠ "") (more : String) :
    seam text more = text ++ if more = "" then "" else "\n" ++ more := by
  rw [seam, if_neg h]
  split
  · exact (String.append_empty).symm
  · exact String.append_assoc

theorem seam_of_right {more : String} (h : more ≠ "") (text : String) :
    seam text more = (if text = "" then "" else text ++ "\n") ++ more := by
  rw [seam, if_neg h]
  split
  · exact (String.empty_append).symm
  · rfl

/-! ### Single nodes -/

theorem render_line (text : String) : render [.line text] = text ++ "\n" := by
  show linesText (tidy (nodesLines 0 [.line text])) = _
  rw [nodesLines, nodesLines, nodeLines]
  show linesText [.text 0 text] = _
  rw [linesText_cons, Line.render_text_zero]
  exact String.append_empty

theorem render_line_ne_empty (text : String) : render [.line text] ≠ "" :=
  render_line text ▸ append_newline_ne_empty text

theorem render_block_ne_empty (opening closing : String) (body : List Node) :
    render [.block opening body closing] ≠ "" := by
  show linesText (tidy (nodesLines 0 [.block opening body closing])) ≠ ""
  rw [Ne, linesText_eq_empty_iff, nodesLines, nodesLines, nodeLines, blockLines]
  split
  · exact List.cons_ne_nil _ _
  · exact List.cons_ne_nil _ _

/-- A node with a text of its own, a blank node, and whatever comes after them. -/
theorem render_paragraph {node : Node} (h : render [node] ≠ "") (more : List Node) :
    render (node :: .blank :: more) =
      render [node] ++ if render more = "" then "" else "\n" ++ render more :=
  (render_append_blank [node] more).trans (seam_of_left h _)

theorem render_paragraph_ne_empty {node : Node} (h : render [node] ≠ "") (more : List Node) :
    render (node :: .blank :: more) ≠ "" := by
  rw [render_paragraph h, Ne, String.append_eq_empty_iff]
  exact fun hempty ↦ h hempty.1

/-- The characters of lines with blank lines tidied; the lines are given by their characters, which
is the form that evaluates. -/
def tidyChars (started pending : Bool) : List (List Char) → List Char
  | [] => []
  | line :: lines =>
    if line.all Text.isBlank then tidyChars started true lines
    else (if started && pending then ['\n'] else []) ++ line ++ '\n' :: tidyChars true false lines

theorem toList_linesText_tidyFrom (started pending : Bool) (lines : List (List Char)) :
    (linesText (tidyFrom started pending (lines.map fun line ↦
        if line.all Text.isBlank then .blank else .text 0 (String.ofList line)))).toList =
      tidyChars started pending lines := by
  induction lines generalizing started pending with
  | nil => rfl
  | cons line lines ih =>
    rw [List.map_cons, tidyChars]
    split
    · exact ih started true
    · have hblank : (linesText (if started && pending then [.blank] else [])).toList =
          if started && pending then ['\n'] else [] := by split <;> rfl
      have hline : (Line.text 0 (String.ofList line)).render.toList = line ++ ['\n'] := by
        rw [Line.render, String.toList_append, String.toList_append, String.toList_ofList]
        rfl
      rw [tidyFrom, linesText_append, linesText_cons, String.toList_append, String.toList_append,
        hblank, hline, ih true false]
      simp

/-- A text of several lines that is tidy already is left as it is. -/
theorem render_snippet {cs : List Char}
    (h : tidyChars false false (Text.lines (Text.trim (· = '\n') cs)) = cs ++ ['\n']) :
    render [.snippet (String.ofList cs)] = String.ofList cs ++ "\n" := by
  have hlines : nodesLines 0 [.snippet (String.ofList cs)] = snippetLines 0 (String.ofList cs) := by
    rw [nodesLines, nodesLines, nodeLines, List.append_nil]
  show linesText (tidy (nodesLines 0 [.snippet (String.ofList cs)])) = _
  rw [hlines, snippetLines, String.toList_ofList, ← String.toList_inj, tidy,
    toList_linesText_tidyFrom, h, String.toList_append, String.toList_ofList]
  rfl

end AbiBindings.TypeScript.Layout
