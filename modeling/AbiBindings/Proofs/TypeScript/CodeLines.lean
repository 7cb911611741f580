import AbiBindings.Proofs.TypeScript.ObjectLiteral
import Mathlib.Data.List.TakeWhile

/-!
# Lines of code and what is below them

A line of code is one that starts outside of strings and comments and with a word. It is taken off a
text with the number of brackets that are open where it starts, and without its indentation. Lines
that close a block are not among them, and neither is a line of a comment, whatever it says.

`sections` finds the lines of one depth that start in some way, each with the deeper lines that
follow it: the classes of a text are its sections outside of all brackets, and the members of a
class are the sections one deeper. A line with deeper lines after it is one section
(`sections_cons`), and sections that stand one after the other are found one after the other
(`sections_flatMap`).
-/

namespace AbiBindings.TypeScript

open LexState Layout

/-- A line of code: the number of open brackets where it starts, and its text without
indentation. -/
structure CodeLine where
  depth : Nat
  text : List Char
deriving Repr, DecidableEq

/-- The same line under one more bracket. -/
def CodeLine.deeper (line : CodeLine) : CodeLine := ⟨line.depth + 1, line.text⟩

/-- The line, if it is one of code. -/
def lookAtCode (state : LexState) (line : List Char) : List CodeLine :=
  if state.mode = .code ∧ startsWord (skipBlanks line) = true then
    [⟨state.due.length, skipBlanks line⟩] else []

/-- The lines of code of a text. -/
def codeLines (text : String) : List CodeLine :=
  readFrom lookAtCode ⟨.code, []⟩ (Text.pieces (· = '\n') text.toList)

/-- The lines at the depth that start with the text, each with what comes after the text and with
the deeper lines that follow. -/
def sections (start : String) (depth : Nat) : List CodeLine → List (List Char × List CodeLine)
  | [] => []
  | line :: lines =>
    (if line.depth = depth then List.isPrefixOf? start.toList line.text else none).toList.map
        (·, lines.takeWhile (depth < ·.depth)) ++
      sections start depth lines

/-- The classes of a text, each with its name and the lines of code in it. -/
def classes (text : String) : List (String × List CodeLine) :=
  (sections "export class " 0 (codeLines text)).map
    (.map (String.ofList <| ·.takeWhile isIdentifierChar) id)

example : classes ("export class A \x7b\n  f() \x7b\n    /*\nexport class B \x7b */\n    h();\n" ++
      "  \x7d\n\x7d\nk();\n") =
    [("A", [⟨1, "f() \x7b".toList⟩, ⟨2, "h();".toList⟩])] := by decide

/-! ### Lines of nodes -/

theorem skipBlanks_indented (depth : Nat) (cs : List Char) :
    skipBlanks (("".pushn ' ' (2 * depth)).toList ++ cs) = skipBlanks cs :=
  List.dropWhile_append_of_pos fun _ hc ↦ decide_eq_true (mem_indentation hc)

theorem skipBlanks_word {cs : List Char} (h : startsWord cs = true) : skipBlanks cs = cs := by
  cases cs with
  | nil => rfl
  | cons c cs =>
    refine skipBlanks_of_ne ?_ cs
    rintro rfl
    cases h

/-- A line that starts with a word is seen at the depth of the brackets that are open. -/
theorem lookAtCode_word {cs : List Char} (h : startsWord cs = true) (due : List Char)
    (depth : Nat) :
    lookAtCode ⟨.code, due⟩ (("".pushn ' ' (2 * depth)).toList ++ cs) = [⟨due.length, cs⟩] := by
  rw [lookAtCode, skipBlanks_indented, skipBlanks_word h]
  exact if_pos ⟨rfl, h⟩

/-- Inside one more bracket the same lines are seen, one level deeper. -/
theorem lookAtCode_above (state : LexState) (line : List Char) :
    lookAtCode (state.above ['\x7d']) line =
      (lookAtCode state line).filterMap (some ∘ CodeLine.deeper) := by
  rw [lookAtCode, lookAtCode, above]
  by_cases h : state.mode = .code ∧ startsWord (skipBlanks line) = true
  · rw [if_pos h, if_pos h, List.filterMap_eq_map, List.map_singleton, CodeLine.deeper,
      List.length_append]
    rfl
  · rw [if_neg h, if_neg h]
    rfl

/-- A line that does not start with a word is not seen. -/
theorem lookAtCode_eq_nil {line : List Char} (h : startsWord (skipBlanks line) = false)
    (state : LexState) : lookAtCode state line = [] :=
  if_neg fun hcode ↦ absurd hcode.2 (by rw [h]; decide)

theorem lookAtCode_blockComment (due line : List Char) :
    lookAtCode ⟨.blockComment, due⟩ line = [] :=
  if_neg fun hcode ↦ by cases hcode.1

/-- A mark that no word starts with, after indentation. -/
theorem lookAtCode_mark {c : Char} (hblank : c ≠ ' ') (hc : isIdentifierChar c = false)
    (state : LexState) (depth : Nat) (cs : List Char) :
    lookAtCode state (("".pushn ' ' (2 * depth)).toList ++ c :: cs) = [] := by
  refine lookAtCode_eq_nil ?_ state
  rw [skipBlanks_indented, skipBlanks_of_ne hblank]
  exact hc

/-- The lines of code of a rendered text are those of its nodes. -/
theorem codeLines_render {nodes : List Node} (h : ∀ node ∈ nodes, node.Closed) :
    codeLines (render nodes) = nodes.flatMap (readNode lookAtCode 0) :=
  readFrom_render (lookAtCode_eq_nil rfl) h

theorem codeLines_line {text : String} (h : OneLine text) (hword : startsWord text.toList = true)
    (depth : Nat) : readNode lookAtCode depth (.line text) = [⟨0, text.toList⟩] := by
  rw [readNode_line h, lookAtCode_word hword]
  rfl

/-- Nothing is seen of a comment. -/
theorem codeLines_doc (depth : Nat) (lines : List String) :
    readNode lookAtCode depth (.doc lines) = [] :=
  readNode_doc lookAtCode_blockComment (lookAtCode_mark (by decide) rfl _ depth) lines

/-- A block with something inside is its opening line, followed by what is inside. -/
theorem codeLines_block {opening : String} {body : List Node}
    (hblock : (Node.block opening body "\x7d").Closed) (hopen : OneLine opening)
    (hword : startsWord opening.toList = true) {depth : Nat}
    (hbody : tidy (nodesLines (depth + 1) body) ≠ []) :
    readNode lookAtCode depth (.block opening body "\x7d") =
      ⟨0, opening.toList⟩ ::
        (body.flatMap (readNode lookAtCode (depth + 1))).map CodeLine.deeper := by
  have hclosing :
      lookAtCode ⟨.code, ['\x7d']⟩ (("".pushn ' ' (2 * depth)).toList ++ "\x7d".toList) = [] :=
    lookAtCode_mark (by decide) rfl _ depth []
  rw [readNode_block lookAtCode_above depth hblock hopen (by decide) hbody,
    lookAtCode_word hword, hclosing, List.filterMap_eq_map, List.append_nil]
  rfl

/-! ### Sections -/

section Sections

variable {start : String} {depth : Nat}

/-- What is below a section ends where a line of its depth follows. -/
theorem takeWhile_append_of_head {lines more : List CodeLine}
    (h : ∀ line ∈ more.head?, line.depth ≤ depth) :
    (lines ++ more).takeWhile (depth < ·.depth) = lines.takeWhile (depth < ·.depth) := by
  induction lines with
  | nil =>
    cases more with
    | nil => rfl
    | cons line more => exact List.takeWhile_cons_of_neg (by simpa using h line rfl)
  | cons line lines ih => rw [List.cons_append, List.takeWhile_cons, List.takeWhile_cons, ih]

/-- Sections are found in each of two parts if the second does not begin inside a section. -/
theorem sections_append {lines more : List CodeLine} (h : ∀ line ∈ more.head?, line.depth ≤ depth) :
    sections start depth (lines ++ more) = sections start depth lines ++
      sections start depth more := by
  induction lines with
  | nil => rfl
  | cons line lines ih =>
    rw [List.cons_append, sections, sections, takeWhile_append_of_head h, ih, List.append_assoc]

/-- Lines that are deeper start no section. -/
theorem sections_of_deeper {lines : List CodeLine} (h : ∀ line ∈ lines, depth < line.depth) :
    sections start depth lines = [] := by
  induction lines with
  | nil => rfl
  | cons line lines ih =>
    obtain ⟨hline, hlines⟩ := List.forall_mem_cons.1 h
    rw [sections, if_neg (Nat.ne_of_gt hline), ih hlines]
    rfl

/-- A line that starts with the text, and deeper lines after it. -/
theorem sections_cons (rest : List Char) {lines : List CodeLine}
    (h : ∀ line ∈ lines, depth < line.depth) :
    sections start depth (⟨depth, start.toList ++ rest⟩ :: lines) = [(rest, lines)] := by
  have hbelow : lines.takeWhile (depth < ·.depth) = lines :=
    List.takeWhile_eq_self_iff.2 fun line hline ↦ decide_eq_true (h line hline)
  rw [sections, if_pos rfl, List.isPrefixOf?_eq_some_iff_append_eq.2 rfl,
    sections_of_deeper h, hbelow]
  rfl

/-- Sections are found item by item, if what is below each is deeper. -/
theorem sections_flatMap {σ : Type} {rest : σ → List Char} {below : σ → List CodeLine}
    {items : List σ} (h : ∀ item ∈ items, ∀ line ∈ below item, depth < line.depth) :
    sections start depth (items.flatMap fun item ↦
      ⟨depth, start.toList ++ rest item⟩ :: below item) =
      items.map fun item ↦ (rest item, below item) := by
  induction items with
  | nil => rfl
  | cons item items ih =>
    obtain ⟨hitem, hitems⟩ := List.forall_mem_cons.1 h
    rw [List.flatMap_cons, sections_append, sections_cons _ hitem, ih hitems, List.map_cons,
      List.singleton_append]
    cases items with
    | nil => exact fun line hline ↦ by cases hline
    | cons next items =>
      intro line hline
      cases hline
      exact Nat.le_refl depth

end Sections

end AbiBindings.TypeScript
