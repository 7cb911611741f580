import AbiBindings.Text.Blank
import AbiBindings.Text.Pieces

/-!
# Layout of source text

Source text is put together from nodes. A list of nodes gives a list of lines, each with its depth,
and the lines give the text. Blank lines are tidied in each block and in the whole: none comes first
or last, and none follows another. A block without a line in it stands on one line.
-/

namespace AbiBindings.TypeScript

/-- A part of source text. -/
inductive Node where
  | line (text : String)
  | blank
  /-- A documentation comment of the given lines. -/
  | doc (lines : List String)
  /-- Lines between an opening and a closing line, one step deeper than these. -/
  | block (opening : String) (body : List Node) (closing : String)
  /-- Text of several lines. -/
  | snippet (text : String)
deriving Repr

namespace Layout

/-- A line of source text. -/
inductive Line where
  | blank
  | text (depth : Nat) (content : String)
deriving Repr, DecidableEq

/-- Drops blank lines at the start and the end and keeps one of several in a row. `started` says
that a line with text came before, and `pending` that a blank line came after it. -/
def tidyFrom (started pending : Bool) : List Line → List Line
  | [] => []
  | .blank :: lines => tidyFrom started true lines
  | .text depth content :: lines =>
    (if started && pending then [.blank] else []) ++
      .text depth content :: tidyFrom true false lines

/-- Blank lines only between lines with text, one at a time. -/
def tidy (lines : List Line) : List Line := tidyFrom false false lines

/-! ### Lines of nodes -/

/-- A line of a comment in which nothing ends the comment. -/
def commentText (text : String) : String :=
  String.ofList (Text.replacePair '*' '/' ['*', '\\', '/'] text.toList)

/-- A line inside a comment of several lines. -/
def commentLine (text : String) : String :=
  if text = "" then " *" else " * " ++ commentText text

/-- The lines of a comment. -/
def docLines (depth : Nat) : List String → List Line
  | [] => []
  | [line] => [.text depth ("/** " ++ commentText line ++ " */")]
  | lines =>
    .text depth "/**" :: lines.map (.text depth <| commentLine ·) ++ [.text depth " */"]

/-- The lines of a text of several lines. -/
def snippetLines (depth : Nat) (text : String) : List Line :=
  (Text.lines (Text.trim (· = '\n') text.toList)).map fun line ↦
    if line.all Text.isBlank then .blank else .text depth (String.ofList line)

/-- The lines of a block with the given lines inside. -/
def blockLines (depth : Nat) (opening closing : String) (body : List Line) : List Line :=
  match tidy body with
  | [] => [.text depth (opening ++ closing)]
  | lines => .text depth opening :: lines ++ [.text depth closing]

mutual

/-- The lines of a node. -/
def nodeLines (depth : Nat) : Node → List Line
  | .line text => [.text depth text]
  | .blank => [.blank]
  | .doc lines => docLines depth lines
  | .block opening body closing => blockLines depth opening closing (nodesLines (depth + 1) body)
  | .snippet text => snippetLines depth text

/-- The lines of nodes, one after the other. -/
def nodesLines (depth : Nat) : List Node → List Line
  | [] => []
  | node :: nodes => nodeLines depth node ++ nodesLines depth nodes

end

/-! ### Text -/

/-- The text of a line, with its indentation and its end. -/
def Line.render : Line → String
  | .blank => "\n"
  | .text depth content => "".pushn ' ' (2 * depth) ++ content ++ "\n"

/-- The text of nodes. -/
def render (nodes : List Node) : String :=
  String.join ((tidy (nodesLines 0 nodes)).map Line.render)

/-- The first line of all generated text. -/
def banner : String := "/** @generated by abi-codegen - DO NOT EDIT. */"

/-- The nodes that generated text starts with. -/
def generated : List Node := [.line banner, .blank]

end Layout

end AbiBindings.TypeScript
