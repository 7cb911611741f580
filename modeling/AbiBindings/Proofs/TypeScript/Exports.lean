import AbiBindings.Proofs.TypeScript.Statements

/-!
# Exports of a text

What a text exports is read off it with the lexer: a line that starts in code and outside of all
brackets, and starts with `export`, exports the name after its keyword. A line of a comment exports
nothing, whatever it says, and neither does a line of a block.

So a text exports what the first lines of its statements do (`exports_eq`). A line that starts with
a keyword and a name is one such statement (`exports_statement`), and so is a block
(`exports_statement_block`).
-/

namespace AbiBindings.TypeScript

open LexState Layout

/-! ### Reading exports -/

/-- An exported statement: the keyword it starts with, and the name it declares. -/
structure Export where
  keyword : String
  name : String
deriving Repr, DecidableEq

/-- What a line exports, if a statement starts with it. -/
def exportOf? (line : List Char) : Option Export :=
  (List.isPrefixOf? "export ".toList line).map fun rest ↦
    ⟨String.ofList (rest.takeWhile isIdentifierChar),
      String.ofList (((rest.dropWhile isIdentifierChar).drop 1).takeWhile isIdentifierChar)⟩

/-- What lines export, from a state of the lexer on. -/
def exportsFrom (state : LexState) : List (List Char) → List Export
  | [] => []
  | line :: lines =>
    (if state = ⟨.code, []⟩ then exportOf? line else none).toList ++
      (state.scan (line ++ ['\n'])).elim [] (exportsFrom · lines)

/-- What a text exports. -/
def exports (text : String) : List Export :=
  exportsFrom ⟨.code, []⟩ (Text.pieces (· = '\n') text.toList)

example : exports ("export type A =\n  | 'x';\n/*\nexport type B\n*/\nexport const C = " ++
      "\x7b\nexport type D\n\x7d;\n") =
    [⟨"type", "A"⟩, ⟨"const", "C"⟩] := by decide

/-! ### First lines of statements -/

theorem exportOf?_eq_none {line : List Char} (h : startsWord line = false) :
    exportOf? line = none := by
  cases line with
  | nil => rfl
  | cons c cs =>
    have hc : ¬ ('e' == c) = true := by
      intro heq
      rw [← eq_of_beq heq] at h
      cases h
    rw [exportOf?, Option.map_eq_none_iff]
    exact if_neg hc

/-- Only the first lines of statements export something. -/
theorem exportsFrom_eq (state : LexState) (lines : List (List Char)) :
    exportsFrom state lines = (statementsFrom state lines).filterMap exportOf? := by
  induction lines generalizing state with
  | nil => rfl
  | cons line lines ih =>
    have hrest : (state.scan (line ++ ['\n'])).elim [] (exportsFrom · lines) =
        ((state.scan (line ++ ['\n'])).elim [] (statementsFrom · lines)).filterMap exportOf? := by
      cases state.scan (line ++ ['\n']) with
      | none => rfl
      | some next => exact ih next
    rw [exportsFrom, statementsFrom, List.filterMap_append, hrest]
    congr 1
    split
    · cases hword : startsWord line with
      | false => rw [exportOf?_eq_none hword, List.filter_cons_of_neg (by simp [hword])]; rfl
      | true =>
        rw [List.filter_cons_of_pos hword, List.filter_nil]
        cases hexport : exportOf? line <;> simp [hexport]
    · rfl

/-- What a text exports is read off the first lines of its statements. -/
theorem exports_eq (text : String) : exports text = (statements text).filterMap exportOf? :=
  exportsFrom_eq _ _

/-- If all lines are exports, none is passed over. -/
theorem filterMap_exportOf? {lines : List (List Char)} {exported : List Export}
    (h : lines.map exportOf? = exported.map some) : lines.filterMap exportOf? = exported := by
  have hid : (lines.map exportOf?).filterMap id = (exported.map some).filterMap id := by rw [h]
  rwa [List.filterMap_map, List.filterMap_map, Function.id_comp, Function.id_comp,
    List.filterMap_some] at hid

/-! ### Statements -/

/-- The text is how an exported statement with the keyword starts. -/
structure StartsWith (start keyword : String) : Prop where
  eq : start = "export " ++ keyword ++ " "
  isName : IsName keyword

theorem startsWith_interface : StartsWith "export interface " "interface" := ⟨rfl, by decide⟩

theorem startsWith_type : StartsWith "export type " "type" := ⟨rfl, by decide⟩

theorem startsWith_const : StartsWith "export const " "const" := ⟨rfl, by decide⟩

theorem startsWith_class : StartsWith "export class " "class" := ⟨rfl, by decide⟩

section Statements

variable {start keyword : String} (hstart : StartsWith start keyword) {name : String}
    (hname : IsName name)
  {tail : String}
include hstart hname

/-- A statement exports its name, whatever comes after a blank. -/
theorem exportOf?_statement (htail : tail.toList.head? = some ' ') (rest : List Char) :
    exportOf? ((start ++ name ++ tail).toList ++ rest) = some ⟨keyword, name⟩ := by
  have hblank : ¬ isIdentifierChar ' ' = true := by decide
  have htake {word : String} (hword : IsName word) (more : List Char) :
      (word.toList ++ ' ' :: more).takeWhile isIdentifierChar = word.toList := by
    rw [List.takeWhile_append_of_pos hword, List.takeWhile_cons_of_neg hblank, List.append_nil]
  have hdrop (more : List Char) :
      (keyword.toList ++ ' ' :: more).dropWhile isIdentifierChar = ' ' :: more := by
    rw [List.dropWhile_append_of_pos hstart.isName, List.dropWhile_cons_of_neg hblank]
  have hexport (more : List Char) :
      List.isPrefixOf? "export ".toList ("export ".toList ++ more) = some more := rfl
  obtain ⟨after, hafter⟩ : ∃ after, tail.toList = ' ' :: after := List.head?_eq_some_iff.1 htail
  have htext : (start ++ name ++ tail).toList ++ rest =
      "export ".toList ++ (keyword.toList ++ ' ' :: (name.toList ++ ' ' :: (after ++ rest))) := by
    simp only [hstart.eq, String.toList_append, hafter, List.append_assoc, List.cons_append]
    rfl
  rw [exportOf?, htext, hexport, Option.map_some, htake hstart.isName, hdrop, List.drop_one,
    List.tail_cons, htake hname, String.ofList_toList, String.ofList_toList]

theorem oneLine_statement (htail : OneLine tail) : OneLine (start ++ name ++ tail) := by
  simp only [hstart.eq, oneLine_append_iff, hstart.isName.oneLine, hname.oneLine, htail, and_true]
  decide

omit hname in
/-- A line that starts with an export starts a statement. -/
theorem startsWord_statement : startsWord (start ++ name ++ tail).toList = true := by
  rw [hstart.eq]
  simp only [String.toList_append, List.append_assoc]
  rfl

variable (htail : OneLine tail) (hblank : tail.toList.head? = some ' ')
include htail hblank

/-- A statement on one line is one export, with the keyword and the name that it starts with. -/
theorem exports_statement :
    (Node.line (start ++ name ++ tail)).statements.map exportOf? = [some ⟨keyword, name⟩] := by
  have hexport := exportOf?_statement hstart hname hblank []
  rw [List.append_nil] at hexport
  rw [statements_line (oneLine_statement hstart hname htail),
    List.filter_cons_of_pos (startsWord_statement hstart), List.filter_nil,
    List.map_singleton, hexport]

/-- So is a statement with a block. Nothing inside the block counts. -/
theorem exports_statement_block {body : List Node} {closing : String}
    (h : (Node.block (start ++ name ++ tail) body closing).Closed) (hclosing : OneLine closing) :
    (Node.block (start ++ name ++ tail) body closing).statements.map exportOf? =
      [some ⟨keyword, name⟩] := by
  obtain ⟨rest, hrest⟩ := statements_block h (oneLine_statement hstart hname htail)
    (startsWord_statement hstart) hclosing
  rw [hrest, List.map_singleton, exportOf?_statement hstart hname hblank]

end Statements

/-! ### Type expressions -/

namespace TypeExpr

mutual

/-- The names in a type expression. -/
def names : TypeExpr → List String
  | name n => [n]
  | array items => items.names
  | dictionary key value => key.names ++ value.names
  | object members => memberNames members

/-- The names in the types of properties. -/
def memberNames : List (Member TypeExpr) → List String
  | [] => []
  | ⟨_, type, _⟩ :: members => type.names ++ memberNames members

end

/-- The names in an object type are those in the types of its members. -/
theorem mem_memberNames_iff {members : List (Member TypeExpr)} {name : String} :
    name ∈ memberNames members ↔ ∃ member ∈ members, name ∈ member.type.names := by
  induction members with
  | nil => simp [memberNames]
  | cons member members ih =>
    obtain ⟨key, type, nullable⟩ := member
    rw [memberNames, List.mem_append, ih, List.exists_mem_cons_iff]

theorem oneLine_orNull {type : String} (h : OneLine type) (nullable : Bool) :
    OneLine (orNull type nullable) := by
  cases nullable with
  | false => exact h
  | true => exact oneLine_append_iff.2 ⟨h, by decide⟩

mutual

/-- A type is written on one line, whatever the names of its fields are: these are escaped. -/
theorem oneLine_text {type : TypeExpr} (h : ∀ name ∈ type.names, IsName name) :
    OneLine type.text := by
  cases type with
  | name n =>
    rw [text]
    rw [names] at h
    exact (h n List.mem_cons_self).oneLine
  | array items =>
    rw [text, oneLine_append_iff]
    rw [names] at h
    exact ⟨oneLine_text h, by decide⟩
  | dictionary key value =>
    rw [names, List.forall_mem_append] at h
    have hkey := oneLine_text h.1
    have hvalue := oneLine_text h.2
    rw [text]
    simp only [oneLine_append_iff, hkey, hvalue, and_true]
    decide
  | object members =>
    rw [names] at h
    have hseparator : OneLine "; " := by decide
    have hmembers := oneLine_intercalate hseparator (oneLine_memberTexts h)
    cases members with
    | nil =>
      rw [text]
      decide
    | cons member members =>
      rw [text, oneLine_append_iff, oneLine_append_iff]
      exact ⟨⟨by decide, hmembers⟩, by decide⟩

theorem oneLine_memberTexts {members : List (Member TypeExpr)}
    (h : ∀ name ∈ memberNames members, IsName name) :
    ∀ text ∈ memberTexts members, OneLine text := by
  match members with
  | [] =>
    rw [memberTexts]
    exact List.forall_mem_nil _
  | ⟨key, type, nullable⟩ :: members =>
    rw [memberNames, List.forall_mem_append] at h
    rw [memberTexts, List.forall_mem_cons]
    refine ⟨?_, oneLine_memberTexts h.2⟩
    rw [oneLine_append_iff, oneLine_append_iff]
    exact ⟨⟨oneLine_propertyKey key, by decide⟩, oneLine_orNull (oneLine_text h.1) nullable⟩

end

end TypeExpr

end AbiBindings.TypeScript
