import AbiBindings.Proofs.Client.TypeReading
import AbiBindings.Proofs.TypeScript.CodeLines

/-!
# Members of a client class

The asynchronous members of a class are read off the lines of code in it: a member starts with a
line one bracket deep, and the deeper lines after it are its statements. A statement that asks for a
method to be executed names the method in a string, which is read back (`executedBy?`).

Of the texts in a wrapper, only those in strings and comments are as they come, and neither reaches
the start of a line of code. So each wrapper is seen as one member, which asks for one method
(`asyncMembers_classNode`). The names of the members are allocated one after the other, so they are
told apart.
-/

namespace AbiBindings.Client

open TypeScript NameSet

/-! ### Reading members -/

/-- How a statement starts that asks for a method to be executed, up to the name of the method. -/
def executeStart : String := "const response = await this.app.execute(this.context, "

/-- The name of the method that a statement asks to be executed. -/
def executedBy? (line : List Char) : Option String := do
  let rest ← List.isPrefixOf? executeStart.toList line
  let quote ← rest.head?
  if LexState.isQuote quote then
    (readString quote rest.tail).map fun found ↦ String.ofList found.1 else none

/-- The names of the methods that lines of code ask to be executed. -/
def executedIn (lines : List CodeLine) : List String := lines.filterMap (executedBy? ·.text)

/-- An asynchronous member of a class, with the names of the methods that it asks to be executed. -/
structure AsyncMember where
  name : String
  executes : List String
deriving Repr, DecidableEq

/-- The asynchronous members among the lines of code in a class. -/
def asyncMembers (lines : List CodeLine) : List AsyncMember :=
  (sections "public async " 1 lines).map fun found ↦
    ⟨String.ofList (found.1.takeWhile isIdentifierChar), executedIn found.2⟩

theorem executedIn_cons (line : CodeLine) (lines : List CodeLine) :
    executedIn (line :: lines) = (executedBy? line.text).toList ++ executedIn lines := by
  rw [executedIn, List.filterMap_cons]
  cases executedBy? line.text <;> rfl

theorem executedIn_append (lines more : List CodeLine) :
    executedIn (lines ++ more) = executedIn lines ++ executedIn more :=
  List.filterMap_append

/-- What is executed does not depend on the depth. -/
theorem executedIn_deeper (lines : List CodeLine) :
    executedIn (lines.map CodeLine.deeper) = executedIn lines :=
  List.filterMap_map

/-! ### Statements that execute nothing -/

/-- The node asks for no method to be executed. -/
def Quiet (node : Node) : Prop := ∀ depth, executedIn (readNode lookAtCode depth node) = []

theorem quiet_nodes {nodes : List Node} (h : ∀ node ∈ nodes, Quiet node) (depth : Nat) :
    executedIn (nodes.flatMap (readNode lookAtCode depth)) = [] := by
  rw [executedIn, List.filterMap_flatMap, List.flatMap_eq_nil_iff]
  exact fun node hnode ↦ h node hnode depth

/-- A line of code that does not start as one that asks for a method. -/
def Idle (line : List Char) : Prop := startsWord line = true ∧ executedBy? line = none

/-- A line that executes nothing is quiet. -/
theorem quiet_line {text : String} (h : OneLine text) (hidle : Idle text.toList) :
    Quiet (.line text) := by
  intro depth
  rw [codeLines_line h hidle.1, executedIn_cons, hidle.2]
  rfl

/-- So is a block of quiet nodes with an opening line that executes nothing. -/
theorem quiet_block {opening text : String} {body : List Node}
    (hblock : (Node.block opening body "\x7d").Closed) (h : OneLine opening)
    (hidle : Idle opening.toList) (hline : .line text ∈ body) (hbody : ∀ node ∈ body, Quiet node) :
    Quiet (.block opening body "\x7d") := by
  intro depth
  rw [codeLines_block hblock h hidle.1 (tidy_ne_nil_of_mem_line hline), executedIn_cons, hidle.2,
    executedIn_deeper, quiet_nodes hbody]
  rfl

/-! ### Lines of a wrapper -/

mutual

theorem ResultShape.oneLine_text (shape : ResultShape) : OneLine shape.text := by
  cases shape with
  | bytes =>
    show OneLine "'bytes'"
    decide
  | list items =>
    have hitems := items.oneLine_text
    show OneLine ("\x7b list: " ++ items.text ++ " \x7d")
    simp only [oneLine_append_iff, hitems, and_true]
    decide
  | map values =>
    have hvalues := values.oneLine_text
    show OneLine ("\x7b map: " ++ values.text ++ " \x7d")
    simp only [oneLine_append_iff, hvalues, and_true]
    decide
  | record members =>
    have hseparator : OneLine ", " := by decide
    have hmembers := oneLine_intercalate hseparator (oneLine_shapeMemberTexts members)
    show OneLine ("\x7b record: \x7b " ++ ", ".intercalate (ResultShape.memberTexts members) ++
      " \x7d \x7d")
    simp only [oneLine_append_iff, hmembers, and_true]
    decide
  | variant members =>
    have hseparator : OneLine ", " := by decide
    have hmembers := oneLine_intercalate hseparator (oneLine_shapeMemberTexts members)
    show OneLine ("\x7b variant: \x7b " ++ ", ".intercalate (ResultShape.memberTexts members) ++
      " \x7d \x7d")
    simp only [oneLine_append_iff, hmembers, and_true]
    decide

theorem oneLine_shapeMemberTexts (members : List (String × ResultShape)) :
    ∀ text ∈ ResultShape.memberTexts members, OneLine text := by
  cases members with
  | nil =>
    rw [ResultShape.memberTexts]
    exact List.forall_mem_nil _
  | cons member members =>
    obtain ⟨name, shape⟩ := member
    rw [ResultShape.memberTexts, List.forall_mem_cons]
    simp only [oneLine_append_iff]
    exact ⟨⟨⟨oneLine_propertyKey name, by decide⟩, shape.oneLine_text⟩,
      oneLine_shapeMemberTexts members⟩

end

namespace Wrapper

/-- The names and types of the wrapper are without line ends. -/
structure SingleLine (wrapper : Wrapper) : Prop where
  name : IsName wrapper.name
  params : ∀ name ∈ TypeExpr.memberNames wrapper.params, IsName name
  result : ∀ result, wrapper.result = some result → OneLine result.type.text
  errorType : ∀ type, wrapper.errorType = some type → OneLine type

/-- The statements of the member. -/
def bodyNodes (wrapper : Wrapper) : List Node :=
  wrapper.argumentNodes ++ [.line wrapper.callLine] ++
    [.block "if (response.success) \x7b" [.line wrapper.returnLine] "\x7d"] ++ wrapper.throwNodes ++
    [.line "throw new Error(response.error || 'Execution failed');"]

theorem nodes_eq (wrapper : Wrapper) :
    wrapper.nodes = [.doc wrapper.docLines, .block wrapper.signature wrapper.bodyNodes "\x7d"] :=
    rfl

theorem quiet_variantNode (param : String) : Quiet (variantNode param) := by
  have hclosed := closed_variantNode param
  have hvalue : OneLine ("args" ++ propertyAccess param) :=
    oneLine_append_iff.2 ⟨by decide, oneLine_propertyAccess param⟩
  unfold variantNode at hclosed ⊢
  refine quiet_block hclosed ?_ ?_ List.mem_cons_self
    (List.forall_mem_singleton.2 (quiet_line ?_ ?_))
  · simp only [oneLine_append_iff, hvalue, and_true]
    decide
  · simp only [String.toList_append, List.append_assoc]
    exact ⟨rfl, rfl⟩
  · simp only [oneLine_append_iff, hvalue, and_true]
    decide
  · simp only [String.toList_append, List.append_assoc]
    exact ⟨rfl, rfl⟩

/-- The statements before the call execute nothing. -/
theorem quiet_argumentNodes (wrapper : Wrapper) : ∀ node ∈ wrapper.argumentNodes, Quiet node := by
  rw [argumentNodes]
  split
  · exact List.forall_mem_nil _
  · refine List.forall_mem_cons.2 ⟨quiet_line (by decide) ⟨rfl, rfl⟩, fun node hnode ↦ ?_⟩
    obtain ⟨param, -, rfl⟩ := List.mem_map.1 hnode
    exact quiet_variantNode param

/-- The call names the method in a string that is read back. -/
theorem executedBy?_callLine (wrapper : Wrapper) :
    executedBy? wrapper.callLine.toList = some wrapper.method := by
  have hline : wrapper.callLine.toList = executeStart.toList ++
      (literal '\'' wrapper.method.toList ++ (", " ++ wrapper.arguments ++ ");").toList) := by
    unfold callLine
    simp only [executeStart, stringLiteral, String.toList_append, String.toList_ofList,
      List.append_assoc]
  obtain ⟨inner, htext, hread⟩ :=
    readString_quoted '\'' rfl wrapper.method (", " ++ wrapper.arguments ++ ");").toList
  rw [hline, htext, executedBy?, List.isPrefixOf?_eq_some_iff_append_eq.2 rfl]
  simp only [Option.bind_eq_bind, Option.bind_some, List.head?_cons, List.tail_cons]
  rw [if_pos (by decide), hread, Option.map_some, String.ofList_toList]

theorem oneLine_arguments (wrapper : Wrapper) : OneLine wrapper.arguments := by
  unfold arguments
  split_ifs <;> decide

/-- The name of a method is escaped, so that the call is one line. -/
theorem oneLine_callLine (wrapper : Wrapper) : OneLine wrapper.callLine := by
  have hmethod := oneLine_stringLiteral wrapper.method
  have harguments := wrapper.oneLine_arguments
  unfold callLine
  simp only [oneLine_append_iff, hmethod, harguments, and_true]
  decide

namespace SingleLine

variable {wrapper : Wrapper} (h : wrapper.SingleLine)
include h

theorem oneLine_resultType : OneLine wrapper.resultType := by
  rw [resultType]
  split
  · rename_i result hresult
    exact TypeExpr.oneLine_orNull (h.result result hresult) result.nullable
  · decide

theorem oneLine_signature : OneLine wrapper.signature := by
  have hseparator : OneLine "; " := by decide
  have hmembers := oneLine_intercalate hseparator (TypeExpr.oneLine_memberTexts h.params)
  have hparams : OneLine (if wrapper.params.isEmpty then "" else
      "params: \x7b " ++ "; ".intercalate (TypeExpr.memberTexts wrapper.params) ++ " \x7d") := by
    split
    · decide
    · simp only [oneLine_append_iff, hmembers, and_true]
      decide
  unfold signature
  simp only [oneLine_append_iff, hparams, h.name.oneLine, h.oneLine_resultType, and_true]
  decide

/-- The line that returns the result executes nothing. -/
theorem quiet_returnLine : Quiet (.line wrapper.returnLine) := by
  have htype := h.oneLine_resultType
  unfold returnLine
  split
  · exact quiet_line (by decide) ⟨rfl, rfl⟩
  · split
    · rename_i shape _
      have hshape := shape.oneLine_text
      refine quiet_line ?_ ?_
      · simp only [oneLine_append_iff, htype, hshape, and_true]
        decide
      · simp only [String.toList_append, List.append_assoc]
        exact ⟨rfl, rfl⟩
    · refine quiet_line ?_ ?_
      · simp only [oneLine_append_iff, htype, and_true]
        decide
      · simp only [String.toList_append, List.append_assoc]
        exact ⟨rfl, rfl⟩

/-- The statements that throw errors execute nothing. -/
theorem quiet_throwNodes (hneutral : wrapper.Neutral) :
    ∀ node ∈ wrapper.throwNodes, Quiet node := by
  have hclosed := hneutral.closed_throwNodes
  rw [throwNodes] at hclosed ⊢
  split at hclosed
  · rename_i type htype
    have hline : Quiet (.line ("throw response.error as " ++ type ++ ";")) := by
      refine quiet_line ?_ ?_
      · simp only [oneLine_append_iff, h.errorType type htype, and_true]
        decide
      · simp only [String.toList_append, List.append_assoc]
        exact ⟨rfl, rfl⟩
    exact List.forall_mem_singleton.2
      (quiet_block (List.forall_mem_singleton.1 hclosed) (by decide) ⟨rfl, rfl⟩
      List.mem_cons_self (List.forall_mem_singleton.2 hline))
  · exact List.forall_mem_nil _

/-- The statements of a wrapper ask for its method to be executed, and for nothing else. -/
theorem executedIn_bodyNodes (hneutral : wrapper.Neutral) (depth : Nat) :
    executedIn (wrapper.bodyNodes.flatMap (readNode lookAtCode depth)) = [wrapper.method] := by
  have hreturn : Quiet (.block "if (response.success) \x7b" [.line wrapper.returnLine] "\x7d") :=
    quiet_block (.block (.fixed rfl)
      (List.forall_mem_singleton.2 (.line hneutral.neutral_returnLine)) (.fixed rfl))
      (by decide) ⟨rfl, rfl⟩ List.mem_cons_self (List.forall_mem_singleton.2 h.quiet_returnLine)
  have hthrow : Quiet (.line "throw new Error(response.error || 'Execution failed');") :=
    quiet_line (by decide) ⟨rfl, rfl⟩
  have hword : startsWord wrapper.callLine.toList = true := by
    unfold callLine
    simp only [String.toList_append, List.append_assoc]
    rfl
  have hcall : executedIn (readNode lookAtCode depth (.line wrapper.callLine)) =
      [wrapper.method] := by
    rw [codeLines_line wrapper.oneLine_callLine hword, executedIn_cons,
      wrapper.executedBy?_callLine]
    rfl
  simp only [bodyNodes, List.flatMap_append, List.flatMap_singleton, executedIn_append, hcall,
    hreturn depth,
    hthrow depth, quiet_nodes wrapper.quiet_argumentNodes,
    quiet_nodes (h.quiet_throwNodes hneutral)]
  rfl

/-- A wrapper is one line with its statements below. -/
theorem codeLines_nodes (hneutral : wrapper.Neutral) (depth : Nat) :
    wrapper.nodes.flatMap (readNode lookAtCode depth) = ⟨0, wrapper.signature.toList⟩ ::
      (wrapper.bodyNodes.flatMap (readNode lookAtCode (depth + 1))).map CodeLine.deeper := by
  have hblock : (Node.block wrapper.signature wrapper.bodyNodes "\x7d").Closed :=
    hneutral.closed_nodes _ (by rw [nodes_eq]; exact List.mem_cons_of_mem _ List.mem_cons_self)
  have hcall : .line wrapper.callLine ∈ wrapper.bodyNodes := by simp [bodyNodes]
  have hword : startsWord wrapper.signature.toList = true := by
    unfold signature
    simp only [String.toList_append, List.append_assoc]
    rfl
  rw [nodes_eq, List.flatMap_cons, List.flatMap_singleton, codeLines_doc, List.nil_append,
    codeLines_block hblock h.oneLine_signature hword (tidy_ne_nil_of_mem_line hcall)]

end SingleLine

/-- What comes after the name in the first line of the member starts with a bracket. -/
theorem exists_signature (wrapper : Wrapper) :
    ∃ rest, wrapper.signature.toList = "public async ".toList ++
      (wrapper.name.toList ++ '(' :: rest) := by
  unfold signature
  simp only [String.toList_append, List.append_assoc]
  exact ⟨_, rfl⟩

end Wrapper

/-! ### The class -/

/-- The lines of code of a class without wrappers, below its first line. -/
def fixedLines : List CodeLine :=
  [⟨1, "private app: CalimeroApp;".toList⟩, ⟨1, "private context: Context;".toList⟩,
    ⟨1, "constructor(app: CalimeroApp, context: Context) \x7b".toList⟩,
    ⟨2, "this.app = app;".toList⟩, ⟨2, "this.context = context;".toList⟩]

/-- The lines of code below the first line of a member, in its class. -/
def Wrapper.bodyLines (wrapper : Wrapper) : List CodeLine :=
  ((wrapper.bodyNodes.flatMap (readNode lookAtCode 2)).map CodeLine.deeper).map CodeLine.deeper

/-- The body of a member is deeper than its signature. -/
theorem Wrapper.lt_depth_bodyLines (wrapper : Wrapper) :
    ∀ line ∈ wrapper.bodyLines, 1 < line.depth := by
  intro line hline
  obtain ⟨inner, hinner, rfl⟩ := List.mem_map.1 hline
  obtain ⟨innermost, -, rfl⟩ := List.mem_map.1 hinner
  exact Nat.le_add_left 2 innermost.depth

/-- The lines of code of the wrappers, in their class. -/
def wrapperLines (all : List Wrapper) : List CodeLine :=
  all.flatMap fun wrapper ↦ ⟨1, wrapper.signature.toList⟩ :: wrapper.bodyLines

section Class

variable {all : List Wrapper} (hneutral : ∀ wrapper ∈ all, wrapper.Neutral)
  (hlines : ∀ wrapper ∈ all, wrapper.SingleLine)
include hneutral hlines

/-- The lines of code in the members, one level deeper, as they are in the class. -/
theorem codeLines_wrapperNodes :
    ((all.flatMap fun wrapper ↦ .blank :: wrapper.nodes).flatMap
      (readNode lookAtCode 1)).map CodeLine.deeper = wrapperLines all := by
  rw [List.flatMap_assoc, List.map_flatMap]
  refine List.flatMap_congr fun wrapper hwrapper ↦ ?_
  rw [List.flatMap_cons, readNode_blank, (hlines wrapper hwrapper).codeLines_nodes
    (hneutral wrapper hwrapper)]
  rfl

/-- A class is one line, with those that all classes have and those of the wrappers below. -/
theorem codeLines_classNode {config : Config} (hname : IsName config.clientName) :
    readNode lookAtCode 0 (classNode config all) =
      ⟨0, "export class ".toList ++ (config.clientName.toList ++ " \x7b".toList)⟩ ::
        (fixedLines ++ wrapperLines all) := by
  have hclosed := closed_classNode hname hneutral
  have hopen : OneLine ("export class " ++ config.clientName ++ " \x7b") := by
    simp only [oneLine_append_iff, hname.oneLine, and_true]
    decide
  have hopening : ("export class " ++ config.clientName ++ " \x7b").toList =
      "export class ".toList ++ (config.clientName.toList ++ " \x7b".toList) := by
    simp only [String.toList_append, List.append_assoc]
  have hword : startsWord ("export class " ++ config.clientName ++ " \x7b").toList = true := by
    rw [hopening]
    rfl
  unfold classNode at hclosed ⊢
  have hconstructor : (Node.block "constructor(app: CalimeroApp, context: Context) \x7b"
      [.line "this.app = app;", .line "this.context = context;"] "\x7d").Closed := by
    cases hclosed with
    | block _ hbody _ => exact hbody _ (by simp)
  have hinside :
      readNode lookAtCode 1 (.block "constructor(app: CalimeroApp, context: Context) \x7b"
      [.line "this.app = app;", .line "this.context = context;"] "\x7d") =
        [⟨0, "constructor(app: CalimeroApp, context: Context) \x7b".toList⟩,
          ⟨1, "this.app = app;".toList⟩, ⟨1, "this.context = context;".toList⟩] := by
    rw [codeLines_block hconstructor (by decide) rfl (tidy_ne_nil_of_mem_line List.mem_cons_self),
      List.flatMap_cons,
      List.flatMap_singleton, codeLines_line (by decide) rfl, codeLines_line (by decide) rfl]
    rfl
  rw [codeLines_block hclosed hopen hword
    (tidy_ne_nil_of_mem_line (List.mem_append_left _ List.mem_cons_self)),
    hopening, List.flatMap_append, List.map_append, codeLines_wrapperNodes hneutral hlines]
  rw [List.flatMap_cons, List.flatMap_cons, List.flatMap_cons, List.flatMap_singleton, hinside,
    codeLines_line (by decide) rfl, codeLines_line (by decide) rfl, readNode_blank]
  rfl

/-- The members found in the class are the wrappers, and each executes its own method. -/
theorem asyncMembers_classNode :
    asyncMembers (fixedLines ++ wrapperLines all) =
      all.map fun wrapper ↦ ⟨wrapper.name, [wrapper.method]⟩ := by
  choose rest hrest using Wrapper.exists_signature
  have hhead : ∀ line ∈ (wrapperLines all).head?, line.depth ≤ 1 := by
    intro line hline
    cases all with
    | nil => cases hline
    | cons wrapper all =>
      cases hline
      exact Nat.le_refl 1
  have hfixed : sections "public async " 1 fixedLines = [] := by decide
  have hsections : sections "public async " 1 (wrapperLines all) =
      all.map fun wrapper ↦ (wrapper.name.toList ++ '(' :: rest wrapper, wrapper.bodyLines) := by
    rw [wrapperLines]
    simp only [hrest]
    exact sections_flatMap fun wrapper _ ↦ wrapper.lt_depth_bodyLines
  rw [asyncMembers, sections_append hhead, hfixed, List.nil_append, hsections, List.map_map]
  refine List.map_congr_left fun wrapper hwrapper ↦ ?_
  have hexecuted := (hlines wrapper hwrapper).executedIn_bodyNodes (hneutral wrapper hwrapper) 2
  rw [Function.comp_apply, (span_word (hlines wrapper hwrapper).name rfl).1, String.ofList_toList,
    Wrapper.bodyLines, executedIn_deeper, executedIn_deeper, hexecuted]

end Class

/-- The class comes last in a client. -/
theorem classes_clientNodes {config : Config} (hname : IsName config.clientName)
    {declarations : List Node} (hdeclarations : ∀ node ∈ declarations, node.Closed)
    {all : List Wrapper} (hneutral : ∀ wrapper ∈ all, wrapper.Neutral)
    (hlines : ∀ wrapper ∈ all, wrapper.SingleLine) :
    ∃ before, classes (Layout.render (clientNodes config declarations all)) =
      before ++ [(config.clientName, fixedLines ++ wrapperLines all)] := by
  have hclosed := closed_clientNodes hname hdeclarations hneutral
  obtain ⟨others, hothers⟩ :
      ∃ others, clientNodes config declarations all = others ++ [classNode config all] :=
    ⟨_, (List.append_assoc _ [.blank, .snippet Runtime.bytesClass, .blank,
      .snippet Runtime.converters, .blank] [classNode config all]).symm⟩
  have hdeep : ∀ line ∈ fixedLines ++ wrapperLines all, 0 < line.depth := by
    refine List.forall_mem_append.2 ⟨by decide, fun line hline ↦ ?_⟩
    obtain ⟨wrapper, -, hline⟩ := List.mem_flatMap.1 hline
    obtain rfl | hline := List.mem_cons.1 hline
    · exact Nat.zero_lt_one
    · exact Nat.lt_of_succ_lt (wrapper.lt_depth_bodyLines line hline)
  rw [classes, codeLines_render hclosed, hothers, List.flatMap_append, List.flatMap_singleton,
    codeLines_classNode hneutral hlines hname, sections_append, sections_cons _ hdeep,
    List.map_append,
    List.map_singleton, Prod.map_apply, (span_word hname rfl).1, String.ofList_toList]
  · exact ⟨_, rfl⟩
  · intro line hline
    cases hline
    exact Nat.le_refl 0

/-! ### The wrappers of a manifest -/

/-- No text of a wrapper has a line end. -/
theorem singleLine_wrappers (manifest : Manifest) (reserved : List String)
    {errorNames : List (String × String)} (herrors : ∀ entry ∈ errorNames, IsName entry.2)
    {all : List Wrapper} (h : wrappers (.of manifest reserved) errorNames = .ok all) :
    ∀ wrapper ∈ all, wrapper.SingleLine := by
  have hnames {type : TypeRef} {expr : TypeExpr}
      (hexpr : (Scope.of manifest reserved).expr type = .ok expr) :
      ∀ name ∈ expr.names, IsName name :=
    fun name hname ↦ isName_of_isWord (isWord_names_expr manifest reserved hexpr name hname)
  refine forall_of_mapM_eq_ok h fun entry hentry wrapper hwrapper ↦ ?_
  have hmade := Wrapper.made_of hwrapper
  refine ⟨?_, ?_, fun result hresult ↦ ?_, fun type htype ↦ ?_⟩
  · rw [hmade.name_eq]
    exact isName_of_mem_memberNames (List.of_mem_zip hentry).1
  · -- the parameters are the members of a record
    have hrecord : (Scope.of manifest reserved).expr (.record entry.2.params) =
        .ok (.object wrapper.params) := by
      rw [Scope.expr, hmade.params_eq]
      rfl
    have hobject := hnames hrecord
    rwa [TypeExpr.names] at hobject
  · obtain ⟨type, hexpr⟩ := hmade.result_eq result hresult
    exact TypeExpr.oneLine_text (hnames hexpr)
  · rw [hmade.errorType_eq] at htype
    exact (herrors _ (Table.mem_of_find?_eq_some htype)).oneLine

/-- There is a wrapper for each method, with the names in their order. -/
theorem names_wrappers {scope : Scope} {errorNames : List (String × String)} {all : List Wrapper}
    (h : wrappers scope errorNames = .ok all) :
    all.map Wrapper.name = memberNames scope.manifest ∧
      all.map Wrapper.method = scope.manifest.methods.map Method.name := by
  have hlength : (memberNames scope.manifest).length = scope.manifest.methods.length := by
    rw [memberNames, length_allocate, List.length_map]
  have hmade := forall₂_of_mapM_eq_ok h fun entry _ wrapper hwrapper ↦ Wrapper.made_of hwrapper
  have hnames : all.map Wrapper.name =
        ((memberNames scope.manifest).zip scope.manifest.methods).map Prod.fst ∧
      all.map Wrapper.method =
        (((memberNames scope.manifest).zip scope.manifest.methods).map Prod.snd).map
        Method.name := by
    clear h hlength
    generalize (memberNames scope.manifest).zip scope.manifest.methods = entries at hmade ⊢
    induction hmade with
    | nil => exact ⟨rfl, rfl⟩
    | cons hfirst _ ih =>
      simp only [List.map_cons, hfirst.name_eq, hfirst.method_eq, ih.1, ih.2]
      exact ⟨trivial, trivial⟩
  rwa [List.map_fst_zip (Nat.le_of_eq hlength),
    List.map_snd_zip (Nat.le_of_eq hlength.symm)] at hnames

/-- The names of the members are identifiers, and are told apart from each other and from those of
other members. -/
theorem memberNames_allocated (manifest : Manifest) :
    (memberNames manifest).Nodup ∧ (∀ name ∈ memberNames manifest, name ∉ reservedMembers) ∧
      ∀ name ∈ memberNames manifest, isIdentifier name = true := by
  have hbases : ∀ base ∈ manifest.methods.map fun method ↦ identifier (memberCase method.name),
      isIdentifier base = true := by
    intro base hbase
    obtain ⟨method, -, rfl⟩ := List.mem_map.1 hbase
    exact isIdentifier_identifier _
  have hrun := allocates_allocate (.ofList reservedMembers) hbases
  exact ⟨hrun.nodup, fun name hname hmem ↦ hrun.not_mem_set name hname (mem_ofList_iff.2 hmem),
    hrun.isIdentifier⟩

/-- The class of a client comes last and has one asynchronous member for each method, in the order
of the methods. The member is named by an identifier and asks for its method to be executed, under
the name that it has in the manifest. The members are told apart by their names, also from the other
members of the class. -/
theorem asyncMembers_client {manifest : Manifest} (h : manifest.Obtained)
    (name importPath : String) :
    ∃ types client before lines,
      generate manifest { Config.named name with importPath } = .ok ⟨types, client⟩ ∧
      classes client = before ++ [(identifier name, lines)] ∧
      List.Forall₂ (fun member method ↦ isIdentifier member.name = true ∧
        member.executes = [method.name]) (asyncMembers lines) manifest.methods ∧
      ((asyncMembers lines).map AsyncMember.name).Nodup ∧
      ∀ member ∈ asyncMembers lines, member.name ∉ ["constructor", "app", "context"] := by
  have hclass : ({ Config.named name with importPath } : Config).clientName = identifier name := rfl
  generalize ({ Config.named name with importPath } : Config) = config at hclass ⊢
  have hname : IsName config.clientName := hclass ▸ isName_identifier name
  obtain ⟨declarations, all, hdeclarations, hall⟩ := exists_texts h.checked config
  have hscope : (scopeOf manifest config).Named := Scope.named_of manifest (reservedNames config)
  obtain ⟨hitems, herrors⟩ := neutral_declarations hscope hdeclarations
  have hneutral := neutral_wrappers hscope herrors hall
  have hlines := singleLine_wrappers manifest (reservedNames config) herrors hall
  obtain ⟨before, hclasses⟩ :=
    classes_clientNodes hname (closed_declarationNodes hitems) hneutral hlines
  obtain ⟨hnames, hmethods⟩ := names_wrappers hall
  refine ⟨_, _, before, _, (generate_eq_ok hdeclarations hall).2.2, hclass ▸ hclasses, ?_⟩
  obtain ⟨hnodup, hfree, hidentifiers⟩ := memberNames_allocated manifest
  have hmembers :
      (all.map fun wrapper ↦
        (⟨wrapper.name, [wrapper.method]⟩ : AsyncMember)).map AsyncMember.name =
      memberNames manifest := (List.map_map ..).trans hnames
  rw [asyncMembers_classNode hneutral hlines, hmembers, List.forall₂_and_left]
  refine ⟨⟨fun member hmember ↦ hidentifiers _ (hmembers ▸ List.mem_map_of_mem hmember), ?_⟩,
    hnodup, fun member hmember ↦ hfree _ (hmembers ▸ List.mem_map_of_mem hmember)⟩
  have heq : List.Forall₂ (· = ·) (all.map Wrapper.method) (manifest.methods.map Method.name) := by
    rw [List.forall₂_eq_eq_eq]
    exact hmethods
  rw [List.forall₂_map_left_iff, List.forall₂_map_right_iff] at heq
  rw [List.forall₂_map_left_iff]
  exact heq.imp fun wrapper method hmethod ↦ by rw [hmethod]

/-- A value with methods whose names collide as members, are those of other members, and try to
leave their places. -/
def crowded : Json :=
  .object [("schema_version", .string "wasm-abi/1"), ("types", .object []),
    ("methods", .array [
      .object [("name", .string "get_item"), ("params", .array [])],
      .object [("name", .string "getItem"), ("params", .array [])],
      .object [("name", .string "constructor"), ("params", .array [])],
      .object [("name", .string "app'\n*/ public async app() \x7b"), ("params", .array [])]]),
    ("events", .array [])]

theorem asyncMembers_client_crowded :
    ∃ manifest, Manifest.ofJsonWith (fun _ ↦ []) crowded = .ok manifest ∧
      manifest.methods.map Method.name =
        ["get_item", "getItem", "constructor", "app'\n*/ public async app() \x7b"] ∧
      ∃ types client before lines,
        generate manifest { Config.named "Client" with importPath := "runtime" } =
          .ok ⟨types, client⟩ ∧
        classes client = before ++ [(identifier "Client", lines)] ∧
        (asyncMembers lines).length = 4 ∧
        ((asyncMembers lines).map AsyncMember.name).Nodup := by
  obtain ⟨manifest, h, hmethods⟩ :
      ∃ manifest, Manifest.ofJsonWith (fun _ ↦ []) crowded = .ok manifest ∧
      manifest.methods.map Method.name =
        ["get_item", "getItem", "constructor", "app'\n*/ public async app() \x7b"] := ⟨_, rfl, rfl⟩
  obtain ⟨types, client, before, lines, hgenerate, hclasses, hmembers, hnodup, -⟩ :=
    asyncMembers_client (.ofJsonWith h) "Client" "runtime"
  have hlength : manifest.methods.length = 4 := by rw [← List.length_map, hmethods]; rfl
  exact ⟨manifest, h, hmethods, types, client, before, lines, hgenerate, hclasses,
    hmembers.length_eq.trans hlength, hnodup⟩

end AbiBindings.Client
