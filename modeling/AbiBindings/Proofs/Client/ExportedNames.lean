import AbiBindings.Proofs.Client.Confinement
import AbiBindings.Proofs.Client.TypeResolution

/-!
# Exports of generated texts

What the declarations export is read off the texts. Names and types are written without line ends,
so each declaration is one statement, which exports what it declares (`exports_nodes`), and a text
exports its declarations and, if it has the client class, two classes. Since no name is declared
twice, a name that is exported as a type is exported only once (`declaresType_of_exports`).
-/

namespace AbiBindings.Client

open TypeScript NameSet

/-! ### Exports of declarations -/

theorem Known.isName {exported : List Export}
    (hexported : ∀ statement ∈ exported, IsName statement.name) {name : String}
    (h : Known exported name) : IsName name := by
  obtain hkeyword | rfl | ⟨keyword, -, hmem⟩ := h
  · have hall : ∀ name ∈ keywordTypes, IsName name := by decide
    exact hall name hkeyword
  · decide
  · exact hexported _ hmem

namespace Declaration

/-- An alias is exported as a type. -/
theorem exports_typeLine (name : String) (hname : IsName name) {target : String}
    (htarget : OneLine target) :
    (typeLine name target).statements.map exportOf? = [some ⟨"type", name⟩] := by
  have htail : OneLine (" = " ++ (target ++ ";")) := by
    simp only [oneLine_append_iff, htarget, true_and]
    decide
  have hblank : (" = " ++ (target ++ ";")).toList.head? = some ' ' := by
    rw [String.toList_append]
    rfl
  have hline : typeLine name target =
      .line ("export type " ++ name ++ (" = " ++ (target ++ ";"))) := by
    rw [typeLine, ← String.append_assoc, ← String.append_assoc]
  rw [hline]
  exact exports_statement startsWith_type hname htail hblank

/-- The lines with the members of a union start no statement. -/
theorem statements_unionLines {members : List String} (h : ∀ member ∈ members, OneLine member) :
    (unionLines members).flatMap Node.statements = [] := by
  induction members using unionLines.induct with
  | case1 => rfl
  | case2 member =>
    have hline : OneLine ("  | " ++ member ++ ";") := by
      simp only [oneLine_append_iff, h member List.mem_cons_self, and_true]
      decide
    rw [unionLines, List.flatMap_singleton, statements_line hline]
    simp only [String.toList_append, List.append_assoc]
    rfl
  | case3 member members hmembers ih =>
    have hline : OneLine ("  | " ++ member) := by
      simp only [oneLine_append_iff, h member List.mem_cons_self, and_true]
      decide
    rw [unionLines, List.flatMap_cons,
      ih fun other hother ↦ h other (List.mem_cons_of_mem member hother),
      statements_line hline, String.toList_append]
    · rfl
    · exact hmembers

/-- A union is exported as one type. -/
theorem exports_unionNodes (name : String) (hname : IsName name) {members : List String}
    (h : ∀ member ∈ members, OneLine member) :
    ((unionNodes name members).flatMap Node.statements).map exportOf? = [some ⟨"type", name⟩] := by
  unfold unionNodes
  split
  · rw [List.flatMap_singleton, exports_typeLine name hname (by decide)]
  · have hopening : (Node.line ("export type " ++ name ++ " =")).statements.map exportOf? =
        [some ⟨"type", name⟩] :=
      exports_statement startsWith_type hname (by decide) (by decide)
    rw [List.flatMap_cons, statements_unionLines h, List.append_nil, hopening]

theorem oneLine_memberText {key : String} (hkey : OneLine key) {member : Tagged}
    (h : ∀ type, member.payload = some type → OneLine type.text) :
    OneLine (memberText key member) := by
  have htag := oneLine_stringLiteral member.tag
  rw [memberText]
  split
  · rename_i type htype
    simp only [oneLine_append_iff, hkey, htag, h type htype, and_true]
    decide
  · simp only [oneLine_append_iff, hkey, htag, and_true]
    decide

theorem oneLine_unionMembers {key : String} (hkey : OneLine key) {members : List Tagged}
    (h : ∀ type ∈ members.filterMap Tagged.payload, OneLine type.text) :
    ∀ text ∈ members.map (memberText key), OneLine text := by
  rw [List.forall_mem_map]
  exact fun member hmember ↦ oneLine_memberText hkey fun type hpayload ↦
    h type (List.mem_filterMap.2 ⟨member, hmember, hpayload⟩)

theorem oneLine_fixedLength (count : ByteCount) :
    OneLine ("Fixed-length bytes (size: " ++ toString count.size.toNat ++ ").") := by
  simp only [oneLine_append_iff, (isName_toString count.size.toNat).oneLine, and_true]
  decide

theorem oneLine_tags (tags : List String) :
    OneLine (" | ".intercalate (tags.map stringLiteral)) := by
  refine oneLine_intercalate (by decide) ?_
  rw [List.forall_mem_map]
  exact fun tag _ ↦ oneLine_stringLiteral tag

/-- A declaration is one statement, which exports what it declares. -/
theorem exports_nodes {declaration : Declaration} (hneutral : declaration.Neutral)
    (hname : IsName declaration.name) {exported : List Export}
    (hexported : ∀ statement ∈ exported, IsName statement.name)
    (h : declaration.Resolved exported) :
    (declaration.nodes.flatMap Node.statements).map exportOf? = [some declaration.exported] := by
  have hclosed := hneutral.closed_nodes
  have htypes : ∀ type ∈ declaration.types, OneLine type.text := fun type htype ↦
    TypeExpr.oneLine_text fun name hmem ↦ (h.types type htype name hmem).isName hexported
  cases declaration with
  | interface name members =>
    rw [nodes, List.flatMap_cons, List.flatMap_singleton, statements_blank, List.append_nil]
    exact exports_statement_block startsWith_interface hname (by decide) (by decide)
      (hclosed _ List.mem_cons_self) (by decide)
  | typeAlias name target =>
    have htarget := htypes target List.mem_cons_self
    rw [nodes, List.flatMap_cons, List.flatMap_singleton, statements_blank, List.append_nil,
      exports_typeLine name hname htarget]
    rfl
  | fixedBytes name count =>
    rw [nodes, List.flatMap_cons, List.flatMap_cons, List.flatMap_singleton,
      statements_doc, statements_blank, List.append_nil, List.nil_append,
      exports_typeLine name hname (by decide)]
    rfl
  | union name key members =>
    rw [nodes, List.flatMap_append, List.flatMap_singleton, statements_blank, List.append_nil,
      exports_unionNodes name hname (oneLine_unionMembers
        (isName_of_isWord (h.key name key members rfl)).oneLine htypes)]
    rfl
  | factories name payloadName cases =>
    rw [nodes, List.flatMap_cons, List.flatMap_singleton, statements_blank, List.append_nil]
    exact exports_statement_block startsWith_const hname (by decide) (by decide)
      (hclosed _ List.mem_cons_self) (by decide)
  | codes name tags =>
    rw [nodes, List.flatMap_singleton, exports_typeLine name hname (oneLine_tags tags)]
    rfl

end Declaration

theorem name_of_mem_eventUnion {names : List EventName} {declaration : Declaration}
    (h : declaration ∈ eventUnion names) : declaration.name = eventsName := by
  have hname : declaration.name ∈ (eventUnion names).map Declaration.name := List.mem_map_of_mem h
  rw [names_eventUnion] at hname
  split at hname
  · cases hname
  · exact List.mem_singleton.1 hname

/-! ### Statements of the texts -/

/-- The first comment is no statement. -/
theorem statements_generated : Layout.generated.flatMap Node.statements = [] := by
  have hbanner : OneLine Layout.banner := by decide
  rw [Layout.generated, List.flatMap_cons, List.flatMap_singleton, statements_blank,
    statements_line hbanner]
  rfl

/-- The text with the declarations has these, after an import. -/
theorem statements_typesNodes (config : Config) (declarations : List Node) :
    ∃ importLine, exportOf? importLine = none ∧
      (typesNodes config declarations).flatMap Node.statements =
        importLine :: declarations.flatMap Node.statements := by
  have himport : OneLine ("import type \x7b " ++ bytesName ++ " \x7d from " ++
      stringLiteral config.clientModule ++ ";") := by
    simp only [oneLine_append_iff, oneLine_stringLiteral, and_true]
    decide
  refine ⟨("import type \x7b " ++ bytesName ++ " \x7d from " ++
    stringLiteral config.clientModule ++ ";").toList, ?_, ?_⟩
  · simp only [String.toList_append, List.append_assoc]
    rfl
  · rw [typesNodes, List.flatMap_append, List.flatMap_append, statements_generated,
      List.flatMap_cons, List.flatMap_singleton, statements_blank, statements_line himport]
    simp only [String.toList_append, List.append_assoc]
    rfl

/-- The first lines of the statements that are the same in all clients. -/
def runtimeStatements : List (List Char) :=
  ["export class AbiBytes \x7b", "type AbiShape =",
    "function convertAbiBytesForWasm(value: any): any \x7b",
    "function convertWasmResultToAbiBytes(value: any, shape: AbiShape): any \x7b"].map String.toList

set_option maxRecDepth 20000 in
theorem statements_bytesClass :
    (Node.snippet Runtime.bytesClass).statements = runtimeStatements.take 1 :=
  (statements_snippet _).trans (by decide +kernel)

set_option maxRecDepth 20000 in
theorem statements_converters :
    (Node.snippet Runtime.converters).statements = runtimeStatements.drop 1 :=
  (statements_snippet _).trans (by decide +kernel)

/-- The text with the client class has an import, the declarations, what the class relies on, and
the class. -/
theorem statements_clientNodes {config : Config} (hname : IsName config.clientName)
    {declarations : List Node} {all : List Wrapper}
    (h : ∀ node ∈ clientNodes config declarations all, node.Closed) :
    ∃ rest classLine, exportOf? classLine = some ⟨"class", config.clientName⟩ ∧
      (clientNodes config declarations all).flatMap Node.statements =
      ("import \x7b".toList ++ rest) ::
        (declarations.flatMap Node.statements ++ (runtimeStatements ++ [classLine])) := by
  have hclosing : OneLine ("\x7d from " ++ stringLiteral config.importPath ++ ";") := by
    simp only [oneLine_append_iff, oneLine_stringLiteral, and_true]
    decide
  have hblock : (Node.block "import \x7b" (Runtime.imports.map fun name ↦ .line (name ++ ","))
      ("\x7d from " ++ stringLiteral config.importPath ++ ";")).Closed :=
      h _ (by simp [clientNodes])
  obtain ⟨rest, himport⟩ := statements_block hblock (by decide) rfl hclosing
  have hcomment : (Node.line "// Generated types").statements = [] := statements_line (by decide)
  have hclosed : (classNode config all).Closed := h _ (by simp [clientNodes])
  have hclass : (classNode config all).statements.map exportOf? =
      [some ⟨"class", config.clientName⟩] :=
    exports_statement_block startsWith_class hname (by decide) (by decide) hclosed (by decide)
  obtain ⟨classLine, hline, hexport⟩ := List.map_eq_singleton_iff.1 hclass
  refine ⟨rest, classLine, hexport, ?_⟩
  simp only [clientNodes, List.flatMap_append, List.flatMap_cons, List.flatMap_nil,
    statements_generated,
    statements_blank, himport, hcomment, statements_bytesClass, statements_converters, hline]
  simp only [List.nil_append, List.append_nil, List.cons_append]
  rw [← List.append_assoc (runtimeStatements.take 1), List.take_append_drop]

/-! ### Exported once -/

/-- The text exports the name once, as a type. -/
def DeclaresType (text name : String) : Prop :=
  ∃ keyword ∈ typeKeywords, (exports text).filter (·.name = name) = [⟨keyword, name⟩]

instance (text name : String) : Decidable (DeclaresType text name) :=
  inferInstanceAs (Decidable
    (∃ keyword ∈ typeKeywords, (exports text).filter (·.name = name) = [⟨keyword, name⟩]))

example : DeclaresType "export const A = 0;\nexport type B = 0;\n" "B" ∧
    ¬ DeclaresType "export const A = 0;\nexport type B = 0;\n" "A" := by decide

/-- Without repeated names, each declaration is the only one of its name. -/
theorem filter_exported {declared : List Declaration} (hnd : (declared.map Declaration.name).Nodup)
    {declaration : Declaration} (h : declaration ∈ declared) :
    (declared.map Declaration.exported).filter (·.name = declaration.name) =
      [declaration.exported] := by
  induction declared with
  | nil => cases h
  | cons first declared ih =>
    obtain ⟨hfirst, hnd⟩ := List.nodup_cons.1 hnd
    have hrest {name : String} (hname : name ∉ declared.map Declaration.name) :
        (declared.map Declaration.exported).filter (·.name = name) = [] := by
      rw [List.filter_map, List.map_eq_nil_iff, List.filter_eq_nil_iff]
      intro other hother heq
      refine hname (List.mem_map.2 ⟨other, hother, ?_⟩)
      rw [← other.name_exported]
      exact of_decide_eq_true heq
    rw [List.map_cons]
    obtain rfl | h := List.mem_cons.1 h
    · rw [List.filter_cons_of_pos (by simp [Declaration.name_exported]), hrest hfirst]
    · have hne : first.name ≠ declaration.name := fun heq ↦ hfirst (heq ▸ List.mem_map_of_mem h)
      rw [List.filter_cons_of_neg (by simpa [Declaration.name_exported] using hne), ih hnd h]

/-- A name that is exported as a type is exported only once if nothing else has the name of a
declaration. -/
theorem declaresType_of_exports {text : String} {declared : List Declaration} {rest : List Export}
    (htext : exports text = declared.map Declaration.exported ++ rest)
    (hnd : (declared.map Declaration.name).Nodup)
    (hrest : ∀ statement ∈ rest, statement.name ∉ declared.map Declaration.name)
    {keyword name : String} (hkeyword : keyword ∈ typeKeywords)
    (h : ⟨keyword, name⟩ ∈ declared.map Declaration.exported) : DeclaresType text name := by
  obtain ⟨declaration, hmem, hexported⟩ := List.mem_map.1 h
  obtain rfl : declaration.name = name := by rw [← declaration.name_exported, hexported]
  have hnone : rest.filter (·.name = declaration.name) = [] := by
    refine List.filter_eq_nil_iff.2 fun statement hstatement heq ↦ hrest statement hstatement ?_
    rw [of_decide_eq_true heq]
    exact List.mem_map_of_mem hmem
  exact ⟨keyword, hkeyword,
    by rw [htext, List.filter_append, filter_exported hnd hmem, hnone, hexported]; rfl⟩

/-! ### The texts of a manifest -/

section Declared

variable {manifest : Manifest} (hnd : (Table.names manifest.types).Nodup) {reserved : List String}
  {declarations : Declarations} (h : Declarations.of (.of manifest reserved) = .ok declarations)
  {parts : List (List Declaration)}
  (hitems : declarations.items = parts.flatten ++
    eventUnion (Scope.of manifest reserved).eventNames)
include hnd h hitems

/-- The declarations beside the union of all events have distinct names, which are names that the
generated texts do not use themselves. -/
theorem names_parts : (parts.flatten.map Declaration.name).Nodup ∧
    ∀ name ∈ parts.flatten.map Declaration.name,
    isIdentifier name = true ∧ name ∉ bytesName :: eventsName :: reserved := by
  have hperm := names_items_perm hnd h
  rw [hitems, List.map_append, names_eventUnion] at hperm
  have hgiven := (List.perm_append_right_iff _).1 hperm
  obtain ⟨after, hrun⟩ := allocates_given manifest reserved
  refine ⟨hgiven.nodup_iff.2 hrun.nodup, fun name hname ↦ ?_⟩
  have hmem := hgiven.mem_iff.1 hname
  exact ⟨hrun.isIdentifier name hmem,
    fun hreserved ↦ hrun.not_mem_set name hmem (mem_ofList_iff.2 hreserved)⟩

/-- Everything that is declared has an identifier for its name. -/
theorem isIdentifier_items :
    (∀ declaration ∈ declarations.items, isIdentifier declaration.name = true) ∧
    ∀ statement ∈ exportsOf parts, isIdentifier statement.name = true := by
  have hparts : ∀ declaration ∈ parts.flatten, isIdentifier declaration.name = true := fun _ hmem ↦
    ((names_parts hnd h hitems).2 _ (List.mem_map_of_mem hmem)).1
  constructor
  · rw [hitems, List.forall_mem_append]
    refine ⟨hparts, fun declaration hmem ↦ ?_⟩
    rw [name_of_mem_eventUnion hmem]
    decide
  · rw [exportsOf, List.forall_mem_map]
    exact fun declaration hmem ↦ declaration.name_exported ▸ hparts declaration hmem

theorem isName_items : (∀ declaration ∈ declarations.items, IsName declaration.name) ∧
    ∀ statement ∈ exportsOf parts, IsName statement.name := by
  obtain ⟨hnames, hexported⟩ := isIdentifier_items hnd h hitems
  exact ⟨fun declaration hmem ↦ isName_of_isIdentifier (hnames declaration hmem),
    fun statement hmem ↦ isName_of_isIdentifier (hexported statement hmem)⟩

/-- The statements for the declarations are their exports, in order. -/
theorem exports_items (hresolved : ∀ declaration ∈ declarations.items,
      declaration.Resolved (exportsOf parts)) :
    (declarations.nodes.flatMap Node.statements).map exportOf? =
      (declarations.items.map Declaration.exported).map some := by
  obtain ⟨hnames, hexported⟩ := isName_items hnd h hitems
  have hneutral := (neutral_declarations (Scope.named_of manifest reserved) h).1
  rw [Declarations.nodes, List.flatMap_assoc, List.map_flatMap, List.map_map, List.map_eq_flatMap]
  exact List.flatMap_congr fun declaration hmem ↦
    Declaration.exports_nodes (hneutral _ hmem) (hnames _ hmem) hexported (hresolved _ hmem)

end Declared

section Texts

variable {manifest : Manifest} (h : manifest.Checked) {config : Config}
    (hclass : IsName config.clientName)
  {declarations : Declarations}
    (hdeclarations : Declarations.of (scopeOf manifest config) = .ok declarations)
  {parts : List (List Declaration)}
  (hitems : declarations.items = parts.flatten ++ eventUnion (scopeOf manifest config).eventNames)
  (hresolved : ∀ declaration ∈ declarations.items, declaration.Resolved (exportsOf parts))
include h hdeclarations hitems

/-- The union of all events and the two classes have names that no other declaration has. -/
theorem not_mem_names_parts : ∀ statement ∈ (eventUnion (scopeOf manifest config).eventNames).map
    Declaration.exported ++ [⟨"class", bytesName⟩, ⟨"class", config.clientName⟩],
    statement.name ∉ parts.flatten.map Declaration.name := by
  have hfree {name : String} (hname : name ∈ bytesName :: eventsName :: reservedNames config) :
      name ∉ parts.flatten.map Declaration.name :=
    fun hmem ↦ ((names_parts (h.names .type) hdeclarations hitems).2 name hmem).2 hname
  simp only [List.forall_mem_append, List.forall_mem_map, List.forall_mem_cons]
  refine ⟨fun declaration hmem ↦ ?_, hfree (by simp), hfree (by simp [reservedNames]),
    List.forall_mem_nil _⟩
  rw [declaration.name_exported, name_of_mem_eventUnion hmem]
  exact hfree (by simp)

include hresolved

/-- The text with the declarations exports these, with the union of the events as the last one. -/
theorem exports_types : exports (Layout.render (typesNodes config declarations.nodes)) =
    exportsOf parts ++
      (eventUnion (scopeOf manifest config).eventNames).map Declaration.exported := by
  have hneutral :=
    (neutral_declarations (Scope.named_of manifest (reservedNames config)) hdeclarations).1
  obtain ⟨importLine, himport, hlines⟩ := statements_typesNodes config declarations.nodes
  rw [exports_eq, statements_render
    (closed_typesNodes config (closed_declarationNodes hneutral)), hlines,
    List.filterMap_cons_none himport,
    filterMap_exportOf? (exports_items (h.names .type) hdeclarations hitems hresolved), hitems,
    List.map_append]
  rfl

include hclass

/-- The text with the client exports the same, and two classes. -/
theorem exports_client {all : List Wrapper}
    (hall : wrappers (scopeOf manifest config) declarations.errorNames = .ok all) :
    exports (Layout.render (clientNodes config declarations.nodes all)) =
      exportsOf parts ++ ((eventUnion (scopeOf manifest config).eventNames).map
        Declaration.exported ++ [⟨"class", bytesName⟩, ⟨"class", config.clientName⟩]) := by
  have hscope := Scope.named_of manifest (reservedNames config)
  obtain ⟨hneutral, hidents⟩ := neutral_declarations hscope hdeclarations
  have hclosed := closed_clientNodes hclass (closed_declarationNodes hneutral)
    (neutral_wrappers hscope hidents hall)
  obtain ⟨rest, classLine, hexport, hlines⟩ := statements_clientNodes hclass hclosed
  have himport : exportOf? ("import \x7b".toList ++ rest) = none := rfl
  have hruntime : runtimeStatements.filterMap exportOf? = [⟨"class", bytesName⟩] := by decide
  rw [exports_eq, statements_render hclosed, hlines, List.filterMap_cons_none himport,
    List.filterMap_append,
    filterMap_exportOf? (exports_items (h.names .type) hdeclarations hitems hresolved),
    List.filterMap_append, hruntime,
    List.filterMap_cons_some hexport, hitems, List.map_append, List.append_assoc]
  rfl

end Texts

end AbiBindings.Client
