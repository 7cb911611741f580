import AbiBindings.Proofs.Client.ExportedNames
import AbiBindings.Proofs.TypeScript.ExportLines

/-!
# What is emitted for a manifest

The lines of the text with the declarations that start with `export` are given by the manifest: for
each type, for each method with errors, for each event that carries something, and for the union of
all events, in this order. `TypeLines`, `ErrorLines` and `EventLines` say which lines these are, up
to the names that the scope has given.

Each declaration has one such line, its `headline`, because names and types are written without line
ends (`exportLines_nodes`). The declarations are made step by step from the manifest, so the lines
for the steps are put together as the steps are. The union of all events ends the text, with a
member for each event (`render_typesNodes_events`).
-/

namespace AbiBindings.Client

open TypeScript

/-! ### The lines for the parts of a manifest -/

/-- The line that declares a type with a target on the same line. -/
def aliasLine (name target : String) : String := "export type " ++ name ++ " = " ++ target ++ ";"

/-- The line that starts the declaration of a union. -/
def unionLine (name : String) : String := "export type " ++ name ++ " ="

/-- The lines for an entry of the type table: one for a record, for byte sequences and for an alias;
two for a variant, first its type and then the object that makes its values. -/
inductive TypeLines (scope : Scope) : String × TypeDef → List String → Prop
  | record {name ident : String} {fields : List (Member TypeRef)}
    (hident : (.type name, ident) ∈ scope.given) :
    TypeLines scope (name, .record fields)
      ["export interface " ++ ident ++ " \x7b" ++ if fields.isEmpty then "\x7d" else ""]
  | variant {name ident payload : String} {cases : List Case}
    (hident : (.type name, ident) ∈ scope.given)
      (hpayload : (.variantType name, payload) ∈ scope.given) :
    TypeLines scope (name, .variant cases)
      [if cases.isEmpty then aliasLine payload "never" else unionLine payload,
        "export const " ++ ident ++ " = \x7b" ++ if cases.isEmpty then "\x7d as const;" else ""]
  | bytes {name ident : String} {length : ByteLength} (hident : (.type name, ident) ∈ scope.given) :
    TypeLines scope (name, .bytes length) [aliasLine ident "AbiBytes"]
  | cycle {name ident : String} {target : TypeRef} (hident : (.type name, ident) ∈ scope.given)
      (hcycle : Alias.isCycle scope.manifest.types name = true) :
    TypeLines scope (name, .aliasOf target) [aliasLine ident "unknown"]
  | aliasOf {name ident : String} {target : TypeRef} {type : TypeExpr}
    (hident : (.type name, ident) ∈ scope.given)
      (hcycle : Alias.isCycle scope.manifest.types name = false)
      (htype : scope.expr target = .ok type) :
    TypeLines scope (name, .aliasOf target) [aliasLine ident type.text]

/-- The lines for a method with errors: the type of their codes, and the union of the errors. -/
inductive ErrorLines (scope : Scope) : Method → List String → Prop
  | intro {method : Method} {code error : String}
    (hcode : (.errorCodes method.name, code) ∈ scope.given)
      (herror : (.errors method.name, error) ∈ scope.given) :
    ErrorLines scope method
      [aliasLine code (" | ".intercalate (method.errors.map fun error ↦ stringLiteral error.code)),
        unionLine error]

/-- The event carries a value of the type: no chain of aliases leads from the type to the unit
scalar. -/
def Carries (manifest : Manifest) (event : Event) (type : TypeRef) : Prop :=
  event.payload = some type ∧ ¬ Alias.Chain manifest.types type (.scalar .unit)

/-- The lines for an event: one for what it carries, if it carries something. -/
inductive EventLines (scope : Scope) : Event → List String → Prop
  | carrying {event : Event} {ident : String} {type : TypeRef} {expr : TypeExpr}
      (hcarries : Carries scope.manifest event type)
      (hident : (.eventPayload event.name, ident) ∈ scope.given)
      (hexpr : scope.expr type = .ok expr) :
    EventLines scope event [aliasLine ident expr.text]
  | bare {event : Event} (h : ∀ type, ¬ Carries scope.manifest event type) :
    EventLines scope event []

/-- The member of the union of all events for an event. -/
inductive EventMember (scope : Scope) : Event → String → Prop
  | carrying {event : Event} {ident : String} {type : TypeRef}
    (hcarries : Carries scope.manifest event type)
      (hident : (.eventPayload event.name, ident) ∈ scope.given) :
    EventMember scope event ("\x7b name: " ++ stringLiteral event.name ++ "; payload: " ++
      ident ++ " \x7d")
  | bare {event : Event} (h : ∀ type, ¬ Carries scope.manifest event type) :
    EventMember scope event ("\x7b name: " ++ stringLiteral event.name ++ " \x7d")

/-! ### The line of a declaration -/

namespace Declaration

/-- The line of a declaration that starts with an export. -/
def headline : Declaration → String
  | interface name members =>
    "export interface " ++ name ++ " \x7b" ++ if members.isEmpty then "\x7d" else ""
  | typeAlias name target => aliasLine name target.text
  | fixedBytes name _ => aliasLine name bytesName
  | union name _ members => if members.isEmpty then aliasLine name "never" else unionLine name
  | factories name _ cases =>
    "export const " ++ name ++ " = \x7b" ++ if cases.isEmpty then "\x7d as const;" else ""
  | codes name tags => aliasLine name (" | ".intercalate (tags.map stringLiteral))

/-- An alias has one line that starts with an export. -/
theorem exportLines_typeLine (name : String) (hname : IsName name) {target : String}
    (htarget : OneLine target) : (typeLine name target).exportLines = [aliasLine name target] := by
  have htail : OneLine (" = " ++ (target ++ ";")) := by
    simp only [oneLine_append_iff, htarget, true_and]
    decide
  have hline : aliasLine name target = "export type " ++ name ++ (" = " ++ (target ++ ";")) := by
    rw [← String.append_assoc, ← String.append_assoc]
    rfl
  show (Node.line (aliasLine name target)).exportLines = _
  rw [hline]
  exact exportLines_statement startsWith_type name hname htail

theorem exportLines_unionLines {members : List String} (h : ∀ member ∈ members, OneLine member) :
    (unionLines members).flatMap Node.exportLines = [] := by
  have hmember {member : String} (hline : OneLine member) (tail : String) (htail : OneLine tail) :
      (Node.line ("  | " ++ member ++ tail)).exportLines = [] := by
    refine exportLines_line_eq_nil ?_ ?_
    · simp only [oneLine_append_iff, hline, htail, and_true]
      decide
    · simp only [String.toList_append, List.append_assoc]
      rfl
  induction members using unionLines.induct with
  | case1 => rfl
  | case2 member =>
    rw [unionLines, List.flatMap_singleton, hmember (h member List.mem_cons_self) ";" (by decide)]
  | case3 member members hmembers ih =>
    have hline := hmember (h member List.mem_cons_self) "" (by decide)
    rw [String.append_empty] at hline
    rw [unionLines, List.flatMap_cons,
      ih fun other hother ↦ h other (List.mem_cons_of_mem member hother), hline]
    · rfl
    · exact hmembers

/-- So has a union. One without members is an alias of `never`. -/
theorem exportLines_unionNodes (name : String) (hname : IsName name) {members : List String}
    (h : ∀ member ∈ members, OneLine member) :
    (unionNodes name members).flatMap Node.exportLines =
      [if members.isEmpty then aliasLine name "never" else unionLine name] := by
  rcases members with _ | ⟨member, members⟩
  · rw [unionNodes, List.flatMap_singleton, exportLines_typeLine name hname (by decide)]
    rfl
  · have hopening : (Node.line (unionLine name)).exportLines = [unionLine name] :=
      exportLines_statement startsWith_type name hname (by decide : OneLine " =")
    show (Node.line (unionLine name)).exportLines ++ (unionLines (member :: members)).flatMap
      Node.exportLines = _
    rw [exportLines_unionLines h, hopening, List.append_nil]
    rfl

theorem isEmpty_memberTexts (members : List (Member TypeExpr)) :
    (TypeExpr.memberTexts members).isEmpty = members.isEmpty := by
  rcases members with _ | ⟨member, members⟩
  · rw [TypeExpr.memberTexts]
    rfl
  · rw [TypeExpr.memberTexts]
    rfl

theorem exists_factoryLine {payloadName : String} (hname : OneLine payloadName) {case : Tagged}
    (h : ∀ type, case.payload = some type → OneLine type.text) :
    ∃ text, OneLine text ∧ factoryLine payloadName case = .line text := by
  have hkey := oneLine_propertyKey case.tag
  have htag := oneLine_stringLiteral case.tag
  unfold factoryLine
  split
  · rename_i type htype
    refine ⟨_, ?_, rfl⟩
    simp only [oneLine_append_iff, hkey, htag, hname, h type htype, and_true]
    decide
  · refine ⟨_, ?_, rfl⟩
    simp only [oneLine_append_iff, hkey, htag, hname, and_true]
    decide

/-- A declaration has one line that starts with an export. -/
theorem exportLines_nodes {declaration : Declaration} (hname : IsName declaration.name)
    {exported : List Export} (hexported : ∀ statement ∈ exported, IsName statement.name)
    (h : declaration.Resolved exported) :
    declaration.nodes.flatMap Node.exportLines = [declaration.headline] := by
  have hnames : ∀ type ∈ declaration.types, ∀ name ∈ type.names, IsName name :=
    fun type htype name hmem ↦
    (h.types type htype name hmem).isName hexported
  have htypes : ∀ type ∈ declaration.types, OneLine type.text := fun type htype ↦
    TypeExpr.oneLine_text (hnames type htype)
  cases declaration with
  | interface name members =>
    have hmembers : ∀ text ∈ TypeExpr.memberTexts members, OneLine text := by
      refine TypeExpr.oneLine_memberTexts fun other hmem ↦ ?_
      obtain ⟨member, hmember, hmem⟩ := TypeExpr.mem_memberNames_iff.1 hmem
      exact hnames member.type (List.mem_map_of_mem hmember) other hmem
    have hbody : ∀ node ∈ (TypeExpr.memberTexts members).map fun member ↦ Node.line (member ++ ";"),
        ∃ text, OneLine text ∧ node = .line text := by
      rw [List.forall_mem_map]
      exact fun text htext ↦ ⟨_, oneLine_append_iff.2 ⟨hmembers text htext, by decide⟩, rfl⟩
    have hblock := exportLines_statement_block startsWith_interface name hname
      (by decide : OneLine " \x7b") (by decide : OneLine "\x7d") (by decide) hbody
    rw [nodes, List.flatMap_cons, List.flatMap_singleton, exportLines_blank, List.append_nil,
      hblock, List.isEmpty_map, isEmpty_memberTexts]
    rfl
  | typeAlias name target =>
    rw [nodes, List.flatMap_cons, List.flatMap_singleton,
      exportLines_typeLine name hname (htypes target List.mem_cons_self), exportLines_blank]
    rfl
  | fixedBytes name count =>
    rw [nodes, List.flatMap_cons, List.flatMap_cons, List.flatMap_singleton,
      exportLines_doc (oneLine_fixedLength count),
      exportLines_typeLine name hname (by decide), exportLines_blank]
    rfl
  | union name key members =>
    rw [nodes, List.flatMap_append, exportLines_unionNodes name hname
      (oneLine_unionMembers (isName_of_isWord (h.key name key members rfl)).oneLine htypes),
      List.flatMap_singleton, exportLines_blank, List.append_nil, List.isEmpty_map]
    rfl
  | factories name payloadName cases =>
    have hbody : ∀ node ∈ cases.map (factoryLine payloadName),
        ∃ text, OneLine text ∧ node = .line text := by
      rw [List.forall_mem_map]
      intro case hcase
      have hpayload : OneLine payloadName :=
        (hnames _ (mem_types_factories hcase).1 payloadName List.mem_cons_self).oneLine
      exact exists_factoryLine hpayload fun type htype ↦
        htypes type ((mem_types_factories hcase).2 type htype)
    have hblock := exportLines_statement_block startsWith_const name hname
      (by decide : OneLine " = \x7b") (by decide : OneLine "\x7d as const;") (by decide) hbody
    rw [nodes, List.flatMap_cons, List.flatMap_singleton, exportLines_blank, List.append_nil,
      hblock, List.isEmpty_map]
    rfl
  | codes name tags =>
    rw [nodes, List.flatMap_singleton, exportLines_typeLine name hname (oneLine_tags tags)]
    rfl

end Declaration

/-! ### The lines for the steps -/

section Steps

variable {scope : Scope}

/-- The name of a type was given to it. -/
theorem mem_given_of_typeName {name ident : String} (h : scope.typeName name = .ok ident) :
    (.type name, ident) ∈ scope.given := by
  have hmem := Table.mem_of_find?_eq_some (find?_of_typeName h)
  simp only [Scope.given, List.mem_append]
  exact .inl (.inl (.inl (List.mem_map_of_mem hmem)))

/-- The name of the type of a variant was given to it. -/
theorem mem_given_of_payloadName {name ident : String} (h : scope.payloadName name = .ok ident) :
    (.variantType name, ident) ∈ scope.given := by
  have hmem := Table.mem_of_find?_eq_some (find?_of_payloadName h)
  simp only [Scope.given, List.mem_append]
  exact .inl (.inl (.inr (List.mem_map_of_mem hmem)))

/-- Both names for the errors of a method were given to them. -/
theorem mem_given_of_errorNames {names : ErrorNames} (h : names ∈ scope.errorNames) :
    (.errorCodes names.method.name, names.code) ∈ scope.given ∧
      (.errors names.method.name, names.error) ∈ scope.given := by
  simp only [Scope.given, List.mem_append]
  exact ⟨.inl (.inr (List.mem_flatMap.2 ⟨names, h, List.mem_cons_self⟩)),
    .inl (.inr (List.mem_flatMap.2 ⟨names, h, List.mem_cons_of_mem _ List.mem_cons_self⟩))⟩

/-- The name of the payload of an event was given to it. -/
theorem mem_given_of_eventNames {name : EventName} (h : name ∈ scope.eventNames) {ident : String}
    {type : TypeRef} (hpayload : name.payload = some (ident, type)) :
    (.eventPayload name.event.name, ident) ∈ scope.given := by
  simp only [Scope.given, List.mem_append]
  exact .inr (List.mem_filterMap.2 ⟨name, h, by rw [hpayload]; rfl⟩)

theorem isEmpty_memberExprs {members : List (Member TypeRef)} {exprs : List (Member TypeExpr)}
    (h : scope.memberExprs members = .ok exprs) : exprs.isEmpty = members.isEmpty := by
  rcases members with _ | ⟨⟨name, type, nullable⟩, members⟩
  · rw [Scope.memberExprs] at h
    cases h
    rfl
  · simp only [Scope.memberExprs, bind_eq_ok_iff] at h
    obtain ⟨expr, -, rest, -, h⟩ := h
    cases h
    rfl

theorem isEmpty_of_mapM_eq_ok {ε α β : Type} {f : α → Except ε β} {xs : List α} {ys : List β}
    (h : xs.mapM f = .ok ys) : ys.isEmpty = xs.isEmpty := by
  cases mapM_eq_ok_iff.1 h <;> rfl

/-- The declarations of a type start with the lines that its definition asks for. -/
theorem typeLines_headline {name : String} {typeDef : TypeDef} {declared : List Declaration}
    (h : typeDeclarations scope name typeDef = .ok declared) :
    TypeLines scope (name, typeDef) (declared.map Declaration.headline) := by
  obtain ⟨ident, hident, h⟩ := bind_eq_ok_iff.1 h
  have hgiven := mem_given_of_typeName hident
  cases typeDef with
  | record fields =>
    obtain ⟨members, hmembers, h⟩ := bind_eq_ok_iff.1 h
    cases h
    show TypeLines scope _
      ["export interface " ++ ident ++ " \x7b" ++ if members.isEmpty then "\x7d" else ""]
    rw [isEmpty_memberExprs hmembers]
    exact .record hgiven
  | variant cases =>
    simp only [bind_eq_ok_iff] at h
    obtain ⟨payload, hpayload, tagged, htagged, h⟩ := h
    cases h
    show TypeLines scope _ [if tagged.isEmpty then aliasLine payload "never" else unionLine payload,
      "export const " ++ ident ++ " = \x7b" ++ if tagged.isEmpty then "\x7d as const;" else ""]
    rw [isEmpty_of_mapM_eq_ok htagged]
    exact .variant hgiven (mem_given_of_payloadName hpayload)
  | bytes length =>
    rcases length with _ | count
    · cases h
      show TypeLines scope _ [aliasLine ident (TypeExpr.name bytesName).text]
      rw [TypeExpr.text]
      exact .bytes hgiven
    · cases h
      show TypeLines scope _ [aliasLine ident bytesName]
      exact .bytes hgiven
  | aliasOf target =>
    dsimp only at h
    split at h
    · rename_i hcycle
      cases h
      show TypeLines scope _ [aliasLine ident (TypeExpr.name "unknown").text]
      rw [TypeExpr.text]
      exact .cycle hgiven hcycle
    · rename_i hcycle
      obtain ⟨expr, hexpr, h⟩ := bind_eq_ok_iff.1 h
      cases h
      show TypeLines scope _ [aliasLine ident expr.text]
      exact .aliasOf hgiven (Bool.eq_false_of_not_eq_true hcycle) hexpr

/-- The declarations of the errors of a method start with two lines: the codes and the union. -/
theorem errorLines_headline {names : ErrorNames} (hmem : names ∈ scope.errorNames)
    (hne : names.method.errors ≠ []) {declared : List Declaration}
    (h : errorDeclarations scope names = .ok declared) :
    ErrorLines scope names.method (declared.map Declaration.headline) := by
  obtain ⟨members, hmembers, h⟩ := bind_eq_ok_iff.1 h
  cases h
  obtain ⟨hcode, herror⟩ := mem_given_of_errorNames hmem
  have hunion : ¬ members.isEmpty = true := by
    rwa [isEmpty_of_mapM_eq_ok hmembers, List.isEmpty_iff]
  show ErrorLines scope names.method
    [aliasLine names.code (" | ".intercalate
      ((names.method.errors.map MethodError.code).map stringLiteral)),
      if members.isEmpty then aliasLine names.error "never" else unionLine names.error]
  rw [if_neg hunion, List.map_map]
  exact .intro hcode herror

/-! ### Events -/

/-- An event carries a payload unless that is the unit scalar or an alias of it. -/
theorem payload_eq_some_iff {event : Event} {type : TypeRef} :
    scope.payload event.payload = some type ↔ Carries scope.manifest event type := by
  rw [Scope.payload, Option.filter_eq_some_iff, Carries, ← Alias.isUnit_iff, Bool.not_eq_true,
    Bool.not_eq_true']
  rfl

theorem payload_of_mem_allocateEventNames {used : NameSet} {events : List Event} {name : EventName}
    (h : name ∈ (allocateEventNames scope used events).1) :
    name.payload.map Prod.snd = scope.payload name.event.payload := by
  induction events generalizing used with
  | nil => cases h
  | cons event events ih =>
    rw [allocateEventNames] at h
    split at h
    · rename_i type htype
      rcases List.mem_cons.1 h with rfl | h
      · exact htype.symm
      · exact ih h
    · rename_i htype
      rcases List.mem_cons.1 h with rfl | h
      · exact htype.symm
      · exact ih h

/-- An event has got a name for its payload if it carries something. -/
theorem carries_of_eventNames {name : EventName} (h : name ∈ scope.eventNames) :
    (∃ ident type, name.payload = some (ident, type) ∧
      (.eventPayload name.event.name, ident) ∈ scope.given ∧
      Carries scope.manifest name.event type) ∨
    name.payload = none ∧ ∀ type, ¬ Carries scope.manifest name.event type := by
  have hpayload := payload_of_mem_allocateEventNames h
  rcases hname : name.payload with _ | ⟨ident, type⟩
  · refine .inr ⟨rfl, fun type hcarries ↦ ?_⟩
    rw [hname, payload_eq_some_iff.2 hcarries] at hpayload
    cases hpayload
  · rw [hname] at hpayload
    exact .inl ⟨ident, type, rfl, mem_given_of_eventNames h hname,
      payload_eq_some_iff.1 hpayload.symm⟩

/-- The declarations of an event are one line if it carries a payload, and none otherwise. -/
theorem eventLines_headline {name : EventName} (hmem : name ∈ scope.eventNames)
    {declared : List Declaration} (h : eventDeclarations scope name = .ok declared) :
    EventLines scope name.event (declared.map Declaration.headline) := by
  rw [eventDeclarations] at h
  rcases carries_of_eventNames hmem with ⟨ident, type, hname, hident, hcarries⟩ | ⟨hname, hbare⟩
  · rw [hname] at h
    obtain ⟨expr, hexpr, h⟩ := bind_eq_ok_iff.1 h
    cases h
    show EventLines scope name.event [aliasLine ident expr.text]
    exact .carrying hcarries hident hexpr
  · rw [hname] at h
    cases h
    exact .bare hbare

/-- The member of the union of all events for an event with its name. -/
def eventMember (name : EventName) :
    Tagged := ⟨name.event.name, name.payload.map fun (ident, _) ↦ .name ident⟩

/-- An event is in the union with its name, and with its payload under the name that was given. -/
theorem eventMember_memberText {name : EventName} (h : name ∈ scope.eventNames) :
    EventMember scope name.event (Declaration.memberText "name" (eventMember name)) := by
  have hkey : "\x7b " ++ "name" ++ ": " = "\x7b name: " := by decide
  rw [Declaration.memberText, eventMember, hkey]
  rcases carries_of_eventNames h with ⟨ident, type, hname, hident, hcarries⟩ | ⟨hname, hbare⟩
  · simp only [hname, Option.map_some, TypeExpr.text]
    exact .carrying hcarries hident
  · simp only [hname, Option.map_none]
    exact .bare hbare

end Steps

/-! ### The union of all events -/

theorem eventUnion_eq {names : List EventName} (h : names ≠ []) :
    eventUnion names = [.union eventsName "name" (names.map eventMember)] := by
  rcases names with _ | ⟨name, names⟩
  · exact absurd rfl h
  · rfl

/-- The union of the events is left out if there are none. -/
theorem headline_eventUnion (names : List EventName) :
    (eventUnion names).map Declaration.headline =
      if names.isEmpty then [] else ["export type AbiEvent ="] := by
  rcases names with _ | ⟨name, names⟩
  · rfl
  · show [unionLine eventsName] = ["export type AbiEvent ="]
    decide +kernel

section Layout

open Layout

/-- The lines of the members of a union, at the end of a text. -/
theorem linesText_unionLines {members : List String} (h : members ≠ []) :
    linesText (tidyFrom true false (nodesLines 0 (Declaration.unionLines members ++ [.blank]))) =
      "  | " ++ "\n  | ".intercalate members ++ ";\n" := by
  have hbreak : "\n  | " = "\n" ++ "  | " := by decide
  have hend : ";\n" = ";" ++ "\n" := by decide
  induction members using Declaration.unionLines.induct with
  | case1 => exact absurd rfl h
  | case2 member =>
    rw [Declaration.unionLines, List.singleton_append, nodesLines, nodeLines, nodesLines,
      nodeLines, nodesLines]
    show linesText [.text 0 ("  | " ++ member ++ ";")] = _
    rw [linesText_cons, Line.render_text_zero, String.intercalate_singleton, hend]
    show "  | " ++ member ++ ";" ++ "\n" ++ "" = _
    rw [String.append_empty, String.append_assoc]
  | case3 member members hmembers ih =>
    obtain ⟨next, rest, rfl⟩ := List.exists_cons_of_ne_nil hmembers
    have hlines : Declaration.unionLines (member :: next :: rest) =
        .line ("  | " ++ member) :: Declaration.unionLines (next :: rest) := rfl
    rw [hlines, List.cons_append, nodesLines, nodeLines]
    show linesText (.text 0 ("  | " ++ member) ::
      tidyFrom true false (nodesLines 0 (Declaration.unionLines (next :: rest) ++ [.blank]))) = _
    rw [linesText_cons, Line.render_text_zero, ih (List.cons_ne_nil next rest),
      String.intercalate_cons_cons, hbreak]
    simp only [String.append_assoc]

/-- A union at the end is the end of the text, with one line for each member. -/
theorem render_typesNodes_union (config : Config) (before : List Node) (name : String)
    (members : List String) (h : members ≠ []) :
    ∃ front, render (typesNodes config
      (before ++ (Declaration.unionNodes name members ++ [.blank]))) =
      front ++ "\n" ++ unionLine name ++ "\n  | " ++ "\n  | ".intercalate members ++ ";\n" := by
  obtain ⟨rest, hrest⟩ :
      ∃ rest, typesNodes config (before ++ (Declaration.unionNodes name members ++ [.blank])) =
      .line banner :: (rest ++ .line (unionLine name) ::
        (Declaration.unionLines members ++ [.blank])) := by
    obtain ⟨member, others, rfl⟩ := List.exists_cons_of_ne_nil h
    exact ⟨.blank :: .line ("import type \x7b " ++ bytesName ++ " \x7d from " ++
      stringLiteral config.clientModule ++ ";") :: .blank :: before, rfl⟩
  have hlines :
      tidy (nodesLines 0 (typesNodes config
        (before ++ (Declaration.unionNodes name members ++ [.blank])))) =
      .text 0 banner :: tidyFrom true false (nodesLines 0 rest ++ .text 0 (unionLine name) ::
        nodesLines 0 (Declaration.unionLines members ++ [.blank])) := by
    rw [hrest, nodesLines, nodeLines, nodesLines_append, nodesLines, nodeLines]
    rfl
  obtain ⟨front, hfront⟩ := tidyFrom_append_text true false (nodesLines 0 rest) 0 (unionLine name)
    (nodesLines 0 (Declaration.unionLines members ++ [.blank]))
  obtain ⟨text, htext⟩ := exists_linesText_eq (.text 0 banner) front
  have hbreak : "\n  | " = "\n" ++ "  | " := by decide
  refine ⟨text, ?_⟩
  show linesText (tidy _) = _
  rw [hlines, hfront, ← List.cons_append, linesText_append, htext, linesText_cons,
    Line.render_text_zero, linesText_unionLines h, hbreak]
  simp only [String.append_assoc]

/-- If there are events, the text with the declarations ends in their union. -/
theorem render_typesNodes_events (config : Config) {declarations : Declarations}
    {before : List Declaration} {names : List EventName}
    (hitems : declarations.items = before ++ eventUnion names) (h : names ≠ []) :
    ∃ front, render (typesNodes config declarations.nodes) = front ++ "\n" ++
      "export type AbiEvent =" ++ "\n  | " ++
      "\n  | ".intercalate (names.map fun name ↦
        Declaration.memberText "name" (eventMember name)) ++ ";\n" := by
  have hnodes : declarations.nodes = before.flatMap Declaration.nodes ++
      (Declaration.unionNodes eventsName
      (names.map fun name ↦ Declaration.memberText "name" (eventMember name)) ++ [.blank]) := by
    rw [Declarations.nodes, hitems, List.flatMap_append, eventUnion_eq h, List.flatMap_singleton,
      Declaration.nodes, List.map_map]
    rfl
  have hline : "export type AbiEvent =" = unionLine eventsName := by decide +kernel
  rw [hnodes, hline]
  exact render_typesNodes_union config _ eventsName _ (by rwa [Ne, List.map_eq_nil_iff])

end Layout

/-! ### The text -/

theorem exportLines_typesNodes (config : Config) (declarations : List Node) :
    (typesNodes config declarations).flatMap Node.exportLines =
      declarations.flatMap Node.exportLines := by
  have hbanner : OneLine Layout.banner := by decide
  have himport : OneLine ("import type \x7b " ++ bytesName ++ " \x7d from " ++
      stringLiteral config.clientModule ++ ";") := by
    simp only [oneLine_append_iff, oneLine_stringLiteral, and_true]
    decide
  have hstart : startsExport ("import type \x7b " ++ bytesName ++ " \x7d from " ++
      stringLiteral config.clientModule ++ ";").toList = false := by
    simp only [String.toList_append, List.append_assoc]
    rfl
  simp only [typesNodes, Layout.generated, List.flatMap_append, List.flatMap_cons, List.flatMap_nil,
    exportLines_blank, exportLines_line_eq_nil hbanner (by decide),
    exportLines_line_eq_nil himport hstart, List.nil_append]

/-- The lines that start with an export are the first lines of the declarations. -/
theorem exportLines_items {manifest : Manifest} (hnd : (Table.names manifest.types).Nodup)
    {reserved : List String} {declarations : Declarations}
    (h : Declarations.of (.of manifest reserved) = .ok declarations) :
    declarations.nodes.flatMap Node.exportLines = declarations.items.map Declaration.headline := by
  obtain ⟨parts, hitems, -, -, hresolved⟩ := exists_parts h
  obtain ⟨hnames, hexported⟩ := isName_items hnd h hitems
  rw [Declarations.nodes, List.flatMap_assoc, List.map_eq_flatMap]
  exact List.flatMap_congr fun declaration hmem ↦
    Declaration.exportLines_nodes (hnames _ hmem) hexported (hresolved _ hmem)

/-- For a manifest that was obtained, and whatever settings, the lines of the text with the
declarations that start with an export are exactly those for the types, then those for the methods
with errors, then those for the events, and then, if there are events, the one of their union. The
union ends the text, with a member for each event; no two events have the same name. -/
theorem export_lines_complete {manifest : Manifest} (h : manifest.Obtained) (config : Config) :
    ∃ text typeLines errorLines eventLines,
      generateTypes manifest config = .ok text ∧
      List.Forall₂ (TypeLines (scopeOf manifest config)) manifest.types typeLines ∧
      List.Forall₂ (ErrorLines (scopeOf manifest config))
        (manifest.methods.filter fun method ↦ !method.errors.isEmpty) errorLines ∧
      List.Forall₂ (EventLines (scopeOf manifest config)) manifest.events eventLines ∧
      exportLines text = typeLines.flatten ++ errorLines.flatten ++ eventLines.flatten ++
        (if manifest.events.isEmpty then [] else ["export type AbiEvent ="]) ∧
      (manifest.events ≠ [] → ∃ front members,
        List.Forall₂ (EventMember (scopeOf manifest config)) manifest.events members ∧
        text = front ++ "\n" ++ "export type AbiEvent =" ++ "\n  | " ++
        "\n  | ".intercalate members ++ ";\n") ∧
      (manifest.events.map Event.name).Nodup := by
  obtain ⟨declarations, all, hdeclarations, hall⟩ := exists_texts h.checked config
  obtain ⟨types, errors, events, htypes, herrors, hevents, hitems, -⟩ :=
    parts_of_declarations hdeclarations
  have hmethods : (scopeOf manifest config).errorNames.map ErrorNames.method =
      manifest.methods.filter fun method ↦ !method.errors.isEmpty := method_allocateErrorNames _ _
  have hnames : (scopeOf manifest config).eventNames.map EventName.event = manifest.events :=
    map_event_allocateEventNames _ _ _
  have herrorsNe : ∀ names ∈ (scopeOf manifest config).errorNames, names.method.errors ≠ [] := by
    intro names hmem
    have hmethod := List.mem_map_of_mem (f := ErrorNames.method) hmem
    rw [hmethods, List.mem_filter] at hmethod
    simpa using hmethod.2
  -- the first lines of the declarations are the lines asked for, part by part
  refine ⟨_, types.map (·.map Declaration.headline), errors.map (·.map Declaration.headline),
    events.map (·.map Declaration.headline), (generate_eq_ok hdeclarations hall).1, ?_,
    ?_, ?_, ?_, ?_, h.checked.names .event⟩
  · rw [List.forall₂_map_right_iff]
    exact forall₂_of_mapM_eq_ok htypes fun entry _ declared hdeclared ↦ typeLines_headline hdeclared
  · rw [List.forall₂_map_right_iff, ← hmethods, List.forall₂_map_left_iff]
    exact forall₂_of_mapM_eq_ok herrors fun names hmem declared hdeclared ↦
      errorLines_headline hmem (herrorsNe names hmem) hdeclared
  · rw [List.forall₂_map_right_iff, ← hnames, List.forall₂_map_left_iff]
    exact forall₂_of_mapM_eq_ok hevents fun name hmem declared hdeclared ↦
      eventLines_headline hmem hdeclared
  · have hlines := exportLines_items (h.checked.names .type) hdeclarations
    rw [exportLines_render, exportLines_typesNodes, hlines, hitems, ← hnames, List.isEmpty_map]
    simp only [List.map_append, List.map_flatten, headline_eventUnion]
  · intro hne
    have hnamesNe : (scopeOf manifest config).eventNames ≠ [] := by
      rwa [← hnames, Ne, List.map_eq_nil_iff] at hne
    obtain ⟨front, hfront⟩ := render_typesNodes_events config hitems hnamesNe
    refine ⟨front, (scopeOf manifest config).eventNames.map fun name ↦
      Declaration.memberText "name" (eventMember name), ?_, hfront⟩
    rw [← hnames, List.forall₂_map_left_iff, List.forall₂_map_right_iff, List.forall₂_same]
    exact fun name hmem ↦ eventMember_memberText hmem

/-- A value whose names have lines that look like exports, with types of all kinds, and with events
that carry something, nothing, and a unit under another name. -/
def forging : Json :=
  .object [("schema_version", .string "wasm-abi/1"),
    ("types", .object [
      ("Nothing", .object [("kind", .string "alias"),
        ("target", .object [("kind", .string "unit")])]),
      ("Seed\nexport type Bed = 0;", .object [("kind", .string "variant"), ("variants", .array [
        .object [("name", .string "dry\nexport const dry = 0;")]])]),
      ("Bed", .object [("kind", .string "record"), ("fields", .array [
        .object [("name", .string "\nexport type Row"),
          ("type", .object [("kind", .string "string")])]])]),
      ("Loop", .object [("kind", .string "alias"), ("target", .object [("$ref", .string "Loop")])]),
      ("Hash", .object [("kind", .string "bytes"), ("size", .number (.whole 32))])]),
    ("methods", .array [
      .object [("name", .string "rest"), ("params", .array [])],
      .object [("name", .string "sow"), ("params", .array []),
        ("errors", .array [.object [("code", .string "\nexport type DRY")]])]]),
    ("events", .array [
      .object [("name", .string "Rain"), ("payload", .object [("$ref", .string "Nothing")])],
      .object [("name", .string "\nexport type Sown"),
        ("payload", .object [("$ref", .string "Bed")])]])]

theorem export_lines_complete_forging :
    ∃ manifest, Manifest.ofJsonWith (fun _ ↦ []) forging = .ok manifest ∧
      ∃ text typeLines errorLines eventLines,
        generateTypes manifest ⟨"Client", "runtime"⟩ = .ok text ∧
        List.Forall₂ (TypeLines (scopeOf manifest ⟨"Client", "runtime"⟩)) manifest.types typeLines ∧
        List.Forall₂ (ErrorLines (scopeOf manifest ⟨"Client", "runtime"⟩))
          (manifest.methods.filter fun method ↦ !method.errors.isEmpty) errorLines ∧
        List.Forall₂ (EventLines (scopeOf manifest ⟨"Client", "runtime"⟩))
          manifest.events eventLines ∧
        exportLines text = typeLines.flatten ++ errorLines.flatten ++ eventLines.flatten ++
          ["export type AbiEvent ="] := by
  obtain ⟨manifest, h⟩ : ∃ manifest, Manifest.ofJsonWith (fun _ ↦ []) forging = .ok manifest :=
    ⟨_, rfl⟩
  obtain ⟨text, typeLines, errorLines, eventLines, htext, htypes, herrors, hevents, hlines, -, -⟩ :=
    export_lines_complete (.ofJsonWith h) ⟨"Client", "runtime"⟩
  have hne : manifest.events.isEmpty = false := by
    cases h
    rfl
  rw [hne, if_neg Bool.false_ne_true] at hlines
  exact ⟨manifest, h, text, typeLines, errorLines, eventLines, htext, htypes, herrors,
    hevents, hlines⟩

end AbiBindings.Client
