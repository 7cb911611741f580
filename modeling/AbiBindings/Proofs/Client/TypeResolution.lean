import AbiBindings.Proofs.Client.Declarations
import AbiBindings.Proofs.Client.DeclaredNames
import AbiBindings.Proofs.Client.Wrappers
import AbiBindings.Proofs.TypeScript.Exports

/-!
# Types in generated texts are resolved

The types in the declarations and in the client class are made in a scope, by induction on the type
reference. A reference becomes the name under which the declarations of its entry export a type: for
a variant that is the name of its type, and not that of the object that makes its values
(`resolved_referenceExpr`). So all names in type positions are `Known` in what the declarations
export, which is followed through the declarations of types, errors and events (`exists_parts`) and
through the wrappers (`resolved_wrapper`).
-/

namespace AbiBindings.Client

open TypeScript

/-! ### Type positions -/

/-- The types in a declaration, in the order in which they are written. The function that makes the
values of a case takes the payload of the case, and gives back the type of the variant. -/
def Declaration.types : Declaration → List TypeExpr
  | interface _ members => members.map Member.type
  | typeAlias _ target => [target]
  | fixedBytes _ _ => [.name bytesName]
  | union _ _ members => members.filterMap Tagged.payload
  | factories _ payloadName cases =>
    cases.flatMap fun case ↦ case.payload.toList ++ [.name payloadName]
  | codes _ _ => []

/-- Each case of a variant has the type of the variant for its result, and its payload as an
argument. -/
theorem Declaration.mem_types_factories {name payloadName : String} {cases : List Tagged}
    {case : Tagged} (h : case ∈ cases) :
    .name payloadName ∈ (factories name payloadName cases).types ∧
      ∀ type, case.payload = some type → type ∈ (factories name payloadName cases).types :=
  ⟨List.mem_flatMap.2 ⟨case, h, by simp⟩,
    fun type htype ↦ List.mem_flatMap.2 ⟨case, h, by simp [htype]⟩⟩

/-- The type of the result of a member, if there is one. -/
def Wrapper.results (wrapper : Wrapper) :
    List TypeExpr := (wrapper.result.map WrapperResult.type).toList

/-- The type of the errors of a member, if there are some. -/
def Wrapper.errorTypes (wrapper : Wrapper) :
    List TypeExpr := (wrapper.errorType.map TypeExpr.name).toList

/-- The types in a member of a client class, in the order in which they are written: the type of the
result stands both where the member starts and where the result is given back. -/
def Wrapper.types (wrapper : Wrapper) : List TypeExpr :=
  wrapper.params.map Member.type ++ wrapper.results ++ wrapper.results ++ wrapper.errorTypes

/-- What a declaration exports. -/
def Declaration.exported : Declaration → Export
  | interface name _ => ⟨"interface", name⟩
  | typeAlias name _ | fixedBytes name _ | union name _ _ | codes name _ => ⟨"type", name⟩
  | factories name _ _ => ⟨"const", name⟩

theorem Declaration.name_exported (declaration : Declaration) :
    declaration.exported.name = declaration.name := by
  cases declaration <;> rfl

theorem Declaration.names_exported (declared : List Declaration) :
    (declared.map Declaration.exported).map Export.name = declared.map Declaration.name := by
  rw [List.map_map]
  exact List.map_congr_left fun declaration _ ↦ declaration.name_exported

/-- The types that are keywords. -/
def keywordTypes : List String := ["boolean", "number", "string", "void", "unknown"]

/-- The keywords that a type is declared with. -/
def typeKeywords : List String := ["interface", "type"]

/-- The name is a keyword, the class of byte sequences, or exported as a type. -/
def Known (exported : List Export) (name : String) : Prop :=
  name ∈ keywordTypes ∨ name = bytesName ∨ ∃ keyword ∈ typeKeywords, ⟨keyword, name⟩ ∈ exported

/-- A name that is exported as a type is known. -/
theorem known_of_type {exported : List Export} {name : String} (h : ⟨"type", name⟩ ∈ exported) :
    Known exported name :=
  .inr (.inr ⟨"type", by decide, h⟩)

/-- All names in the type are known. -/
def Resolved (exported : List Export) (type : TypeExpr) : Prop :=
  ∀ name ∈ type.names, Known exported name

theorem resolved_name_iff {exported : List Export} {name : String} :
    Resolved exported (.name name) ↔ Known exported name := by
  rw [Resolved, TypeExpr.names, List.forall_mem_singleton]

theorem resolved_bytes (exported : List Export) : Resolved exported (.name bytesName) :=
  resolved_name_iff.2 (.inr (.inl rfl))

/-- What is known stays known when more is exported. -/
theorem Resolved.mono {exported more : List Export} (hsub : exported ⊆ more) {type : TypeExpr}
    (h : Resolved exported type) : Resolved more type :=
  fun name hname ↦ (h name hname).imp_right <| .imp_right fun ⟨keyword, hkeyword, hmem⟩ ↦
    ⟨keyword, hkeyword, hsub hmem⟩

/-- The types of the declaration are resolved, and the key of a union is a word. -/
structure Declaration.Resolved (exported : List Export) (declaration : Declaration) : Prop where
  types : ∀ type ∈ declaration.types, Client.Resolved exported type
  key : ∀ name key members, declaration = .union name key members → isWord key.toList = true

/-! ### Types made in a scope -/

/-- All references become names that are known. -/
def Scope.CoveredBy (scope : Scope) (exported : List Export) : Prop :=
  ∀ name type, scope.referenceExpr name = .ok type → Resolved exported type

section Scope

variable {scope : Scope} {exported : List Export} (hscope : scope.CoveredBy exported)
include hscope

/-- A type expression names only what is known, if the names of the scope are. -/
theorem resolved_expr {type : TypeRef} {expr : TypeExpr} (h : scope.expr type = .ok expr) :
    Resolved exported expr := by
  induction type generalizing expr with
  | reference name =>
    rw [Scope.expr] at h
    exact hscope name expr h
  | scalar kind =>
    rw [Scope.expr] at h
    cases h
    refine resolved_name_iff.2 (.inl ?_)
    cases kind <;> decide
  | bytes length =>
    rw [Scope.expr] at h
    cases h
    exact resolved_bytes exported
  | list items ih =>
    simp only [Scope.expr, bind_eq_ok_iff] at h
    obtain ⟨inner, hinner, h⟩ := h
    cases h
    rw [Resolved, TypeExpr.names]
    exact ih hinner
  | map key value ihKey ihValue =>
    simp only [Scope.expr, bind_eq_ok_iff] at h
    obtain ⟨keyExpr, hkey, valueExpr, hvalue, h⟩ := h
    cases h
    rw [Resolved, TypeExpr.names, List.forall_mem_append]
    exact ⟨ihKey hkey, ihValue hvalue⟩
  | record fields ih =>
    simp only [Scope.expr, bind_eq_ok_iff] at h
    obtain ⟨members, hmembers, h⟩ := h
    cases h
    have hresolved : ∀ member ∈ members, Resolved exported member.type :=
      forall_of_memberExprs (fun field hfield _ hexpr ↦ ih field hfield hexpr) hmembers
    intro name hname
    rw [TypeExpr.names, TypeExpr.mem_memberNames_iff] at hname
    obtain ⟨member, hmember, hname⟩ := hname
    exact hresolved member hmember name hname

theorem resolved_memberExprs {members : List (Member TypeRef)} {exprs : List (Member TypeExpr)}
    (h : scope.memberExprs members = .ok exprs) :
    ∀ type ∈ exprs.map Member.type, Resolved exported type := by
  rw [List.forall_mem_map]
  exact forall_of_memberExprs (fun _ _ _ hexpr ↦ resolved_expr hscope hexpr) h

/-- The same of the payloads of cases and errors. -/
theorem resolved_taggedCases {α : Type} {tag : α → String} {payload : α → Option TypeRef}
    {cases : List α} {members : List Tagged}
    (h : cases.mapM (fun case ↦ taggedCase scope (tag case) (payload case)) = .ok members) :
    ∀ type ∈ members.filterMap Tagged.payload, Resolved exported type := by
  intro type htype
  obtain ⟨member, hmember, hpayload⟩ := List.mem_filterMap.1 htype
  obtain ⟨ref, href⟩ := exists_expr_of_taggedCases h member hmember type hpayload
  exact resolved_expr hscope href

end Scope

/-! ### Declarations -/

section Declarations

variable {exported : List Export}

theorem resolved_union {name key : String} (hkey : isWord key.toList = true) {members : List Tagged}
    (h : ∀ type ∈ members.filterMap Tagged.payload, Resolved exported type) :
    (Declaration.union name key members).Resolved exported :=
  ⟨h, fun _ _ _ heq ↦ by cases heq; exact hkey⟩

theorem resolved_typeAlias {name : String} {target : TypeExpr} (h : Resolved exported target) :
    (Declaration.typeAlias name target).Resolved exported :=
  ⟨List.forall_mem_singleton.2 h, nofun⟩

variable {scope : Scope} (hscope : scope.CoveredBy exported)
include hscope

/-- The declarations of a type name what is known, and the type of a variant among them. -/
theorem resolved_typeDeclarations {name : String} {typeDef : TypeDef} {declared : List Declaration}
    (h : typeDeclarations scope name typeDef = .ok declared)
    (hexported : ∀ declaration ∈ declared, declaration.exported ∈ exported) :
    ∀ declaration ∈ declared, declaration.Resolved exported := by
  obtain ⟨ident, -, h⟩ := bind_eq_ok_iff.1 h
  cases typeDef with
  | record fields =>
    obtain ⟨members, hmembers, h⟩ := bind_eq_ok_iff.1 h
    cases h
    exact List.forall_mem_singleton.2 ⟨resolved_memberExprs hscope hmembers, nofun⟩
  | variant cases =>
    simp only [bind_eq_ok_iff] at h
    obtain ⟨payload, -, tagged, htagged, h⟩ := h
    cases h
    have hcases := resolved_taggedCases hscope htagged
    -- what the factories give back is the type declared right before them
    have hpayload : Known exported payload := known_of_type (hexported _ List.mem_cons_self)
    have hfactories : ∀ type ∈ (Declaration.factories ident payload tagged).types,
        Resolved exported type := by
      intro type htype
      obtain ⟨case, hcase, htype⟩ := List.mem_flatMap.1 htype
      obtain htype | htype := List.mem_append.1 htype
      · exact hcases type (List.mem_filterMap.2 ⟨case, hcase, Option.mem_toList.1 htype⟩)
      · rw [List.mem_singleton.1 htype]
        exact resolved_name_iff.2 hpayload
    exact List.forall_mem_cons.2 ⟨resolved_union (by decide) hcases,
      List.forall_mem_singleton.2 ⟨hfactories, nofun⟩⟩
  | bytes length =>
    cases length with
    | any =>
      cases h
      exact List.forall_mem_singleton.2 (resolved_typeAlias (resolved_bytes exported))
    | fixed count =>
      cases h
      exact List.forall_mem_singleton.2
        ⟨List.forall_mem_singleton.2 (resolved_bytes exported), nofun⟩
  | aliasOf target =>
    dsimp only at h
    split at h
    · cases h
      have hunknown : Known exported "unknown" := .inl (by decide)
      exact List.forall_mem_singleton.2 (resolved_typeAlias (resolved_name_iff.2 hunknown))
    · obtain ⟨expr, hexpr, h⟩ := bind_eq_ok_iff.1 h
      cases h
      exact List.forall_mem_singleton.2 (resolved_typeAlias (resolved_expr hscope hexpr))

/-- The declarations of the errors of a method name what is known. -/
theorem resolved_errorDeclarations {names : ErrorNames} {declared : List Declaration}
    (h : errorDeclarations scope names = .ok declared) :
    ∀ declaration ∈ declared, declaration.Resolved exported := by
  obtain ⟨members, hmembers, h⟩ := bind_eq_ok_iff.1 h
  cases h
  exact List.forall_mem_cons.2 ⟨⟨List.forall_mem_nil _, nofun⟩,
    List.forall_mem_singleton.2 (resolved_union (by decide) (resolved_taggedCases hscope hmembers))⟩

theorem resolved_eventDeclarations {name : EventName} {declared : List Declaration}
    (h : eventDeclarations scope name = .ok declared) :
    ∀ declaration ∈ declared, declaration.Resolved exported := by
  rw [eventDeclarations] at h
  split at h
  · obtain ⟨expr, hexpr, h⟩ := bind_eq_ok_iff.1 h
    cases h
    exact List.forall_mem_singleton.2 (resolved_typeAlias (resolved_expr hscope hexpr))
  · cases h
    exact List.forall_mem_nil _

end Declarations

/-- The union of the events names their payloads, which are declared before it. -/
theorem resolved_eventUnion {exported : List Export} {names : List EventName}
    (h : ∀ name ∈ names, ∀ ident type, name.payload = some (ident, type) → Known exported ident) :
    ∀ declaration ∈ eventUnion names, declaration.Resolved exported := by
  unfold eventUnion
  split
  · exact List.forall_mem_nil _
  · refine List.forall_mem_singleton.2 (resolved_union (by decide) fun type htype ↦ ?_)
    obtain ⟨member, hmember, hpayload⟩ := List.mem_filterMap.1 htype
    obtain ⟨name, hname, rfl⟩ := List.mem_map.1 hmember
    obtain ⟨⟨ident, ref⟩, hevent, rfl⟩ := Option.map_eq_some_iff.1 hpayload
    exact resolved_name_iff.2 (h name hname ident ref hevent)

/-! ### The declarations of a manifest -/

section Items

variable {scope : Scope}

/-- A reference to an entry becomes a name that the declarations of the entry export as a type. -/
theorem resolved_referenceExpr {name : String} {typeDef : TypeDef}
    (hfind : scope.manifest.typeDef? name = some typeDef) {declared : List Declaration}
    (hdeclared : typeDeclarations scope name typeDef = .ok declared) {type : TypeExpr}
    (h : scope.referenceExpr name = .ok type) :
    Resolved (declared.map Declaration.exported) type := by
  obtain ⟨ident, hident, hdeclared⟩ := bind_eq_ok_iff.1 hdeclared
  rw [Scope.referenceExpr, hfind] at h
  cases typeDef with
  | record fields =>
    obtain ⟨members, -, hdeclared⟩ := bind_eq_ok_iff.1 hdeclared
    cases hdeclared
    obtain ⟨found, hfound, rfl⟩ := map_eq_ok_iff.1 h
    rw [hident] at hfound
    cases hfound
    exact resolved_name_iff.2 (.inr (.inr ⟨"interface", by decide, List.mem_cons_self⟩))
  | variant cases =>
    simp only [bind_eq_ok_iff] at hdeclared
    obtain ⟨payload, hpayload, tagged, -, hdeclared⟩ := hdeclared
    cases hdeclared
    obtain ⟨found, hfound, rfl⟩ := map_eq_ok_iff.1 h
    rw [hpayload] at hfound
    cases hfound
    exact resolved_name_iff.2 (known_of_type List.mem_cons_self)
  | bytes length =>
    cases h
    exact resolved_bytes _
  | aliasOf target =>
    obtain ⟨found, hfound, rfl⟩ := map_eq_ok_iff.1 h
    rw [hident] at hfound
    cases hfound
    -- an alias that stands for itself is declared under the same name
    refine resolved_name_iff.2 (known_of_type ?_)
    dsimp only at hdeclared
    split at hdeclared
    · cases hdeclared
      exact List.mem_cons_self
    · obtain ⟨expr, -, hdeclared⟩ := bind_eq_ok_iff.1 hdeclared
      cases hdeclared
      exact List.mem_cons_self

/-- What declarations export that are made in parts. -/
def exportsOf (parts : List (List Declaration)) :
    List Export := parts.flatten.map Declaration.exported

theorem mem_exportsOf {parts : List (List Declaration)} {declared : List Declaration}
    (h : declared ∈ parts) {declaration : Declaration} (hdeclaration : declaration ∈ declared) :
    declaration.exported ∈ exportsOf parts :=
  List.mem_map_of_mem (List.mem_flatten_of_mem h hdeclaration)

variable {parts : List (List Declaration)}

/-- Every reference becomes the name of a declaration of the type that it leads to. -/
theorem covered_of_types {types : List (List Declaration)}
    (h : scope.manifest.types.mapM (fun entry ↦ typeDeclarations scope entry.1 entry.2) = .ok types)
    (hparts : types ⊆ parts) : scope.CoveredBy (exportsOf parts) := by
  intro name type hreference
  cases hfind : scope.manifest.typeDef? name with
  | none =>
    rw [Scope.referenceExpr, hfind] at hreference
    cases hreference
  | some typeDef =>
    obtain ⟨declared, hmem, hdeclared⟩ :=
      exists_mem_of_mapM_eq_ok h (Table.mem_of_find?_eq_some hfind)
    refine (resolved_referenceExpr hfind hdeclared hreference).mono fun statement hstatement ↦ ?_
    obtain ⟨declaration, hdeclaration, rfl⟩ := List.mem_map.1 hstatement
    exact mem_exportsOf (hparts hmem) hdeclaration

/-- The errors of each method that has some are declared under the name that they were given. -/
theorem known_errorNames {errors : List (List Declaration)}
    (h : scope.errorNames.mapM (errorDeclarations scope) = .ok errors) (hparts : errors ⊆ parts)
    {names : ErrorNames} (hnames : names ∈ scope.errorNames) :
    Known (exportsOf parts) names.error := by
  obtain ⟨declared, hmem, hdeclared⟩ := exists_mem_of_mapM_eq_ok h hnames
  obtain ⟨members, -, hdeclared⟩ := bind_eq_ok_iff.1 hdeclared
  cases hdeclared
  exact known_of_type (mem_exportsOf (hparts hmem) (List.mem_cons_of_mem _ List.mem_cons_self))

/-- The payload of each event that has one is declared under the name that it was given. -/
theorem known_eventNames {events : List (List Declaration)}
    (h : scope.eventNames.mapM (eventDeclarations scope) = .ok events) (hparts : events ⊆ parts) :
    ∀ name ∈ scope.eventNames, ∀ ident type, name.payload = some (ident, type) →
      Known (exportsOf parts) ident := by
  intro name hname ident type hpayload
  obtain ⟨declared, hmem, hdeclared⟩ := exists_mem_of_mapM_eq_ok h hname
  rw [eventDeclarations, hpayload] at hdeclared
  obtain ⟨expr, -, hdeclared⟩ := bind_eq_ok_iff.1 hdeclared
  cases hdeclared
  exact known_of_type (mem_exportsOf (hparts hmem) List.mem_cons_self)

/-- The declarations come in parts and end in the union of all events. No type refers to the union:
all types of the declarations are resolved in what the parts export, and so are the names of
errors. -/
theorem exists_parts {declarations : Declarations} (h : Declarations.of scope = .ok declarations) :
    ∃ parts, declarations.items = parts.flatten ++ eventUnion scope.eventNames ∧
      scope.CoveredBy (exportsOf parts) ∧
      (∀ entry ∈ declarations.errorNames, Known (exportsOf parts) entry.2) ∧
      ∀ declaration ∈ declarations.items, declaration.Resolved (exportsOf parts) := by
  obtain ⟨types, errors, events, htypes, herrors, hevents, hitems, hnames⟩ :=
    parts_of_declarations h
  have hsubTypes : types ⊆ types ++ errors ++ events := by simp
  have hscope := covered_of_types htypes hsubTypes
  refine ⟨types ++ errors ++ events, ?_, hscope,
    fun entry hentry ↦ ?_, fun declaration hdeclaration ↦ ?_⟩
  · rw [hitems, List.flatten_append, List.flatten_append]
  · rw [hnames] at hentry
    obtain ⟨names, hmem, rfl⟩ := List.mem_map.1 hentry
    exact known_errorNames herrors (by simp) hmem
  · simp only [hitems, List.mem_append, List.mem_flatten] at hdeclaration
    obtain ((⟨declared, hmem, hdeclared⟩ | ⟨declared, hmem, hdeclared⟩) | ⟨declared, hmem,
        hdeclared⟩) | hdeclared :=
      hdeclaration
    · have hresolved := forall_of_mapM_eq_ok htypes fun _ _ _ htype ↦
        resolved_typeDeclarations hscope htype
      exact hresolved declared hmem (fun _ hmem' ↦ mem_exportsOf (hsubTypes hmem) hmem')
        declaration hdeclared
    · exact forall_of_mapM_eq_ok herrors
        (fun _ _ _ herror ↦ resolved_errorDeclarations hscope herror) declared hmem
        declaration hdeclared
    · exact forall_of_mapM_eq_ok hevents
        (fun _ _ _ hevent ↦ resolved_eventDeclarations hscope hevent) declared hmem
        declaration hdeclared
    · exact resolved_eventUnion (known_eventNames hevents (by simp)) declaration hdeclared

end Items

/-! ### Wrappers -/

/-- A member of the client names what is known: in its parameters, its result and its errors. -/
theorem resolved_wrapper {scope : Scope} {exported : List Export}
    (hscope : scope.CoveredBy exported) {errorNames : List (String × String)}
    (herrors : ∀ entry ∈ errorNames, Known exported entry.2) {name : String} {method : Method}
    {wrapper : Wrapper} (h : Wrapper.of scope errorNames name method = .ok wrapper) :
    ∀ type ∈ wrapper.types, Resolved exported type := by
  have hmade := Wrapper.made_of h
  simp only [Wrapper.types, List.forall_mem_append]
  have hresult : ∀ type ∈ wrapper.results, Resolved exported type := by
    intro type htype
    obtain ⟨result, hresult, rfl⟩ := Option.map_eq_some_iff.1 (Option.mem_toList.1 htype)
    obtain ⟨returned, hexpr⟩ := hmade.result_eq result hresult
    exact resolved_expr hscope hexpr
  refine ⟨⟨⟨resolved_memberExprs hscope hmade.params_eq, hresult⟩, hresult⟩, fun type htype ↦ ?_⟩
  obtain ⟨error, herror, rfl⟩ := Option.map_eq_some_iff.1 (Option.mem_toList.1 htype)
  rw [hmade.errorType_eq] at herror
  exact resolved_name_iff.2 (herrors _ (Table.mem_of_find?_eq_some herror))

end AbiBindings.Client
