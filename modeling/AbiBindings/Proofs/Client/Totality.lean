import AbiBindings.Client.Generate
import AbiBindings.Proofs.Manifest.Obtained
import AbiBindings.Proofs.TypeScript.Allocation

/-!
# Generation never fails on a manifest that was obtained

Generation asks a scope for the name of a type, the name of a variant's type, or the definition of a
name, and fails where the scope has none. A scope made for a manifest has all of them for every
entry of the type table (`Scope.complete_of`), so generation can only fail at a reference that leads
nowhere.

`Resolves` says of one occurrence that all references in it lead to entries; each rule of
`Document.Occurs` gives it for one position of the manifest, and the generators look at no other
positions.
-/

namespace AbiBindings.Client

open TypeScript NameSet

/-! ### Complete scopes -/

namespace Scope

/-- The scope has a name for every entry of the type table, and for every variant one more. -/
structure Complete (scope : Scope) : Prop where
  typeName : ∀ name ∈ Table.names scope.manifest.types, ∃ ident, scope.typeName name = .ok ident
  payloadName : ∀ name cases, (name, .variant cases) ∈ scope.manifest.types →
    ∃ ident, scope.payloadName name = .ok ident

@[simp] theorem of_manifest (manifest : Manifest) (reserved : List String) :
    (of manifest reserved).manifest = manifest := rfl

theorem names_typeNames_of (manifest : Manifest) (reserved : List String) :
    Table.names (of manifest reserved).typeNames = Table.names manifest.types := by
  refine Table.names_zip ?_
  rw [length_allocate, List.length_map]

theorem mem_names_payloadNames_of {manifest : Manifest} (reserved : List String) {name : String}
    {cases : List Case} (h : (name, .variant cases) ∈ manifest.types) :
    name ∈ Table.names (of manifest reserved).payloadNames := by
  have hlength : (((NameSet.ofList (bytesName :: eventsName :: reserved)).allocate
      ((Table.names manifest.types).map identifier)).1).length = manifest.types.length := by
    rw [length_allocate, List.length_map, Table.names, List.length_map]
  set idents := ((NameSet.ofList (bytesName :: eventsName :: reserved)).allocate
    ((Table.names manifest.types).map identifier)).1 with hidents
  -- the entry stands against some name, and that pair is kept as one of a variant
  obtain ⟨i, hi, hget⟩ := List.getElem_of_mem h
  have hpair : ((name, TypeDef.variant cases), idents[i]) ∈ manifest.types.zip idents := by
    rw [← hget]
    exact List.mem_iff_getElem.2 ⟨i, by simp [hlength, hi], by simp⟩
  show name ∈ Table.names (List.zip _ _)
  rw [Table.names_zip (by rw [length_allocate, List.length_map, List.length_map])]
  refine List.mem_map.2 ⟨_, List.mem_filter.2 ⟨hpair, rfl⟩, rfl⟩

/-- A scope has a name for each type, and a second one for each variant. -/
theorem complete_of (manifest : Manifest) (reserved : List String) :
    (of manifest reserved).Complete where
  typeName name hname := by
    rw [of_manifest, ← names_typeNames_of manifest reserved] at hname
    obtain ⟨ident, hident⟩ := Table.exists_find?_eq_some hname
    exact ⟨ident, by rw [typeName, hident]⟩
  payloadName name cases h := by
    rw [of_manifest] at h
    obtain ⟨ident, hident⟩ := Table.exists_find?_eq_some (mem_names_payloadNames_of reserved h)
    exact ⟨ident, by rw [payloadName, hident]⟩

end Scope

/-! ### Type expressions -/

/-- All references inside an occurrence lead to entries of the type table. -/
def Resolves (types : List (String × TypeDef)) (occurrence : Occurrence) : Prop :=
  ∀ place name location, OccursIn occurrence place ⟨.reference name, location⟩ →
    name ∈ Table.names types

variable {scope : Scope}

/-- A name that is defined has a type expression. -/
theorem exists_referenceExpr (hscope : scope.Complete) {name : String}
    (h : name ∈ Table.names scope.manifest.types) :
    ∃ type, scope.referenceExpr name = .ok type := by
  obtain ⟨typeDef, hfind⟩ := Table.exists_find?_eq_some h
  obtain ⟨ident, hident⟩ := hscope.typeName name h
  rw [Scope.referenceExpr, Manifest.typeDef?, hfind]
  cases typeDef with
  | record fields => exact ⟨_, by rw [hident]; rfl⟩
  | variant cases =>
    obtain ⟨payload, hpayload⟩ := hscope.payloadName name cases (Table.mem_of_find?_eq_some hfind)
    exact ⟨_, by rw [hpayload]; rfl⟩
  | bytes length => exact ⟨_, rfl⟩
  | aliasOf target => exact ⟨_, by rw [hident]; rfl⟩

theorem exists_memberExprs {members : List (Member TypeRef)}
    (h : ∀ member ∈ members, ∃ type, scope.expr member.type = .ok type) :
    ∃ exprs, scope.memberExprs members = .ok exprs := by
  induction members with
  | nil => exact ⟨[], by rw [Scope.memberExprs]⟩
  | cons member members ih =>
    obtain ⟨type, htype⟩ := h member List.mem_cons_self
    obtain ⟨exprs, hexprs⟩ := ih fun other hother ↦ h other (List.mem_cons_of_mem member hother)
    refine ⟨⟨member.name, type, member.nullable⟩ :: exprs, ?_⟩
    rw [Scope.memberExprs, htype, hexprs]
    rfl

/-- A type has a type expression if all names in it are defined. -/
theorem exists_expr (hscope : scope.Complete) {type : TypeRef} {location : String}
    (h : Resolves scope.manifest.types ⟨type, location⟩) : ∃ expr, scope.expr type = .ok expr := by
  induction type generalizing location with
  | reference name =>
    rw [Scope.expr]
    exact exists_referenceExpr hscope (h [] name location (.here _))
  | scalar kind => exact ⟨_, by rw [Scope.expr]⟩
  | bytes length => exact ⟨_, by rw [Scope.expr]⟩
  | list items ih =>
    obtain ⟨expr, hexpr⟩ := ih fun place name label hoccurs ↦ h _ name label (.items hoccurs)
    exact ⟨_, by rw [Scope.expr, hexpr]; rfl⟩
  | map key value ihKey ihValue =>
    obtain ⟨keyExpr, hkey⟩ := ihKey fun place name label hoccurs ↦ h _ name label (.key hoccurs)
    obtain ⟨valueExpr, hvalue⟩ :=
      ihValue fun place name label hoccurs ↦ h _ name label (.value hoccurs)
    exact ⟨_, by rw [Scope.expr, hkey, hvalue]; rfl⟩
  | record fields ih =>
    have hfields : ∀ field ∈ fields, ∃ expr, scope.expr field.type = .ok expr := by
      intro field hfield
      obtain ⟨i, hi⟩ := List.mem_iff_getElem?.1 hfield
      exact ih field hfield fun place name label hoccurs ↦ h _ name label (.field hi hoccurs)
    obtain ⟨exprs, hexprs⟩ := exists_memberExprs hfields
    exact ⟨_, by rw [Scope.expr, hexprs]; rfl⟩

/-- A payload is left out or has a type expression. -/
theorem exists_payloadExpr (hscope : scope.Complete) {payload : Option TypeRef} {location : String}
    (h : ∀ type, payload = some type → Resolves scope.manifest.types ⟨type, location⟩) :
    ∃ expr, scope.payloadExpr payload = .ok expr := by
  rw [Scope.payloadExpr]
  split
  · exact ⟨none, rfl⟩
  · rename_i type htype
    obtain ⟨expr, hexpr⟩ := exists_expr hscope (h type (Option.filter_eq_some_iff.1 htype).1)
    exact ⟨some expr, by rw [hexpr]; rfl⟩

/-- So has a payload, and it needs none if it is left out. -/
theorem exists_taggedCase (hscope : scope.Complete) (tag : String) {payload : Option TypeRef}
    {location : String}
    (h : ∀ type, payload = some type → Resolves scope.manifest.types ⟨type, location⟩) :
    ∃ tagged, taggedCase scope tag payload = .ok tagged := by
  obtain ⟨expr, hexpr⟩ := exists_payloadExpr hscope h
  exact ⟨⟨tag, expr⟩, by rw [taggedCase, hexpr]; rfl⟩

/-! ### Positions of a manifest -/

section Positions

variable {manifest : Manifest} (h : manifest.toDocument.ReferencesResolve)
include h

/-- In a manifest that passed the checks, the names in a parameter are defined. -/
theorem resolves_param {method : Method} (hmethod : method ∈ manifest.methods) {param : Parameter}
    (hparam : param ∈ method.params) :
    Resolves manifest.types ⟨param.type, "method." ++ method.name ++ ".param." ++ param.name⟩ := by
  obtain ⟨m, hm⟩ := List.mem_iff_getElem?.1 hmethod
  obtain ⟨p, hp⟩ := List.mem_iff_getElem?.1 hparam
  exact fun place name location hoccurs ↦ h _ name location (.method hm (.param hp hoccurs))

/-- The same of what a method returns. -/
theorem resolves_returns {method : Method} (hmethod : method ∈ manifest.methods) {type : TypeRef}
    (htype : method.returns = some type) :
    Resolves manifest.types ⟨type, "method." ++ method.name ++ ".returns"⟩ := by
  obtain ⟨m, hm⟩ := List.mem_iff_getElem?.1 hmethod
  exact fun place name location hoccurs ↦
    h _ name location (.method hm (.returns ⟨type, htype, hoccurs⟩))

/-- The same of the payload of an error. -/
theorem resolves_error {method : Method} (hmethod : method ∈ manifest.methods) {error : MethodError}
    (herror : error ∈ method.errors) {type : TypeRef} (htype : error.payload = some type) :
    Resolves manifest.types ⟨type, "method." ++ method.name ++ ".error." ++ error.code⟩ := by
  obtain ⟨m, hm⟩ := List.mem_iff_getElem?.1 hmethod
  obtain ⟨e, he⟩ := List.mem_iff_getElem?.1 herror
  exact fun place name location hoccurs ↦
    h _ name location (.method hm (.error he ⟨type, htype, hoccurs⟩))

/-- The same of the payload of an event. -/
theorem resolves_event {event : Event} (hevent : event ∈ manifest.events) {type : TypeRef}
    (htype : event.payload = some type) :
    Resolves manifest.types ⟨type, "event." ++ event.name⟩ := by
  obtain ⟨e, he⟩ := List.mem_iff_getElem?.1 hevent
  exact fun place name location hoccurs ↦ h _ name location (.event he ⟨type, htype, hoccurs⟩)

/-- The same of a field of a record in the type table. -/
theorem resolves_field {typeName : String} {fields : List Field}
    (hentry : (typeName, .record fields) ∈ manifest.types) {field : Field}
    (hfield : field ∈ fields) :
    Resolves manifest.types ⟨field.type, "type." ++ typeName ++ ".field." ++ field.name⟩ := by
  obtain ⟨t, ht⟩ := List.mem_iff_getElem?.1 hentry
  obtain ⟨f, hf⟩ := List.mem_iff_getElem?.1 hfield
  exact fun place name location hoccurs ↦ h _ name location (.type ht (.field hf hoccurs))

/-- The same of the payload of a case in the type table. -/
theorem resolves_case {typeName : String} {cases : List Case}
    (hentry : (typeName, .variant cases) ∈ manifest.types) {case : Case} (hcase : case ∈ cases)
    {type : TypeRef} (htype : case.payload = some type) :
    Resolves manifest.types ⟨type, "type." ++ typeName ++ ".variant." ++ case.name⟩ := by
  obtain ⟨t, ht⟩ := List.mem_iff_getElem?.1 hentry
  obtain ⟨c, hc⟩ := List.mem_iff_getElem?.1 hcase
  exact fun place name location hoccurs ↦
    h _ name location (.type ht (.case hc ⟨type, htype, hoccurs⟩))

/-- The same of what an alias stands for. -/
theorem resolves_target {typeName : String} {target : TypeRef}
    (hentry : (typeName, .aliasOf target) ∈ manifest.types) :
    Resolves manifest.types ⟨target, "type." ++ typeName ++ ".target"⟩ := by
  obtain ⟨t, ht⟩ := List.mem_iff_getElem?.1 hentry
  exact fun place name location hoccurs ↦ h _ name location (.type ht (.target hoccurs))

end Positions

/-! ### Declarations -/

section Declarations

variable (hscope : scope.Complete) (h : scope.manifest.toDocument.ReferencesResolve)
include hscope h

/-- Each entry of the type table is declared. -/
theorem exists_typeDeclarations {name : String} {typeDef : TypeDef}
    (hentry : (name, typeDef) ∈ scope.manifest.types) :
    ∃ declarations, typeDeclarations scope name typeDef = .ok declarations := by
  rw [typeDeclarations]
  refine exists_bind_eq_ok (hscope.typeName name (Table.mem_names_iff.2 ⟨typeDef, hentry⟩))
    fun ident ↦ ?_
  cases typeDef with
  | record fields =>
    have hfields := exists_memberExprs fun field hfield ↦
      exists_expr hscope (resolves_field h hentry hfield)
    exact exists_bind_eq_ok hfields fun _ ↦ ⟨_, rfl⟩
  | variant cases =>
    have hcases := exists_mapM_eq_ok fun case hcase ↦
      exists_taggedCase hscope (Case.name case) fun _ htype ↦ resolves_case h hentry hcase htype
    exact exists_bind_eq_ok (hscope.payloadName name cases hentry) fun payload ↦
      exists_bind_eq_ok hcases fun _ ↦ ⟨_, rfl⟩
  | bytes length => cases length <;> exact ⟨_, rfl⟩
  | aliasOf target =>
    dsimp only
    split
    · exact ⟨_, rfl⟩
    · exact exists_bind_eq_ok (exists_expr hscope (resolves_target h hentry)) fun _ ↦ ⟨_, rfl⟩

theorem exists_errorCases {method : Method} (hmethod : method ∈ scope.manifest.methods) :
    ∃ cases, method.errors.mapM (fun error ↦ taggedCase scope error.code error.payload) =
      .ok cases :=
  exists_mapM_eq_ok fun error herror ↦
    exists_taggedCase hscope error.code fun _ htype ↦ resolves_error h hmethod herror htype

/-- The errors of each method are declared. -/
theorem exists_errorDeclarations {names : ErrorNames}
    (hmethod : names.method ∈ scope.manifest.methods) :
    ∃ declarations, errorDeclarations scope names = .ok declarations :=
  exists_bind_eq_ok (exists_errorCases hscope h hmethod) fun _ ↦ ⟨_, rfl⟩

theorem exists_eventDeclarations {name : EventName} (hevent : name.event ∈ scope.manifest.events)
    (hpayload : ∀ ident type, name.payload = some (ident, type) → name.event.payload = some type) :
    ∃ declarations, eventDeclarations scope name = .ok declarations := by
  rw [eventDeclarations]
  split
  · rename_i ident type heq
    exact exists_bind_eq_ok (exists_expr hscope (resolves_event h hevent (hpayload ident type heq)))
      fun _ ↦ ⟨_, rfl⟩
  · exact ⟨[], rfl⟩

end Declarations

/-- Errors are named for methods of the list only. -/
theorem method_mem_of_mem_allocateErrorNames {used : NameSet} {methods : List Method}
    {names : ErrorNames} (h : names ∈ (allocateErrorNames used methods).1) :
    names.method ∈ methods := by
  induction methods generalizing used with
  | nil => cases h
  | cons method methods ih =>
    rw [allocateErrorNames] at h
    split at h
    · exact List.mem_cons_of_mem method (ih h)
    · obtain rfl | h := List.mem_cons.1 h
      · exact List.mem_cons_self
      · exact List.mem_cons_of_mem method (ih h)

/-- Payloads are named for events of the list only, and each stands for what its event carries. -/
theorem event_mem_of_mem_allocateEventNames {used : NameSet} {events : List Event}
    {name : EventName} (h : name ∈ (allocateEventNames scope used events).1) :
    name.event ∈ events ∧ ∀ ident type, name.payload = some (ident, type) →
      name.event.payload = some type := by
  induction events generalizing used with
  | nil => cases h
  | cons event events ih =>
    rw [allocateEventNames] at h
    split at h
    · rename_i type htype
      obtain rfl | h := List.mem_cons.1 h
      · refine ⟨List.mem_cons_self, fun ident other heq ↦ ?_⟩
        obtain ⟨-, rfl⟩ := Prod.mk.inj (Option.some.inj heq)
        exact (Option.filter_eq_some_iff.1 htype).1
      · exact (ih h).imp_left (List.mem_cons_of_mem event)
    · obtain rfl | h := List.mem_cons.1 h
      · exact ⟨List.mem_cons_self, nofun⟩
      · exact (ih h).imp_left (List.mem_cons_of_mem event)

section Texts

variable (hscope : scope.Complete) (h : scope.manifest.toDocument.ReferencesResolve)
include hscope h

/-- A manifest that passed the checks has declarations. -/
theorem exists_declarations : ∃ declarations, Declarations.of scope = .ok declarations := by
  have htypes := exists_mapM_eq_ok fun entry hentry ↦ exists_typeDeclarations hscope h hentry
  refine exists_bind_eq_ok htypes fun types ↦ exists_bind_eq_ok ?errors fun errors ↦
    exists_bind_eq_ok ?events fun events ↦ ⟨_, rfl⟩
  case errors =>
    exact exists_mapM_eq_ok fun names hnames ↦
      exists_errorDeclarations hscope h (method_mem_of_mem_allocateErrorNames hnames)
  case events =>
    refine exists_mapM_eq_ok fun name hname ↦ ?_
    obtain ⟨hevent, hpayload⟩ := event_mem_of_mem_allocateEventNames hname
    exact exists_eventDeclarations hscope h hevent hpayload

/-- Each of its methods has a member in the client. -/
theorem exists_wrapper (errorNames : List (String × String)) (name : String) {method : Method}
    (hmethod : method ∈ scope.manifest.methods) :
    ∃ wrapper, Wrapper.of scope errorNames name method = .ok wrapper := by
  have hparams := exists_memberExprs fun param hparam ↦
    exists_expr hscope (resolves_param h hmethod hparam)
  have hrest (make : List Tagged → List (Member TypeExpr) → Wrapper) :=
    exists_bind_eq_ok (exists_errorCases hscope h hmethod) fun errors ↦
      exists_bind_eq_ok hparams fun params ↦ ⟨make errors params, rfl⟩
  rw [Wrapper.of]
  split
  · rename_i type htype
    have hreturns := (Option.filter_eq_some_iff.1 htype).1
    exact exists_bind_eq_ok (exists_expr hscope (resolves_returns h hmethod hreturns))
      fun _ ↦ hrest _
  · exact hrest _

theorem exists_wrappers (errorNames : List (String × String)) :
    ∃ all, wrappers scope errorNames = .ok all :=
  exists_mapM_eq_ok fun _ hentry ↦ exists_wrapper hscope h errorNames _ (List.of_mem_zip hentry).2

end Texts

/-! ### Generated texts -/

/-- A manifest that passed the checks has both texts, whatever the settings. -/
theorem exists_texts {manifest : Manifest} (h : manifest.Checked) (config : Config) :
    ∃ declarations all, Declarations.of (scopeOf manifest config) = .ok declarations ∧
      wrappers (scopeOf manifest config) declarations.errorNames = .ok all := by
  have hscope : (scopeOf manifest config).Complete :=
    Scope.complete_of manifest (reservedNames config)
  obtain ⟨declarations, hdeclarations⟩ := exists_declarations hscope h.references
  obtain ⟨all, hall⟩ := exists_wrappers hscope h.references declarations.errorNames
  exact ⟨declarations, all, hdeclarations, hall⟩

/-- Declarations and wrappers make up the generated texts. -/
theorem generate_eq_ok {manifest : Manifest} {config : Config} {declarations : Declarations}
    {all : List Wrapper}
    (hdeclarations : Declarations.of (scopeOf manifest config) = .ok declarations)
    (hall : wrappers (scopeOf manifest config) declarations.errorNames = .ok all) :
    generateTypes manifest config = .ok (Layout.render (typesNodes config declarations.nodes)) ∧
      generateClient manifest config =
        .ok (Layout.render (clientNodes config declarations.nodes all)) ∧
      generate manifest config = .ok ⟨Layout.render (typesNodes config declarations.nodes),
        Layout.render (clientNodes config declarations.nodes all)⟩ := by
  have htypes : generateTypes manifest config = .ok _ :=
    bind_eq_ok_iff.2 ⟨declarations, hdeclarations, rfl⟩
  have hclient : generateClient manifest config = .ok _ :=
    bind_eq_ok_iff.2 ⟨declarations, hdeclarations, bind_eq_ok_iff.2 ⟨all, hall, rfl⟩⟩
  refine ⟨htypes, hclient, ?_⟩
  rw [generate, htypes, hclient]
  rfl

/-- A manifest obtained in whichever way, from a value or from a text, has generated texts for all
settings: neither the declarations nor the client class meet a name that is not declared or not a
variant. -/
theorem generate_total {manifest : Manifest} (h : manifest.Obtained) (config : Config) :
    ∃ types client, generateTypes manifest config = .ok types ∧
      generateClient manifest config = .ok client ∧
      generate manifest config = .ok ⟨types, client⟩ := by
  obtain ⟨declarations, all, hdeclarations, hall⟩ := exists_texts h.checked config
  exact ⟨_, _, generate_eq_ok hdeclarations hall⟩

/-- A value with a variant that contains itself and an alias that stands for itself. -/
def selfReferring : Json :=
  .object [("schema_version", .string "wasm-abi/1"),
    ("types", .object [
      ("Tree", .object [("kind", .string "variant"), ("variants", .array [
        .object [("name", .string "leaf")],
        .object [("name", .string "node"), ("payload", .object [("$ref", .string "Tree")])]])]),
      ("Loop", .object [("kind", .string "alias"),
        ("target", .object [("$ref", .string "Loop")])])]),
    ("methods", .array [.object [("name", .string "plant"), ("params", .array [
      .object [("name", .string "trees"),
        ("type", .object [("kind", .string "list"),
          ("items", .object [("$ref", .string "Tree")])])]])]]),
    ("events", .array [.object [("name", .string "Grown"),
      ("payload", .object [("$ref", .string "Loop")])]])]

theorem generate_total_selfReferring :
    ∃ manifest, Manifest.ofJsonWith (fun _ ↦ []) selfReferring = .ok manifest ∧
      ∃ types client, generateTypes manifest ⟨"it's", "a\nb"⟩ = .ok types ∧
        generateClient manifest ⟨"it's", "a\nb"⟩ = .ok client ∧
        generate manifest ⟨"it's", "a\nb"⟩ = .ok ⟨types, client⟩ := by
  obtain ⟨manifest, h⟩ : ∃ manifest, Manifest.ofJsonWith (fun _ ↦ []) selfReferring =
      .ok manifest := ⟨_, rfl⟩
  exact ⟨manifest, h, generate_total (.ofJsonWith h) ⟨"it's", "a\nb"⟩⟩

end AbiBindings.Client
