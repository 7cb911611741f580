import AbiBindings.Proofs.Client.Totality
import AbiBindings.Proofs.TypeScript.Allocation
import Mathlib.Data.List.Perm.Basic

/-!
# Declared names

All names that the declarations of a manifest introduce come from one run of allocations. It starts
from the names that the generated texts use themselves, goes through the types and the variants when
the scope is made, and goes on with the errors of methods and the payloads of events when the
declarations are made. `Scope.given` lists these names with what each is given to, in the order of
the run, and `allocates_given` is the run.

What the declarations declare are these names and, where there are events, the name of their union:
nothing else, and nothing twice (`names_items_perm`).
-/

namespace AbiBindings.Client

open TypeScript NameSet

/-! ### The names that are given -/

/-- What a declared name is given to. -/
inductive Bearer where
  | type (name : String)
  /-- The type of a variant, beside the object that makes its values. -/
  | variantType (name : String)
  | errorCodes (method : String)
  | errors (method : String)
  | eventPayload (event : String)
deriving Repr, DecidableEq

/-- All that a manifest has names for: its types, once more its variants, its methods with errors
twice, and its events that carry something. -/
def bearers (manifest : Manifest) : List Bearer :=
  (Table.names manifest.types).map .type ++
    (Table.names (manifest.types.filter fun entry ↦ Scope.isVariant entry.2)).map .variantType ++
    (manifest.methods.filter fun method ↦ !method.errors.isEmpty).flatMap
      (fun method ↦ [.errorCodes method.name, .errors method.name]) ++
    (manifest.events.filter fun event ↦
      event.payload.any fun type ↦ !Alias.isUnit manifest.types type).map (.eventPayload ·.name)

namespace Scope

variable (scope : Scope)

/-- The names for the errors of the methods of the manifest. -/
def errorNames : List ErrorNames := (allocateErrorNames scope.used scope.manifest.methods).1

/-- The names for the payloads of the events of the manifest. -/
def eventNames : List EventName :=
  (allocateEventNames scope (allocateErrorNames scope.used scope.manifest.methods).2
    scope.manifest.events).1

/-- The names given in a scope, each with what it is given to. -/
def given : List (Bearer × String) :=
  scope.typeNames.map (fun entry ↦ (.type entry.1, entry.2)) ++
    scope.payloadNames.map (fun entry ↦ (.variantType entry.1, entry.2)) ++
    scope.errorNames.flatMap (fun names ↦
      [(.errorCodes names.method.name, names.code), (.errors names.method.name, names.error)]) ++
    scope.eventNames.filterMap fun name ↦
      name.payload.map fun payload ↦ (.eventPayload name.event.name, payload.1)

end Scope

/-! ### The run of allocations -/

/-- The names of the types, then those of the types of variants. -/
theorem allocates_of (manifest : Manifest) (reserved : List String) :
    Allocates (.ofList (bytesName :: eventsName :: reserved))
      ((Scope.of manifest reserved).typeNames.map Prod.snd ++
        (Scope.of manifest reserved).payloadNames.map Prod.snd)
      (Scope.of manifest reserved).used := by
  have hbases : ∀ base ∈ (Table.names manifest.types).map identifier, isIdentifier base = true := by
    intro base hbase
    obtain ⟨name, -, rfl⟩ := List.mem_map.1 hbase
    exact isIdentifier_identifier name
  have hidents := allocates_allocate (.ofList (bytesName :: eventsName :: reserved)) hbases
  have hlength := length_allocate (.ofList (bytesName :: eventsName :: reserved))
    ((Table.names manifest.types).map identifier)
  unfold Scope.of
  dsimp only
  generalize (NameSet.ofList (bytesName :: eventsName :: reserved)).allocate
    ((Table.names manifest.types).map identifier) = run at hidents hlength ⊢
  -- the base for the type of a variant is made from the name that the variant has got
  have hpayloadBases :
      ∀ base ∈ ((manifest.types.zip run.1).filter fun entry ↦ Scope.isVariant entry.1.2).map
      (fun entry ↦ entry.2 ++ "Payload"), isIdentifier base = true := by
    intro base hbase
    obtain ⟨entry, hentry, rfl⟩ := List.mem_map.1 hbase
    have hident := hidents.isIdentifier entry.2 (List.of_mem_zip (List.mem_filter.1 hentry).1).2
    exact isIdentifier_append (c := 'P') hident (by decide) (by decide) rfl
  have hpayloads := allocates_allocate run.2 hpayloadBases
  rw [List.map_snd_zip, List.map_snd_zip]
  · exact hidents.append hpayloads
  · rw [length_allocate, List.length_map, List.length_map]
  · rw [hlength, List.length_map]

/-- Both names for the errors of each method are allocated, in order. -/
theorem allocates_allocateErrorNames (used : NameSet) (methods : List Method) :
    Allocates used ((allocateErrorNames used methods).1.flatMap fun names ↦
      [names.code, names.error]) (allocateErrorNames used methods).2 := by
  induction methods generalizing used with
  | nil => exact .done used
  | cons method methods ih =>
    rw [allocateErrorNames]
    split
    · exact ih used
    · have hbase := isIdentifier_identifier (typeCase method.name)
      have hcode : isIdentifier (identifier (typeCase method.name) ++ "ErrorCode") = true :=
        isIdentifier_append (c := 'E') hbase (by decide) (by decide) rfl
      have herror : isIdentifier (identifier (typeCase method.name) ++ "Error") = true :=
        isIdentifier_append (c := 'E') hbase (by decide) (by decide) rfl
      exact .next hcode (.next herror (ih _))

/-- So is a name for each payload of an event. -/
theorem allocates_allocateEventNames (scope : Scope) (used : NameSet) (events : List Event) :
    Allocates used ((allocateEventNames scope used events).1.filterMap fun name ↦
      name.payload.map Prod.fst) (allocateEventNames scope used events).2 := by
  induction events generalizing used with
  | nil => exact .done used
  | cons event events ih =>
    rw [allocateEventNames]
    split
    · have hbase := isIdentifier_identifier (typeCase event.name)
      exact .next (isIdentifier_append (c := 'P') hbase (by decide) (by decide) rfl) (ih _)
    · exact ih used

/-- The names that are given are those of the four tables, in order. -/
theorem map_snd_given (scope : Scope) :
    scope.given.map Prod.snd =
      scope.typeNames.map Prod.snd ++ scope.payloadNames.map Prod.snd ++
        scope.errorNames.flatMap (fun names ↦ [names.code, names.error]) ++
        scope.eventNames.filterMap fun name ↦ name.payload.map Prod.fst := by
  simp only [Scope.given, List.map_append, List.map_map, List.map_flatMap, List.map_filterMap,
    Option.map_map]
  rfl

/-- All names that are given come from one run, which starts from the names that are reserved. -/
theorem allocates_given (manifest : Manifest) (reserved : List String) :
    ∃ after, Allocates (.ofList (bytesName :: eventsName :: reserved))
      ((Scope.of manifest reserved).given.map Prod.snd) after := by
  have herrors := allocates_allocateErrorNames (Scope.of manifest reserved).used manifest.methods
  have hevents := allocates_allocateEventNames (Scope.of manifest reserved)
    (allocateErrorNames (Scope.of manifest reserved).used manifest.methods).2 manifest.events
  rw [map_snd_given]
  exact ⟨_, ((allocates_of manifest reserved).append herrors).append hevents⟩

/-! ### What names are given to -/

/-- A second name is given to each variant. -/
theorem names_payloadNames_of (manifest : Manifest) (reserved : List String) :
    Table.names (Scope.of manifest reserved).payloadNames =
      Table.names (manifest.types.filter fun entry ↦ Scope.isVariant entry.2) := by
  have hlength := length_allocate (.ofList (bytesName :: eventsName :: reserved))
    ((Table.names manifest.types).map identifier)
  unfold Scope.of
  dsimp only
  generalize (NameSet.ofList (bytesName :: eventsName :: reserved)).allocate
    ((Table.names manifest.types).map identifier) = run at hlength ⊢
  rw [Table.names_zip (by rw [length_allocate, List.length_map, List.length_map])]
  have hzip : (manifest.types.zip run.1).map Prod.fst = manifest.types :=
    List.map_fst_zip (by simp [hlength, Table.names])
  calc ((manifest.types.zip run.1).filter fun entry ↦ Scope.isVariant entry.1.2).map
        (fun entry ↦ entry.1.1)
      = Table.names (((manifest.types.zip run.1).filter
          ((fun entry ↦ Scope.isVariant entry.2) ∘ Prod.fst)).map Prod.fst) := by
        rw [Table.names, List.map_map]
        rfl
    _ = Table.names (manifest.types.filter fun entry ↦ Scope.isVariant entry.2) := by
        rw [← List.filter_map, hzip]

/-- Names are given to the errors of each method that has some. -/
theorem method_allocateErrorNames (used : NameSet) (methods : List Method) :
    (allocateErrorNames used methods).1.map ErrorNames.method =
      methods.filter fun method ↦ !method.errors.isEmpty := by
  induction methods generalizing used with
  | nil => rfl
  | cons method methods ih =>
    rw [allocateErrorNames]
    split
    · rename_i hempty
      rw [ih, List.filter_cons_of_neg (by simp [hempty])]
    · rename_i hempty
      rw [List.map_cons, ih, List.filter_cons_of_pos (by simpa using hempty)]

theorem isSome_payload (scope : Scope) (payload : Option TypeRef) :
    (scope.payload payload).isSome = payload.any fun type ↦ !scope.isUnit type := by
  cases payload with
  | none => rfl
  | some type => cases h : scope.isUnit type <;> simp [Scope.payload, Option.filter, h]

/-- A name is given to the payload of each event that carries something. -/
theorem event_allocateEventNames (scope : Scope) (used : NameSet) (events : List Event) :
    (allocateEventNames scope used events).1.filterMap
        (fun name ↦ name.payload.map fun _ ↦ name.event) =
      events.filter fun event ↦ event.payload.any fun type ↦ !scope.isUnit type := by
  induction events generalizing used with
  | nil => rfl
  | cons event events ih =>
    rw [allocateEventNames, List.filter_cons, ← isSome_payload]
    split
    · rename_i type htype
      rw [htype, if_pos Option.isSome_some]
      exact congrArg (event :: ·) (ih _)
    · rename_i htype
      rw [htype, if_neg (Option.not_isSome_iff_eq_none.2 rfl)]
      exact ih used

/-- Each bearer of a name has got one, in the order in which names are given. -/
theorem map_fst_given (manifest : Manifest) (reserved : List String) :
    (Scope.of manifest reserved).given.map Prod.fst = bearers manifest := by
  have herrors : (Scope.of manifest reserved).errorNames.map ErrorNames.method = _ :=
    method_allocateErrorNames (Scope.of manifest reserved).used manifest.methods
  have hevents : (Scope.of manifest reserved).eventNames.filterMap _ = _ :=
    event_allocateEventNames (Scope.of manifest reserved)
      (allocateErrorNames (Scope.of manifest reserved).used manifest.methods).2 manifest.events
  rw [bearers, ← Scope.names_typeNames_of manifest reserved,
    ← names_payloadNames_of manifest reserved, ← herrors]
  show _ = _ ++ List.map (Bearer.eventPayload ·.name) (manifest.events.filter fun event ↦
    event.payload.any fun type ↦ !(Scope.of manifest reserved).isUnit type)
  rw [← hevents]
  simp only [Scope.given, Table.names, List.map_append, List.map_map, List.map_flatMap,
    List.map_filterMap, List.flatMap_map, Option.map_map]
  rfl

/-! ### What is declared -/

/-- Without repeated names, looking up all names of a table gives its values in order. -/
theorem filterMap_find?_names {α : Type} {entries : List (String × α)}
    (hnd : (Table.names entries).Nodup) :
    (Table.names entries).filterMap (Table.find? · entries) = entries.map Prod.snd := by
  rw [Table.names, List.filterMap_map, ← List.filterMap_eq_map]
  exact List.filterMap_congr fun entry hentry ↦ (Table.find?_eq_some_iff hnd).2 hentry

/-- The names that are declared for an entry of the type table. A variant has two, and its own comes
second. -/
def Scope.namesOf (scope : Scope) (entry : String × TypeDef) : List String :=
  (if isVariant entry.2 then Table.find? entry.1 scope.payloadNames else none).toList ++
    (Table.find? entry.1 scope.typeNames).toList

variable {scope : Scope}

theorem find?_of_typeName {name ident : String} (h : scope.typeName name = .ok ident) :
    Table.find? name scope.typeNames = some ident := by
  rw [Scope.typeName] at h
  split at h
  · rename_i found hfound
    rw [hfound, Except.ok.inj h]
  · cases h

theorem find?_of_payloadName {name ident : String} (h : scope.payloadName name = .ok ident) :
    Table.find? name scope.payloadNames = some ident := by
  rw [Scope.payloadName] at h
  split at h
  · rename_i found hfound
    rw [hfound, Except.ok.inj h]
  · cases h

/-- A type is declared under the names that it was given. -/
theorem names_typeDeclarations {name : String} {typeDef : TypeDef} {declarations : List Declaration}
    (h : typeDeclarations scope name typeDef = .ok declarations) :
    declarations.map Declaration.name = scope.namesOf (name, typeDef) := by
  obtain ⟨ident, hident, h⟩ := bind_eq_ok_iff.1 h
  rw [Scope.namesOf, find?_of_typeName hident]
  cases typeDef with
  | record fields =>
    obtain ⟨members, -, h⟩ := bind_eq_ok_iff.1 h
    cases h
    rfl
  | variant cases =>
    simp only [bind_eq_ok_iff] at h
    obtain ⟨payload, hpayload, tagged, -, h⟩ := h
    cases h
    show [payload, ident] = (Table.find? name scope.payloadNames).toList ++ [ident]
    rw [find?_of_payloadName hpayload]
    rfl
  | bytes length =>
    cases length with
    | any => cases h; rfl
    | fixed count => cases h; rfl
  | aliasOf target =>
    dsimp only at h
    split at h
    · cases h
      rfl
    · obtain ⟨expr, -, h⟩ := bind_eq_ok_iff.1 h
      cases h
      rfl

/-- So are errors. -/
theorem names_errorDeclarations {names : ErrorNames} {declarations : List Declaration}
    (h : errorDeclarations scope names = .ok declarations) :
    declarations.map Declaration.name = [names.code, names.error] := by
  obtain ⟨members, -, h⟩ := bind_eq_ok_iff.1 h
  cases h
  rfl

/-- So are the payloads of events. -/
theorem names_eventDeclarations {name : EventName} {declarations : List Declaration}
    (h : eventDeclarations scope name = .ok declarations) :
    declarations.map Declaration.name = (name.payload.map Prod.fst).toList := by
  rw [eventDeclarations] at h
  split at h
  · rename_i ident type hpayload
    obtain ⟨expr, -, h⟩ := bind_eq_ok_iff.1 h
    cases h
    rw [hpayload]
    rfl
  · rename_i hpayload
    cases h
    rw [hpayload]
    rfl

/-- The union of the events has a fixed name. It is left out if there are none. -/
theorem names_eventUnion (names : List EventName) :
    (eventUnion names).map Declaration.name = if names = [] then [] else [eventsName] := by
  cases names with
  | nil => rfl
  | cons name names => rfl

/-- The parts that the declarations of a manifest are put together from. -/
theorem parts_of_declarations {declarations : Declarations}
    (h : Declarations.of scope = .ok declarations) :
    ∃ types errors events,
      scope.manifest.types.mapM (fun entry ↦ typeDeclarations scope entry.1 entry.2) = .ok types ∧
      scope.errorNames.mapM (errorDeclarations scope) = .ok errors ∧
      scope.eventNames.mapM (eventDeclarations scope) = .ok events ∧
      declarations.items = types.flatten ++ errors.flatten ++ events.flatten ++
        eventUnion scope.eventNames ∧
      declarations.errorNames =
        scope.errorNames.map fun names ↦ (names.method.name, names.error) := by
  simp only [Declarations.of, bind_eq_ok_iff] at h
  obtain ⟨types, htypes, errors, herrors, events, hevents, h⟩ := h
  cases h
  exact ⟨types, errors, events, htypes, herrors, hevents, rfl, rfl⟩

/-- A view of all values that a list of steps gives, where it is known for each step. -/
theorem map_flatten_of_mapM {ε α β γ : Type} {f : α → Except ε (List β)} {xs : List α}
    {yss : List (List β)} {view : β → γ} {g : α → List γ} (h : xs.mapM f = .ok yss)
    (hg : ∀ x ys, f x = .ok ys → ys.map view = g x) : yss.flatten.map view = xs.flatMap g := by
  have hall := mapM_eq_ok_iff.1 h
  clear h
  induction hall with
  | nil => rfl
  | cons hxy _ ih => rw [List.flatten_cons, List.map_append, List.flatMap_cons, hg _ _ hxy, ih]

/-- Type by type, these are the names of the first two tables in another order. -/
theorem flatMap_namesOf_perm {manifest : Manifest} (hnd : (Table.names manifest.types).Nodup)
    (reserved : List String) :
    (manifest.types.flatMap (Scope.of manifest reserved).namesOf).Perm
      ((Scope.of manifest reserved).typeNames.map Prod.snd ++
        (Scope.of manifest reserved).payloadNames.map Prod.snd) := by
  have hnames := Scope.names_typeNames_of manifest reserved
  have hpayloads := names_payloadNames_of manifest reserved
  have hndPayloads : (Table.names (Scope.of manifest reserved).payloadNames).Nodup := by
    rw [hpayloads]
    exact hnd.sublist (List.filter_sublist.map Prod.fst)
  rw [← filterMap_find?_names (hnames ▸ hnd), ← filterMap_find?_names hndPayloads, hnames,
    hpayloads, Table.names,
    Table.names, List.filterMap_map, List.filterMap_map, List.filterMap_filter,
    List.filterMap_eq_flatMap_toList, List.filterMap_eq_flatMap_toList]
  exact (List.flatMap_append_perm manifest.types _ _).symm.trans List.perm_append_comm

/-- What is declared are the names that are given and, where there are events, that of their
union. -/
theorem names_items_perm {manifest : Manifest} (hnd : (Table.names manifest.types).Nodup)
    {reserved : List String} {declarations : Declarations}
    (h : Declarations.of (.of manifest reserved) = .ok declarations) :
    (declarations.items.map Declaration.name).Perm
      ((Scope.of manifest reserved).given.map Prod.snd ++
        if (Scope.of manifest reserved).eventNames = [] then [] else [eventsName]) := by
  obtain ⟨types, errors, events, htypes, herrors, hevents, hitems, -⟩ := parts_of_declarations h
  have htypes := map_flatten_of_mapM htypes fun _ _ h ↦ names_typeDeclarations h
  have herrors := map_flatten_of_mapM herrors fun _ _ h ↦ names_errorDeclarations h
  have hevents := map_flatten_of_mapM hevents fun _ _ h ↦ names_eventDeclarations h
  rw [hitems, List.map_append, List.map_append, List.map_append, htypes, herrors, hevents,
    names_eventUnion, map_snd_given, List.filterMap_eq_flatMap_toList]
  exact (((flatMap_namesOf_perm hnd reserved).append_right _).append_right _).append_right _

theorem map_event_allocateEventNames (scope : Scope) (used : NameSet) (events : List Event) :
    (allocateEventNames scope used events).1.map EventName.event = events := by
  induction events generalizing used with
  | nil => rfl
  | cons event events ih =>
    rw [allocateEventNames]
    split
    · exact congrArg (event :: ·) (ih _)
    · exact congrArg (event :: ·) (ih _)

/-- The names given to the parts of a manifest that was obtained are distinct identifiers, and none
of them is one of the names that the generated texts use themselves. The declarations declare these
names, each once, and beside them only the union of the events. -/
theorem declared_names_distinct {manifest : Manifest} (h : manifest.Obtained) (config : Config) :
    ∃ declarations, Declarations.of (scopeOf manifest config) = .ok declarations ∧
      (declarations.items.map Declaration.name).Perm
        ((scopeOf manifest config).given.map Prod.snd ++
          if manifest.events = [] then [] else ["AbiEvent"]) ∧
      (scopeOf manifest config).given.map Prod.fst = bearers manifest ∧
      ((scopeOf manifest config).given.map Prod.snd).Nodup ∧
      ∀ name ∈ (scopeOf manifest config).given.map Prod.snd, isIdentifier name = true ∧
        name ∉ ["AbiBytes", "AbiEvent", "CalimeroApp", "Context", "convertAbiBytesForWasm",
          "convertWasmResultToAbiBytes", "AbiShape", config.clientName] := by
  obtain ⟨declarations, -, hdeclarations, -⟩ := exists_texts h.checked config
  obtain ⟨after, hrun⟩ := allocates_given manifest (reservedNames config)
  have hevents : (scopeOf manifest config).eventNames = [] ↔ manifest.events = [] := by
    rw [← List.map_eq_nil_iff (f := EventName.event), Scope.eventNames,
      map_event_allocateEventNames]
    rfl
  have hperm := names_items_perm (h.checked.names .type) hdeclarations
  refine ⟨declarations, hdeclarations, ?_, map_fst_given manifest _, hrun.nodup, fun name hname ↦
    ⟨hrun.isIdentifier name hname, fun hmem ↦ hrun.not_mem_set name hname (mem_ofList_iff.2 hmem)⟩⟩
  simp only [← hevents]
  exact hperm

/-- A value whose types, method and event all ask for the names of one variant and of its type. -/
def colliding : Json :=
  .object [("schema_version", .string "wasm-abi/1"),
    ("types", .object [
      ("GrowError", .object [("kind", .string "variant"),
        ("variants", .array [.object [("name", .string "dry")]])]),
      ("Grow Error", .object [("kind", .string "record"), ("fields", .array [])]),
      ("GrowErrorPayload", .object [("kind", .string "alias"),
        ("target", .object [("kind", .string "u32")])]),
      ("AbiBytes", .object [("kind", .string "bytes")])]),
    ("methods", .array [.object [("name", .string "grow"), ("params", .array []),
      ("errors", .array [.object [("code", .string "DRY")]])]]),
    ("events", .array [.object [("name", .string "grow_error"),
      ("payload", .object [("$ref", .string "AbiBytes")])], .object [("name", .string "Rain")]])]

theorem declared_names_distinct_colliding :
    ∃ manifest, Manifest.ofJsonWith (fun _ ↦ []) colliding = .ok manifest ∧
      ∃ declarations,
      Declarations.of (scopeOf manifest ⟨"GrowErrorCode", "runtime"⟩) = .ok declarations ∧
      (declarations.items.map Declaration.name).Perm
        ((scopeOf manifest ⟨"GrowErrorCode", "runtime"⟩).given.map Prod.snd ++
          if manifest.events = [] then [] else ["AbiEvent"]) ∧
      (scopeOf manifest ⟨"GrowErrorCode", "runtime"⟩).given.map Prod.fst = bearers manifest ∧
      ((scopeOf manifest ⟨"GrowErrorCode", "runtime"⟩).given.map Prod.snd).Nodup ∧
      ∀ name ∈ (scopeOf manifest ⟨"GrowErrorCode", "runtime"⟩).given.map Prod.snd,
        isIdentifier name = true ∧
        name ∉ ["AbiBytes", "AbiEvent", "CalimeroApp", "Context", "convertAbiBytesForWasm",
          "convertWasmResultToAbiBytes", "AbiShape", "GrowErrorCode"] := by
  obtain ⟨manifest, h⟩ : ∃ manifest, Manifest.ofJsonWith (fun _ ↦ []) colliding = .ok manifest :=
    ⟨_, rfl⟩
  exact ⟨manifest, h, declared_names_distinct (.ofJsonWith h) ⟨"GrowErrorCode", "runtime"⟩⟩

end AbiBindings.Client
