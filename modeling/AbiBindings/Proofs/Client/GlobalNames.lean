import AbiBindings.Proofs.Client.CircularAliases
import AbiBindings.Proofs.TypeScript.AllocationRun

/-!
# Declared names and global names

Generated code uses names that it neither declares nor imports, such as `Record` and `Error`. No
name of the generated texts is kept clear of these, so a declaration can take one away.

A name that is given is made from an identifier and the ending for what it is given to, with a
number after it if the name is taken (`made_of_given`). A global name ends neither in a number nor
in one of these endings after an identifier, so it is only given to the type that has it for a name
already. Such a type gets its own name, unless the client class has it: the name is free from the
start, and a name that is asked for and free is given to someone (`mem_allocate_of_mem`).
-/

namespace AbiBindings.TypeScript.NameSet

/-! ### Bases of allocated names -/

theorem fresh_eq_self {set : NameSet} {base : String} (h : base ∉ set.names) :
    set.fresh base = base :=
  (set.firstFree_fresh base).of_free h

/-- Of the names that are asked for, those that are free are given. -/
theorem mem_allocate_of_mem {set : NameSet} {bases : List String} {base : String} (h : base ∈ bases)
    (hfree : base ∉ set.names) : base ∈ (set.allocate bases).1 := by
  induction bases generalizing set with
  | nil => cases h
  | cons first bases ih =>
    rw [allocate]
    by_cases hfirst : base = set.fresh first
    · exact hfirst ▸ List.mem_cons_self
    · obtain rfl | h := List.mem_cons.1 h
      · exact absurd (fresh_eq_self hfree).symm hfirst
      · exact List.mem_cons_of_mem _ (ih h fun htaken ↦ (mem_insert_iff.1 htaken).elim hfirst hfree)

theorem forall₂_allocate (set : NameSet) (bases : List String) :
    List.Forall₂ (fun base name ↦ ∃ k, name = candidate base k) bases (set.allocate bases).1 := by
  induction bases generalizing set with
  | nil => exact .nil
  | cons base bases ih =>
    obtain ⟨k, heq, -⟩ := set.exists_fresh_eq base
    exact .cons ⟨k, heq⟩ (ih _)

/-- A name that does not end in a digit has no number. -/
theorem eq_of_candidate_eq {base name : String} {k : Nat} (h : candidate base k = name)
    (hname : ∀ c, name.toList.getLast? = some c → c.isDigit = false) : base = name := by
  cases k with
  | zero => exact h
  | succ k =>
    obtain ⟨front, c, hdigits⟩ :=
      List.eq_nil_or_concat (Nat.toDigits 10 (k + 2)) |>.resolve_left Nat.toDigits_ne_nil
    have hlast : name.toList.getLast? = some c := by
      rw [← h, candidate, String.toList_append]
      simp [hdigits]
    have hdigit : c.isDigit = true :=
      Nat.isDigit_of_mem_toDigits (b := 10) (n := k + 2) (by decide) (by decide)
      (by simp [hdigits])
    rw [hname c hlast] at hdigit
    cases hdigit

end AbiBindings.TypeScript.NameSet

namespace AbiBindings.Client

open TypeScript NameSet

/-! ### What names are made from -/

/-- What a name is made from for its bearer: an identifier, an ending that tells what the name is
for, and perhaps a number. -/
inductive Bearer.Made : Bearer → String → Prop
  | type (name : String) (k : Nat) : Made (.type name) (candidate (identifier name) k)
  | variantType (name : String) {own : String} (hown : isIdentifier own = true) (k : Nat) :
    Made (.variantType name) (candidate (own ++ "Payload") k)
  | errorCodes (method : String) (k : Nat) :
    Made (.errorCodes method) (candidate (identifier (typeCase method) ++ "ErrorCode") k)
  | errors (method : String) (k : Nat) :
    Made (.errors method) (candidate (identifier (typeCase method) ++ "Error") k)
  | eventPayload (event : String) (k : Nat) :
    Made (.eventPayload event) (candidate (identifier (typeCase event) ++ "Payload") k)

theorem made_typeNames {manifest : Manifest} {reserved : List String} {name ident : String}
    (h : (name, ident) ∈ (Scope.of manifest reserved).typeNames) :
    (Bearer.type name).Made ident := by
  have hall := forall₂_allocate (.ofList (bytesName :: eventsName :: reserved))
    ((Table.names manifest.types).map identifier)
  rw [List.forall₂_map_left_iff] at hall
  obtain ⟨k, rfl⟩ := List.forall₂_zip hall h
  exact .type name k

theorem made_payloadNames {manifest : Manifest} {reserved : List String} {name ident : String}
    (h : (name, ident) ∈ (Scope.of manifest reserved).payloadNames) :
    (Bearer.variantType name).Made ident := by
  have hbases : ∀ base ∈ (Table.names manifest.types).map identifier, isIdentifier base = true :=
    List.forall_mem_map.2 fun name _ ↦ isIdentifier_identifier name
  have hidents := allocates_allocate (.ofList (bytesName :: eventsName :: reserved)) hbases
  unfold Scope.of at h
  dsimp only at h
  generalize (NameSet.ofList (bytesName :: eventsName :: reserved)).allocate
    ((Table.names manifest.types).map identifier) = run at hidents h
  have hall := forall₂_allocate run.2
    (((manifest.types.zip run.1).filter fun entry ↦ Scope.isVariant entry.1.2).map
    fun entry ↦ entry.2 ++ "Payload")
  rw [List.forall₂_map_left_iff] at hall
  rw [List.zip_map_left] at h
  obtain ⟨⟨entry, payload⟩, hentry, heq⟩ := List.mem_map.1 h
  obtain ⟨k, rfl⟩ := List.forall₂_zip hall hentry
  cases heq
  have hvariant := (List.mem_filter.1 (List.of_mem_zip hentry).1).1
  exact .variantType _ (hidents.isIdentifier _ (List.of_mem_zip hvariant).2) k

theorem made_errorNames {used : NameSet} {methods : List Method} {names : ErrorNames}
    (h : names ∈ (allocateErrorNames used methods).1) :
    (Bearer.errorCodes names.method.name).Made names.code ∧
      (Bearer.errors names.method.name).Made names.error := by
  induction methods generalizing used with
  | nil => cases h
  | cons method methods ih =>
    rw [allocateErrorNames] at h
    split at h
    · exact ih h
    · obtain rfl | h := List.mem_cons.1 h
      · dsimp only
        obtain ⟨j, hj, -⟩ := used.exists_fresh_eq (identifier (typeCase method.name) ++ "ErrorCode")
        obtain ⟨k, hk, -⟩ := (used.insert
          (used.fresh (identifier (typeCase method.name) ++ "ErrorCode"))).exists_fresh_eq
            (identifier (typeCase method.name) ++ "Error")
        rw [hk, hj]
        exact ⟨.errorCodes method.name j, .errors method.name k⟩
      · exact ih h

theorem made_eventNames {scope : Scope} {used : NameSet} {events : List Event} {name : EventName}
    (h : name ∈ (allocateEventNames scope used events).1) {ident : String} {type : TypeRef}
    (hpayload : name.payload = some (ident, type)) :
    (Bearer.eventPayload name.event.name).Made ident := by
  induction events generalizing used with
  | nil => cases h
  | cons event events ih =>
    rw [allocateEventNames] at h
    split at h
    · obtain rfl | h := List.mem_cons.1 h
      · cases hpayload
        obtain ⟨k, hk, -⟩ := used.exists_fresh_eq (identifier (typeCase event.name) ++ "Payload")
        rw [hk]
        exact .eventPayload event.name k
      · exact ih h
    · obtain rfl | h := List.mem_cons.1 h
      · cases hpayload
      · exact ih h

/-- Every name that is given is made for what it is given to. -/
theorem made_of_given {manifest : Manifest} {reserved : List String} {bearer : Bearer}
    {ident : String} (h : (bearer, ident) ∈ (Scope.of manifest reserved).given) :
    bearer.Made ident := by
  simp only [Scope.given, List.mem_append, List.mem_map, List.mem_flatMap, List.mem_filterMap] at h
  obtain ((⟨entry, hentry, heq⟩ | ⟨entry, hentry, heq⟩) | ⟨names, hnames, hmem⟩) | ⟨name,
      hname, hmap⟩ := h
  · cases heq
    exact made_typeNames hentry
  · cases heq
    exact made_payloadNames hentry
  · obtain ⟨hcode, herror⟩ := made_errorNames hnames
    obtain heq | hmem := List.mem_cons.1 hmem
    · cases heq
      exact hcode
    · cases List.mem_singleton.1 hmem
      exact herror
  · obtain ⟨⟨own, type⟩, hpayload, heq⟩ := Option.map_eq_some_iff.1 hmap
    cases heq
    exact made_eventNames hname hpayload

/-! ### Global names -/

/-- The names that generated code uses and that are there everywhere. -/
def globalNames : List String :=
  ["Record", "Promise", "Error", "Array", "Object", "Uint8Array", "parseInt"]

/-- No other name is made into an identifier without underscores. -/
theorem identifier_eq_iff {word : String} (hself : identifier word = word)
    (hscore : '_' ∉ word.toList) {name : String} : identifier name = word ↔ name = word := by
  constructor
  · intro h
    exact eq_of_identifier_eq h hscore
  · rintro rfl
    exact hself

theorem identifier_eq_global_iff {global : String} (hglobal : global ∈ globalNames)
    {name : String} : identifier name = global ↔ name = global := by
  have hall : ∀ global ∈ globalNames, identifier global = global ∧ '_' ∉ global.toList := by decide
  exact identifier_eq_iff (hall global hglobal).1 (hall global hglobal).2

/-- The names that the generated texts use themselves, beside that of the client class, are not
global. -/
theorem not_mem_fixed_of_global {global : String} (hglobal : global ∈ globalNames) :
    global ∉ [bytesName, eventsName] ∧
      global ∉ Runtime.imports ++ [Runtime.toWire, Runtime.fromWire, Runtime.shapeType] := by
  have hall : ∀ global ∈ globalNames, global ∉ [bytesName, eventsName] ∧
      global ∉ Runtime.imports ++ [Runtime.toWire, Runtime.fromWire, Runtime.shapeType] := by decide
  exact hall global hglobal

theorem base_of_candidate_mem_globalNames {base : String} {k : Nat}
    (h : candidate base k ∈ globalNames) : candidate base k = base := by
  have hdigits : ∀ global ∈ globalNames, global.toList.getLast?.any Char.isDigit =
      false := by decide
  refine (eq_of_candidate_eq rfl fun c hc ↦ ?_).symm
  have hdigit := hdigits _ h
  rwa [hc] at hdigit

/-- After an identifier, none of the endings makes a global name. -/
theorem append_not_mem_globalNames {front ending : String} (hfront : isIdentifier front = true)
    (hending : ending ∈ ["Payload", "ErrorCode", "Error"]) : front ++ ending ∉ globalNames := by
  have hsuffix : ∀ ending ∈ ["Payload", "ErrorCode", "Error"], ∀ global ∈ globalNames,
      ending.toList <:+ global.toList → global = ending := by decide
  intro hglobal
  have heq := hsuffix ending hending _ hglobal ⟨front.toList, by rw [String.toList_append]⟩
  rw [String.append_eq_right_iff] at heq
  subst heq
  exact absurd hfront (by decide)

/-- A global name is only made for a type that has it for a name. -/
theorem Bearer.Made.eq_type {bearer : Bearer} {global : String} (h : bearer.Made global)
    (hglobal : global ∈ globalNames) : bearer = .type global := by
  have hending {front ending : String} {k : Nat} (hfront : isIdentifier front = true)
      (hending : ending ∈ ["Payload", "ErrorCode", "Error"]) :
      candidate (front ++ ending) k ∉ globalNames := by
    intro hmem
    rw [base_of_candidate_mem_globalNames hmem] at hmem
    exact append_not_mem_globalNames hfront hending hmem
  cases h with
  | type name k =>
    have hbase := base_of_candidate_mem_globalNames hglobal
    rw [hbase] at hglobal ⊢
    exact congrArg Bearer.type ((identifier_eq_global_iff hglobal).1 rfl)
  | variantType name hown k => exact absurd hglobal (hending hown (by decide))
  | errorCodes method k => exact absurd hglobal (hending (isIdentifier_identifier _) (by decide))
  | errors method k => exact absurd hglobal (hending (isIdentifier_identifier _) (by decide))
  | eventPayload event k => exact absurd hglobal (hending (isIdentifier_identifier _) (by decide))

/-- A name of a type that is an identifier and not reserved is given to some type. -/
theorem exists_typeNames_of_free {manifest : Manifest} {reserved : List String} {name : String}
    (hname : name ∈ Table.names manifest.types) (hidentifier : identifier name = name)
    (hfree : name ∉ bytesName :: eventsName :: reserved) :
    ∃ other, (other, name) ∈ (Scope.of manifest reserved).typeNames := by
  have hbase : name ∈ (Table.names manifest.types).map identifier :=
    List.mem_map.2 ⟨name, hname, hidentifier⟩
  have hmem := mem_allocate_of_mem hbase fun htaken ↦ hfree (mem_ofList_iff.1 htaken)
  have hlength := length_allocate (.ofList (bytesName :: eventsName :: reserved))
    ((Table.names manifest.types).map identifier)
  rw [List.length_map] at hlength
  rw [← List.map_snd_zip (Nat.le_of_eq hlength)] at hmem
  obtain ⟨⟨other, ident⟩, hzip, rfl⟩ := List.mem_map.1 hmem
  exact ⟨other, hzip⟩

/-- A global name is given exactly to the type that has it for a name, unless it is reserved. -/
theorem global_mem_given_iff {manifest : Manifest} {reserved : List String} {global : String}
    (hglobal : global ∈ globalNames) (bearer : Bearer) :
    (bearer, global) ∈ (Scope.of manifest reserved).given ↔
      bearer = .type global ∧ global ∈ Table.names manifest.types ∧ global ∉ reserved := by
  constructor
  · intro hgiven
    obtain rfl := (made_of_given hgiven).eq_type hglobal
    have hbearer : .type global ∈ bearers manifest :=
      map_fst_given manifest reserved ▸ List.mem_map_of_mem hgiven
    obtain ⟨after, hrun⟩ := allocates_given manifest reserved
    refine ⟨rfl, by simpa [bearers] using hbearer, fun hreserved ↦ ?_⟩
    exact hrun.not_mem_set global (List.mem_map_of_mem hgiven)
      (mem_ofList_iff.2 (List.mem_cons_of_mem _ (List.mem_cons_of_mem _ hreserved)))
  · rintro ⟨rfl, hname, hfree⟩
    have hfixed := (not_mem_fixed_of_global hglobal).1
    obtain ⟨other, hother⟩ :=
      exists_typeNames_of_free hname ((identifier_eq_global_iff hglobal).2 rfl)
      (List.not_mem_append (s := [bytesName, eventsName]) hfixed hfree)
    cases (made_typeNames hother).eq_type hglobal
    simp only [Scope.given, List.mem_append, List.mem_map]
    exact .inl (.inl (.inl ⟨_, hother, rfl⟩))

theorem global_not_mem_reservedNames_iff {global : String} (hglobal : global ∈ globalNames)
    {config : Config} : global ∉ reservedNames config ↔ config.clientName ≠ global := by
  have hsplit : reservedNames config =
      Runtime.imports ++ [Runtime.toWire, Runtime.fromWire, Runtime.shapeType] ++
        [config.clientName] := rfl
  have hfixed := (not_mem_fixed_of_global hglobal).2
  rw [hsplit, List.mem_append, or_iff_right hfixed, List.mem_singleton, ← ne_eq, ne_comm]

/-- Among the declarations, a global name is that of a type. -/
theorem global_mem_items_iff {manifest : Manifest} (hnd : (Table.names manifest.types).Nodup)
    {reserved : List String} {declarations : Declarations}
    (h : Declarations.of (.of manifest reserved) = .ok declarations) {global : String}
    (hglobal : global ∈ globalNames) :
    global ∈ declarations.items.map Declaration.name ↔ global ∈ Table.names manifest.types ∧
      global ∉ reserved := by
  have hevents : global ≠ eventsName :=
    fun heq ↦ (not_mem_fixed_of_global hglobal).1 (by simp [heq])
  have hunion : global ∉
      if (Scope.of manifest reserved).eventNames = [] then [] else [eventsName] := by
    split
    · exact List.not_mem_nil
    · exact fun hmem ↦ hevents (List.mem_singleton.1 hmem)
  rw [(names_items_perm hnd h).mem_iff, List.mem_append, or_iff_left hunion, List.mem_map]
  constructor
  · rintro ⟨⟨bearer, ident⟩, hgiven, rfl⟩
    exact ((global_mem_given_iff hglobal bearer).1 hgiven).2
  · intro htype
    exact ⟨(.type global, global), (global_mem_given_iff hglobal _).2 ⟨rfl, htype⟩, rfl⟩

/-- Which global names the generated texts declare. The text with the declarations has those that
are names of types, except for the name of the client class; in the text with the client class, that
name comes to them. Only a type of that name is declared under a global name. -/
theorem exports_global_iff {manifest : Manifest} (h : manifest.Obtained)
    (className importPath : String) (config : Config)
    (hconfig : config = { Config.named className with importPath }) :
    ∃ types client, generate manifest config = .ok ⟨types, client⟩ ∧
      ∀ global ∈ globalNames,
        (∀ bearer, (bearer, global) ∈ (scopeOf manifest config).given ↔
          bearer = .type global ∧ global ∈ Table.names manifest.types ∧ className ≠ global) ∧
        (global ∈ (exports types).map Export.name ↔ global ∈ Table.names manifest.types ∧
          className ≠ global) ∧
        (global ∈ (exports client).map Export.name ↔ global ∈ Table.names manifest.types ∨
          className = global) := by
  have hname : config.clientName = identifier className := by rw [hconfig]; rfl
  obtain ⟨declarations, all, hdeclarations, hall⟩ := exists_texts h.checked config
  obtain ⟨parts, hitems, -, -, hresolved⟩ := exists_parts hdeclarations
  have htypes := exports_types h.checked hdeclarations hitems hresolved
  have hclient := exports_client h.checked (hname ▸ isName_identifier className) hdeclarations
    hitems hresolved hall
  rw [← List.append_assoc] at hclient
  refine ⟨_, _, (generate_eq_ok hdeclarations hall).2.2, ?_⟩
  generalize Layout.render (typesNodes config declarations.nodes) = types at htypes ⊢
  generalize Layout.render (clientNodes config declarations.nodes all) = client at hclient ⊢
  have hexported :
      exportsOf parts ++
        (eventUnion (scopeOf manifest config).eventNames).map Declaration.exported =
      declarations.items.map Declaration.exported := by
    rw [hitems, List.map_append, exportsOf]
  -- nothing fixed has the name of a global, so only a type or the class of the client can have it
  intro global hglobal
  have hreserved : global ∉ reservedNames config ↔ className ≠ global := by
    rw [global_not_mem_reservedNames_iff hglobal, Ne, hname, identifier_eq_global_iff hglobal]
  have hitem := global_mem_items_iff (h.checked.names .type) hdeclarations hglobal
  rw [hreserved] at hitem
  rw [htypes, hclient, hexported, List.map_append, List.mem_append,
    Declaration.names_exported, hitem]
  refine ⟨fun bearer ↦ ?_, Iff.rfl, ?_⟩
  · rw [← hreserved]
    exact global_mem_given_iff hglobal bearer
  · have hbytes : global ≠ bytesName :=
      fun heq ↦ (not_mem_fixed_of_global hglobal).1 (by simp [heq])
    have hclasses : global ∈ [bytesName, config.clientName] ↔ className = global := by
      rw [List.mem_cons, or_iff_right hbytes, List.mem_singleton, eq_comm, hname,
        identifier_eq_global_iff hglobal]
    simp only [List.map_cons, List.map_nil, hclasses]
    by_cases heq : className = global <;> simp [heq]

/-- A value with types that have the names of an error and of a promise. -/
def errorsAndPromises : Json :=
  .object [("schema_version", .string "wasm-abi/1"),
    ("types", .object [
      ("Error", .object [("kind", .string "variant"),
        ("variants", .array [.object [("name", .string "lost")]])]),
      ("Promise", .object [("kind", .string "record"), ("fields", .array [])])]),
    ("methods", .array [.object [("name", .string "_"), ("params", .array []),
      ("errors", .array [.object [("code", .string "E"),
        ("payload", .object [("$ref", .string "Error")])]])]]),
    ("events", .array [])]

theorem exports_global_iff_errorsAndPromises :
    ∃ manifest types client, Manifest.ofJson errorsAndPromises = .ok manifest ∧
      generate manifest { Config.named "Promise" with importPath := "runtime" } =
        .ok ⟨types, client⟩ ∧
      "Error" ∈ (exports types).map Export.name ∧ "Promise" ∉ (exports types).map Export.name ∧
      "Promise" ∈ (exports client).map Export.name ∧
      "Record" ∉ (exports client).map Export.name := by
  obtain ⟨manifest, h⟩ : ∃ manifest, Manifest.ofJson errorsAndPromises = .ok manifest := ⟨_, rfl⟩
  have hnames : Table.names manifest.types = ["Error", "Promise"] := by
    cases h
    rfl
  obtain ⟨types, client, hgenerate, hglobals⟩ :=
    exports_global_iff (.ofJsonWith h) "Promise" "runtime" _ rfl
  rw [hnames] at hglobals
  obtain ⟨-, herrorTypes, -⟩ := hglobals "Error" (by decide)
  obtain ⟨-, hpromiseTypes, hpromiseClient⟩ := hglobals "Promise" (by decide)
  obtain ⟨-, -, hrecordClient⟩ := hglobals "Record" (by decide)
  exact ⟨manifest, types, client, h, hgenerate, herrorTypes.2 (by decide),
    fun hmem ↦ absurd (hpromiseTypes.1 hmem) (by decide), hpromiseClient.2 (by decide),
    fun hmem ↦ absurd (hrecordClient.1 hmem) (by decide)⟩

/-- A value with a record type that is named `Record`, and an alias of a map. -/
def namedRecord : Json :=
  .object [("schema_version", .string "wasm-abi/1"),
    ("types", .object [
      ("Record", .object [("kind", .string "record"), ("fields", .array [])]),
      ("Index", .object [("kind", .string "alias"), ("target", .object [("kind", .string "map"),
        ("key", .object [("kind", .string "string")]),
        ("value", .object [("kind", .string "u32")])])])]),
    ("methods", .array []), ("events", .array [])]

/-- The map is written with the name of the record type, which is no longer the global one. -/
theorem namedRecord_captures :
    ∃ manifest types client, Manifest.ofJson namedRecord = .ok manifest ∧
      generate manifest {} = .ok ⟨types, client⟩ ∧
      exportLines types = ["export interface Record \x7b\x7d",
        "export type Index = Record<string, number>;"] ∧
      (.type "Record", "Record") ∈ (scopeOf manifest {}).given := by
  let manifest : Manifest := ⟨"wasm-abi/1", [("Record", .record []),
    ("Index", .aliasOf (.map (.scalar .string) (.scalar .u32)))], [], []⟩
  let record : Declaration := .interface "Record" []
  let index : Declaration := .typeAlias "Index" (.dictionary (.name "string") (.name "number"))
  have hread : Manifest.ofJson namedRecord = .ok manifest := rfl
  have hdeclarations : Declarations.of (scopeOf manifest {}) = .ok ⟨[record, index], []⟩ := rfl
  have hchecked := (Manifest.Obtained.ofJsonWith hread).checked
  have hnd : (Table.names manifest.types).Nodup := hchecked.names .type
  obtain ⟨found, all, hfound, hall⟩ := exists_texts hchecked {}
  obtain rfl : found = ⟨[record, index], []⟩ := Except.ok.inj (hfound.symm.trans hdeclarations)
  have hheadlines : [record, index].map Declaration.headline =
      ["export interface Record \x7b\x7d", "export type Index = Record<string, number>;"] := by
      decide +kernel
  refine ⟨manifest, _, _, hread, (generate_eq_ok hfound hall).2.2, ?_, List.mem_cons_self⟩
  rw [exportLines_render, exportLines_typesNodes, ← hheadlines]
  exact exportLines_items hnd hfound

end AbiBindings.Client
