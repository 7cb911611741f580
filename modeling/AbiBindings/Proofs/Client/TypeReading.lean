import AbiBindings.Proofs.Client.Emission
import AbiBindings.Proofs.Client.Totality
import AbiBindings.Proofs.TypeScript.TypeGrammar

/-!
# Type expressions are read back

What a type reference is to become in generated text is said by `Intends`: a list becomes an array,
a map a `Record`, an inline record an object type with the same fields, and everything else a single
name. A reference has the name that its entry of the type table was given (`NameOf`).

The type expression of a reference whose names are declared is the intended one (`intends_expr`).
All names in it are words (`isWord_names_expr`), so its text has it for its only tree under the
grammar of type expressions, whatever the names of the fields are.
-/

namespace AbiBindings.Client

open TypeScript

/-! ### Intended type expressions -/

/-- The name that stands for an entry of the type table. -/
inductive NameOf (scope : Scope) (name : String) : String → Prop
  | record {fields : List Field} {ident : String}
    (h : scope.manifest.typeDef? name = some (.record fields))
    (hident : (.type name, ident) ∈ scope.given) : NameOf scope name ident
  | variant {cases : List Case} {ident : String}
    (h : scope.manifest.typeDef? name = some (.variant cases))
    (hident : (.variantType name, ident) ∈ scope.given) : NameOf scope name ident
  | bytes {length : ByteLength} (h : scope.manifest.typeDef? name = some (.bytes length)) :
    NameOf scope name "AbiBytes"
  | aliasOf {target : TypeRef} {ident : String}
    (h : scope.manifest.typeDef? name = some (.aliasOf target))
    (hident : (.type name, ident) ∈ scope.given) : NameOf scope name ident

/-- The members have the same name and both allow for null or do not. -/
inductive Corresponds {σ τ : Type} (types : σ → τ → Prop) : Member σ → Member τ → Prop
  | intro (name : String) {type : σ} {other : τ} (h : types type other) (nullable : Bool) :
    Corresponds types ⟨name, type, nullable⟩ ⟨name, other, nullable⟩

/-- The type expression that a type reference is to become. All integers and floats are one type. -/
inductive Intends (scope : Scope) : TypeRef → TypeExpr → Prop
  | reference {name ident : String} (h : NameOf scope name ident) :
    Intends scope (.reference name) (.name ident)
  | boolean : Intends scope (.scalar .bool) (.name "boolean")
  | number {kind : ScalarKind} (h : kind ∈ [.i32, .i64, .u32, .u64, .f32, .f64]) :
    Intends scope (.scalar kind) (.name "number")
  | string : Intends scope (.scalar .string) (.name "string")
  | unit : Intends scope (.scalar .unit) (.name "void")
  | bytes (length : ByteLength) : Intends scope (.bytes length) (.name "AbiBytes")
  | list {items : TypeRef} {tree : TypeExpr} (h : Intends scope items tree) :
    Intends scope (.list items) (.array tree)
  | map {key value : TypeRef} {keyTree valueTree : TypeExpr} (hkey : Intends scope key keyTree)
    (hvalue : Intends scope value valueTree) :
    Intends scope (.map key value) (.dictionary keyTree valueTree)
  | record {fields : List Field} {members : List (Member TypeExpr)}
    (h : List.Forall₂ (Corresponds (Intends scope)) fields members) :
    Intends scope (.record fields) (.object members)

section Scope

variable {scope : Scope}

/-- A reference is written as a name that the scope has for what it leads to. -/
theorem nameOf_referenceExpr {name : String} {expr : TypeExpr}
    (h : scope.referenceExpr name = .ok expr) :
    ∃ ident, expr = .name ident ∧ NameOf scope name ident := by
  unfold Scope.referenceExpr at h
  split at h
  · cases h
  · rename_i length hfind
    cases h
    exact ⟨bytesName, rfl, .bytes hfind⟩
  · rename_i cases hfind
    obtain ⟨ident, hident, rfl⟩ := map_eq_ok_iff.1 h
    exact ⟨ident, rfl, .variant hfind (mem_given_of_payloadName hident)⟩
  · rename_i fields hfind
    obtain ⟨ident, hident, rfl⟩ := map_eq_ok_iff.1 h
    exact ⟨ident, rfl, .record hfind (mem_given_of_typeName hident)⟩
  · rename_i target hfind
    obtain ⟨ident, hident, rfl⟩ := map_eq_ok_iff.1 h
    exact ⟨ident, rfl, .aliasOf hfind (mem_given_of_typeName hident)⟩

/-- The members that fields become correspond to them, if their types do. -/
theorem forall₂_memberExprs {types : TypeRef → TypeExpr → Prop} {fields : List Field}
    {members : List (Member TypeExpr)}
    (hfields : ∀ field ∈ fields, ∀ expr, scope.expr field.type = .ok expr → types field.type expr)
    (h : scope.memberExprs fields = .ok members) :
    List.Forall₂ (Corresponds types) fields members := by
  induction fields generalizing members with
  | nil =>
    rw [Scope.memberExprs] at h
    cases h
    exact .nil
  | cons field fields ih =>
    obtain ⟨name, type, nullable⟩ := field
    simp only [Scope.memberExprs, bind_eq_ok_iff] at h
    obtain ⟨expr, hexpr, rest, hrest, h⟩ := h
    cases h
    obtain ⟨hfield, hfields⟩ := List.forall_mem_cons.1 hfields
    exact .cons (.intro name (hfield expr hexpr) nullable) (ih hfields hrest)

/-- The names of scalars are those that are intended. -/
theorem intends_scalarName (scope : Scope) (kind : ScalarKind) :
    Intends scope (.scalar kind) (.name (Scope.scalarName kind)) := by
  cases kind with
  | bool => exact .boolean
  | string => exact .string
  | unit => exact .unit
  | i32 | i64 | u32 | u64 | f32 | f64 => exact .number (by decide)

/-- Type expressions are written as intended, by induction on the type. -/
theorem intends_expr {type : TypeRef} {expr : TypeExpr} (h : scope.expr type = .ok expr) :
    Intends scope type expr := by
  induction type generalizing expr with
  | reference name =>
    rw [Scope.expr] at h
    obtain ⟨ident, rfl, hident⟩ := nameOf_referenceExpr h
    exact .reference hident
  | scalar kind =>
    rw [Scope.expr] at h
    cases h
    exact intends_scalarName scope kind
  | bytes length =>
    rw [Scope.expr] at h
    cases h
    exact .bytes length
  | list items ih =>
    simp only [Scope.expr, bind_eq_ok_iff] at h
    obtain ⟨inner, hinner, h⟩ := h
    cases h
    exact .list (ih hinner)
  | map key value ihKey ihValue =>
    simp only [Scope.expr, bind_eq_ok_iff] at h
    obtain ⟨keyExpr, hkey, valueExpr, hvalue, h⟩ := h
    cases h
    exact .map (ihKey hkey) (ihValue hvalue)
  | record fields ih =>
    simp only [Scope.expr, bind_eq_ok_iff] at h
    obtain ⟨members, hmembers, h⟩ := h
    cases h
    exact .record (forall₂_memberExprs (fun field hfield _ hexpr ↦ ih field hfield hexpr) hmembers)

/-! ### Names are words -/

/-- References become names that are given in the scope. -/
theorem coveredBy_given (scope : Scope) :
    scope.CoveredBy (scope.given.map fun entry ↦ ⟨"type", entry.2⟩) := by
  intro name type h
  obtain ⟨ident, rfl, hident⟩ := nameOf_referenceExpr h
  cases hident with
  | bytes => exact resolved_bytes _
  | record _ hgiven | variant _ hgiven | aliasOf _ hgiven =>
    exact resolved_name_iff.2 (known_of_type (List.mem_map_of_mem hgiven))

end Scope

/-- All names in them are words. -/
theorem isWord_names_expr (manifest : Manifest) (reserved : List String) {type : TypeRef}
    {expr : TypeExpr} (h : (Scope.of manifest reserved).expr type = .ok expr) :
    ∀ name ∈ expr.names, isWord name.toList = true := by
  intro name hname
  have hkeywords : ∀ keyword ∈ bytesName :: keywordTypes, isWord keyword.toList = true := by decide
  obtain hkeyword | rfl | ⟨keyword, -, hgiven⟩ := resolved_expr (coveredBy_given _) h name hname
  · exact hkeywords name (List.mem_cons_of_mem _ hkeyword)
  · exact hkeywords bytesName List.mem_cons_self
  · obtain ⟨after, hrun⟩ := allocates_given manifest reserved
    obtain ⟨entry, hentry, heq⟩ := List.mem_map.1 hgiven
    cases heq
    exact (Bool.and_eq_true_iff.1 (hrun.isIdentifier _ (List.mem_map_of_mem hentry))).1

/-! ### Reading back -/

/-- A type reference whose names are declared has a type expression. It is the one that is intended,
and its text is read as that expression and as no other. -/
theorem parses_expr_iff (manifest : Manifest) (reserved : List String) {type : TypeRef}
    {location : String} (h : Resolves manifest.types ⟨type, location⟩) :
    ∃ expr, (Scope.of manifest reserved).expr type = .ok expr ∧
      Intends (Scope.of manifest reserved) type expr ∧
      ∀ tree, Parses expr.text tree ↔ tree = expr := by
  obtain ⟨expr, hexpr⟩ := exists_expr (Scope.complete_of manifest reserved) h
  exact ⟨expr, hexpr, intends_expr hexpr, fun tree ↦
    TypeExpr.parses_text_iff (isWord_names_expr manifest reserved hexpr)⟩

theorem resolves_of_all {types : List (String × TypeDef)} {type : TypeRef} {location : String}
    (h : (type.occurrences location).all
      (fun found ↦ found.type.referenceName?.all (Table.names types).contains) = true) :
    Resolves types ⟨type, location⟩ := by
  intro place name label hoccurs
  have hmem := (type.listsInOrder_occurrences location).mem_iff.2 ⟨place, hoccurs⟩
  exact List.contains_iff_mem.1 (List.all_eq_true.1 h _ hmem)

/-- A type named as the built-in `Record`, and one of each other kind. -/
def kinds : Manifest where
  version := Manifest.supportedVersion
  types := [("Record", .record []), ("choice", .variant []), ("blob", .bytes .any),
    ("null", .aliasOf (.scalar .unit))]
  methods := []
  events := []

/-- An inline record whose field names look like the text around them. -/
def disguised : TypeRef :=
  .map (.scalar .string) (.list (.record
    [⟨"a\"; b | null", .list (.map (.reference "Record") (.reference "null")), true⟩,
      ⟨"\x7d[]\\", .reference "choice", true⟩,
      ⟨"null", .list (.list (.reference "blob")), false⟩,
      ⟨"number", .map (.scalar .string) (.list (.scalar .f64)), true⟩,
      ⟨"boolean | null", .scalar .bool, false⟩,
      ⟨"", .record [], false⟩]))

theorem parses_expr_iff_disguised :
    Resolves kinds.types ⟨disguised, "here"⟩ ∧
      ∃ expr, (Scope.of kinds []).expr disguised = .ok expr ∧
      Intends (Scope.of kinds []) disguised expr ∧
        ∀ tree, Parses expr.text tree ↔ tree = expr := by
  have hresolves : Resolves kinds.types ⟨disguised, "here"⟩ := resolves_of_all (by decide)
  exact ⟨hresolves, parses_expr_iff kinds [] hresolves⟩

end AbiBindings.Client
