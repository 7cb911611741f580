import AbiBindings.Client.Declaration
import AbiBindings.Proofs.Manifest.Occurrences
import AbiBindings.Proofs.Outcome
import AbiBindings.Proofs.Table
import AbiBindings.Proofs.TypeScript.Rendering

/-!
# Declarations are closed

A scope gives only identifiers as names (`Scope.Named`), so the type expressions made in it have
neutral texts, by induction on the type reference. A declaration is `Neutral` if the names and types
in it are; tags and keys need no condition, since they stand in literals. The nodes of a neutral
declaration are closed, and all declarations made for a manifest are neutral.
-/

namespace AbiBindings.Client

open TypeScript

/-! ### Names of a scope -/

/-- All names that the scope gives are identifiers. -/
structure Scope.Named (scope : Scope) : Prop where
  typeName : ∀ name ident, scope.typeName name = .ok ident → IsName ident
  payloadName : ∀ name ident, scope.payloadName name = .ok ident → IsName ident

/-- A lookup in a table of names against allocated names. -/
theorem isName_of_find?_zip {keys idents : List String} (h : ∀ ident ∈ idents, IsName ident)
    {name ident : String} (hfind : Table.find? name (keys.zip idents) = some ident) :
    IsName ident :=
  h ident (List.of_mem_zip (Table.mem_of_find?_eq_some hfind)).2

/-- All names in a scope are allocated from identifiers. -/
theorem Scope.named_of (manifest : Manifest) (reserved : List String) :
    (Scope.of manifest reserved).Named := by
  have hidents : ∀ ident ∈ ((NameSet.ofList (bytesName :: eventsName :: reserved)).allocate
      ((Table.names manifest.types).map identifier)).1, IsName ident := by
    refine isName_allocate (fun base hbase ↦ ?_) _
    obtain ⟨name, -, rfl⟩ := List.mem_map.1 hbase
    exact isName_identifier name
  constructor
  · intro name ident h
    rw [Scope.typeName] at h
    split at h
    · rename_i found hfind
      cases h
      exact isName_of_find?_zip hidents hfind
    · cases h
  · intro name ident h
    rw [Scope.payloadName] at h
    split at h
    · rename_i found hfind
      cases h
      -- the name of the type of a variant is made from that of the variant
      refine isName_of_find?_zip (isName_allocate (fun base hbase ↦ ?_) _) hfind
      obtain ⟨⟨entry, found⟩, hmem, rfl⟩ := List.mem_map.1 hbase
      have hfound := (List.of_mem_zip (List.mem_filter.1 hmem).1).2
      exact (hidents found hfound).append (by decide)
    · cases h

/-! ### Type expressions of a scope -/

/-- What holds of the types of members holds of their type expressions. -/
theorem forall_of_memberExprs {scope : Scope} {p : TypeExpr → Prop}
    {members : List (Member TypeRef)} {exprs : List (Member TypeExpr)}
    (hmembers : ∀ member ∈ members, ∀ expr, scope.expr member.type = .ok expr → p expr)
    (h : scope.memberExprs members = .ok exprs) : ∀ expr ∈ exprs, p expr.type := by
  induction members generalizing exprs with
  | nil =>
    rw [Scope.memberExprs] at h
    cases h
    exact nofun
  | cons member members ih =>
    obtain ⟨name, type, nullable⟩ := member
    simp only [Scope.memberExprs, bind_eq_ok_iff] at h
    obtain ⟨expr, hexpr, rest, hrest, h⟩ := h
    cases h
    intro other hother
    obtain rfl | hother := List.mem_cons.1 hother
    · exact hmembers _ List.mem_cons_self expr hexpr
    · exact ih (fun member hmember ↦ hmembers member (List.mem_cons_of_mem _ hmember))
        hrest other hother

/-- A payload that is written is the type expression of some type reference. -/
theorem exists_expr_of_taggedCases {scope : Scope} {α : Type} {tag : α → String}
    {payload : α → Option TypeRef} {cases : List α} {members : List Tagged}
    (h : cases.mapM (fun case ↦ taggedCase scope (tag case) (payload case)) = .ok members) :
    ∀ member ∈ members, ∀ expr, member.payload = some expr →
      ∃ type, scope.expr type = .ok expr := by
  refine forall_of_mapM_eq_ok h fun case _ member hcase expr hpayload ↦ ?_
  obtain ⟨found, hfound, hcase⟩ := bind_eq_ok_iff.1 hcase
  cases hcase
  obtain rfl : found = some expr := hpayload
  rw [Scope.payloadExpr] at hfound
  split at hfound
  · cases hfound
  · rename_i type _
    obtain ⟨found, hexpr, hfound⟩ := bind_eq_ok_iff.1 hfound
    cases hfound
    exact ⟨type, hexpr⟩

section Scope

variable {scope : Scope} (hscope : scope.Named)
include hscope

theorem neutral_referenceExpr {name : String} {expr : TypeExpr}
    (h : scope.referenceExpr name = .ok expr) : Neutral expr.text := by
  rw [Scope.referenceExpr] at h
  split at h
  · cases h
  · cases h
    exact .fixed rfl
  · obtain ⟨ident, hident, rfl⟩ := map_eq_ok_iff.1 h
    exact (hscope.payloadName _ _ hident).neutral
  · obtain ⟨ident, hident, rfl⟩ := map_eq_ok_iff.1 h
    exact (hscope.typeName _ _ hident).neutral
  · obtain ⟨ident, hident, rfl⟩ := map_eq_ok_iff.1 h
    exact (hscope.typeName _ _ hident).neutral

/-- Type expressions are neutral, for types whose fields have any names. -/
theorem neutral_expr {type : TypeRef} {expr : TypeExpr} (h : scope.expr type = .ok expr) :
    Neutral expr.text := by
  induction type generalizing expr with
  | reference name =>
    rw [Scope.expr] at h
    exact neutral_referenceExpr hscope h
  | scalar kind =>
    rw [Scope.expr] at h
    cases h
    cases kind <;> exact .fixed rfl
  | bytes length =>
    rw [Scope.expr] at h
    cases h
    exact .fixed rfl
  | list items ih =>
    simp only [Scope.expr, bind_eq_ok_iff] at h
    obtain ⟨inner, hinner, h⟩ := h
    cases h
    exact TypeExpr.neutral_array (ih hinner)
  | map key value ihKey ihValue =>
    simp only [Scope.expr, bind_eq_ok_iff] at h
    obtain ⟨keyExpr, hkey, valueExpr, hvalue, h⟩ := h
    cases h
    exact TypeExpr.neutral_dictionary (ihKey hkey) (ihValue hvalue)
  | record fields ih =>
    simp only [Scope.expr, bind_eq_ok_iff] at h
    obtain ⟨members, hmembers, h⟩ := h
    cases h
    have hneutral : ∀ member ∈ members, Neutral member.type.text :=
      forall_of_memberExprs (fun field hfield _ hexpr ↦ ih field hfield hexpr) hmembers
    exact TypeExpr.neutral_object hneutral

theorem neutral_memberExprs {members : List (Member TypeRef)} {exprs : List (Member TypeExpr)}
    (h : scope.memberExprs members = .ok exprs) : ∀ expr ∈ exprs, Neutral expr.type.text :=
  forall_of_memberExprs (fun _ _ _ hexpr ↦ neutral_expr hscope hexpr) h

end Scope

/-- The payload of the member is neutral. -/
def Tagged.Neutral (member : Tagged) : Prop :=
  ∀ type, member.payload = some type → TypeScript.Neutral type.text

/-- Tags are written as string literals, and payloads as type expressions. -/
theorem neutral_taggedCases {scope : Scope} (hscope : scope.Named) {α : Type} {tag : α → String}
    {payload : α → Option TypeRef} {cases : List α} {members : List Tagged}
    (h : cases.mapM (fun case ↦ taggedCase scope (tag case) (payload case)) = .ok members) :
    ∀ member ∈ members, member.Neutral := by
  intro member hmember expr hpayload
  obtain ⟨type, hexpr⟩ := exists_expr_of_taggedCases h member hmember expr hpayload
  exact neutral_expr hscope hexpr

/-! ### Nodes of a declaration -/

namespace Declaration

/-- The names and types of the declaration are neutral. -/
def Neutral : Declaration → Prop
  | interface name members =>
    TypeScript.Neutral name ∧ ∀ member ∈ members, TypeScript.Neutral member.type.text
  | typeAlias name target => TypeScript.Neutral name ∧ TypeScript.Neutral target.text
  | fixedBytes name _ | codes name _ => TypeScript.Neutral name
  | union name key members =>
    TypeScript.Neutral name ∧ TypeScript.Neutral key ∧ ∀ member ∈ members, member.Neutral
  | factories name payloadName cases =>
    TypeScript.Neutral name ∧ TypeScript.Neutral payloadName ∧ ∀ case ∈ cases, case.Neutral

theorem closed_typeLine {name target : String} (hname : TypeScript.Neutral name)
    (htarget : TypeScript.Neutral target) : (typeLine name target).Closed := by
  refine .line ?_
  simp only [String.append_assoc]
  exact Leads.append (.fixed rfl) <| .append hname <| .append (.fixed rfl) <|
    .append htarget <| .fixed rfl

theorem neutral_memberText {key : String} (hkey : TypeScript.Neutral key) {member : Tagged}
    (h : member.Neutral) : TypeScript.Neutral (memberText key member) := by
  have htag := neutral_stringLiteral member.tag
  rw [memberText]
  split
  · rename_i type htype
    simp only [String.append_assoc]
    exact Leads.append (.fixed rfl) <| .append (hkey.leads _) <| .append (.fixed rfl) <|
      .append (htag.leads _) <|
      .append (.fixed rfl) <| .append ((h type htype).leads _) <| .fixed rfl
  · simp only [String.append_assoc]
    exact Leads.append (.fixed rfl) <| .append (hkey.leads _) <| .append (.fixed rfl) <|
      .append (htag.leads _) <| .fixed rfl

/-- Each member of a union has a line of its own. -/
theorem closed_unionLines {members : List String}
    (h : ∀ member ∈ members, TypeScript.Neutral member) :
    ∀ node ∈ unionLines members, node.Closed := by
  have hbar : TypeScript.Neutral "  | " := .fixed rfl
  induction members using unionLines.induct with
  | case1 => exact nofun
  | case2 member =>
    intro node hnode
    obtain rfl := List.mem_singleton.1 hnode
    exact .line ((hbar.append (h member List.mem_cons_self)).append (.fixed rfl))
  | case3 member members hmembers ih =>
    intro node hnode
    rw [unionLines] at hnode
    · obtain rfl | hnode := List.mem_cons.1 hnode
      · exact .line (hbar.append (h member List.mem_cons_self))
      · exact ih (fun other hother ↦ h other (List.mem_cons_of_mem member hother)) node hnode
    · exact hmembers

theorem closed_unionNodes {name : String} (hname : TypeScript.Neutral name) {members : List String}
    (h : ∀ member ∈ members, TypeScript.Neutral member) :
    ∀ node ∈ unionNodes name members, node.Closed := by
  have hopening := ((Leads.fixed rfl : TypeScript.Neutral "export type ").append hname).append
    (Leads.fixed rfl : TypeScript.Neutral " =")
  unfold unionNodes
  split
  · intro node hnode
    obtain rfl := List.mem_singleton.1 hnode
    exact closed_typeLine hname (.fixed rfl)
  · intro node hnode
    obtain rfl | hnode := List.mem_cons.1 hnode
    · exact .line hopening
    · exact closed_unionLines h node hnode

/-- The object that makes the values of a variant is made up of such lines, one for each case. -/
theorem closed_factoryLine {payloadName : String} (hname : TypeScript.Neutral payloadName)
    {case : Tagged} (h : case.Neutral) : (factoryLine payloadName case).Closed := by
  have hkey := neutral_propertyKey case.tag
  have htag := neutral_stringLiteral case.tag
  rw [factoryLine]
  split
  · rename_i type htype
    refine .line ?_
    simp only [String.append_assoc]
    exact Leads.append hkey <| .append (.fixed rfl) <| .append ((h type htype).leads _) <|
      .append (.fixed rfl) <|
      .append (hname.leads _) <| .append (.fixed rfl) <| .append (htag.leads _) <| .fixed rfl
  · refine .line ?_
    simp only [String.append_assoc]
    exact Leads.append hkey <| .append (.fixed rfl) <| .append (hname.leads _) <|
      .append (.fixed rfl) <| .append (htag.leads _) <| .fixed rfl

/-- A declaration whose texts are neutral is closed: no text in it ends it or goes on after it. -/
theorem Neutral.closed_nodes {declaration : Declaration} (h : declaration.Neutral) :
    ∀ node ∈ declaration.nodes, node.Closed := by
  have hblank : ∀ node ∈ [Node.blank], node.Closed := List.forall_mem_singleton.2 .blank
  cases declaration with
  | interface name members =>
    have hopening : Leads [] ("export interface " ++ name ++ " \x7b") ['\x7d'] :=
      Leads.append (.append (.fixed rfl) h.1) (.fixed rfl)
    refine List.forall_mem_cons.2 ⟨.block hopening (fun line hline ↦ ?_) (.fixed rfl), hblank⟩
    obtain ⟨text, htext, rfl⟩ := List.mem_map.1 hline
    exact .line ((neutral_memberTexts h.2 text htext).append (.fixed rfl))
  | typeAlias name target => exact List.forall_mem_cons.2 ⟨closed_typeLine h.1 h.2, hblank⟩
  | fixedBytes name count =>
    exact List.forall_mem_cons.2
      ⟨.doc _, List.forall_mem_cons.2 ⟨closed_typeLine h (.fixed rfl), hblank⟩⟩
  | union name key members =>
    refine List.forall_mem_append.2 ⟨closed_unionNodes h.1 fun text htext ↦ ?_, hblank⟩
    obtain ⟨member, hmember, rfl⟩ := List.mem_map.1 htext
    exact neutral_memberText h.2.1 (h.2.2 member hmember)
  | factories name payloadName cases =>
    have hopening : Leads [] ("export const " ++ name ++ " = \x7b") ['\x7d'] :=
      Leads.append (.append (.fixed rfl) h.1) (.fixed rfl)
    refine List.forall_mem_cons.2 ⟨.block hopening (fun line hline ↦ ?_) (.fixed rfl), hblank⟩
    obtain ⟨case, hcase, rfl⟩ := List.mem_map.1 hline
    exact closed_factoryLine h.2.1 (h.2.2 case hcase)
  | codes name tags =>
    refine List.forall_mem_singleton.2
      (closed_typeLine h (.intercalate (.fixed rfl) fun text htext ↦ ?_))
    obtain ⟨tag, -, rfl⟩ := List.mem_map.1 htext
    exact neutral_stringLiteral tag

end Declaration

/-! ### The declarations of a manifest -/

section Manifest

variable {scope : Scope} (hscope : scope.Named)
include hscope

/-- The declarations of a type have neutral texts. -/
theorem neutral_typeDeclarations {name : String} {typeDef : TypeDef}
    {declarations : List Declaration} (h : typeDeclarations scope name typeDef = .ok declarations) :
    ∀ declaration ∈ declarations, declaration.Neutral := by
  obtain ⟨ident, hident, h⟩ := bind_eq_ok_iff.1 h
  have hname := (hscope.typeName name ident hident).neutral
  cases typeDef with
  | record fields =>
    obtain ⟨members, hmembers, h⟩ := bind_eq_ok_iff.1 h
    cases h
    exact List.forall_mem_singleton.2 ⟨hname, neutral_memberExprs hscope hmembers⟩
  | variant cases =>
    simp only [bind_eq_ok_iff] at h
    obtain ⟨payload, hpayload, tagged, htagged, h⟩ := h
    cases h
    -- the type has the name of the payload, and the object of factories that of the variant
    have hpayload := (hscope.payloadName name payload hpayload).neutral
    have hcases := neutral_taggedCases hscope htagged
    exact List.forall_mem_cons.2
      ⟨⟨hpayload, .fixed rfl, hcases⟩, List.forall_mem_singleton.2 ⟨hname, hpayload, hcases⟩⟩
  | bytes length =>
    cases length with
    | any =>
      cases h
      exact List.forall_mem_singleton.2 ⟨hname, .fixed rfl⟩
    | fixed count =>
      cases h
      exact List.forall_mem_singleton.2 hname
  | aliasOf target =>
    dsimp only at h
    split at h
    · cases h
      exact List.forall_mem_singleton.2 ⟨hname, .fixed rfl⟩
    · obtain ⟨expr, hexpr, h⟩ := bind_eq_ok_iff.1 h
      cases h
      exact List.forall_mem_singleton.2 ⟨hname, neutral_expr hscope hexpr⟩

theorem neutral_errorDeclarations {names : ErrorNames} (hcode : IsName names.code)
    (herror : IsName names.error) {declarations : List Declaration}
    (h : errorDeclarations scope names = .ok declarations) :
    ∀ declaration ∈ declarations, declaration.Neutral := by
  obtain ⟨members, hmembers, h⟩ := bind_eq_ok_iff.1 h
  cases h
  exact List.forall_mem_cons.2 ⟨hcode.neutral,
    List.forall_mem_singleton.2 ⟨herror.neutral, .fixed rfl, neutral_taggedCases hscope hmembers⟩⟩

theorem neutral_eventDeclarations {name : EventName}
    (hname : ∀ ident type, name.payload = some (ident, type) → IsName ident)
    {declarations : List Declaration} (h : eventDeclarations scope name = .ok declarations) :
    ∀ declaration ∈ declarations, declaration.Neutral := by
  rw [eventDeclarations] at h
  split at h
  · rename_i ident type hpayload
    obtain ⟨expr, hexpr, h⟩ := bind_eq_ok_iff.1 h
    cases h
    exact List.forall_mem_singleton.2 ⟨(hname ident type hpayload).neutral,
      neutral_expr hscope hexpr⟩
  · cases h
    exact nofun

end Manifest

/-- The names for errors are allocated from identifiers. -/
theorem isName_allocateErrorNames {used : NameSet} {methods : List Method} {names : ErrorNames}
    (h : names ∈ (allocateErrorNames used methods).1) : IsName names.code ∧ IsName names.error := by
  induction methods generalizing used with
  | nil => cases h
  | cons method methods ih =>
    rw [allocateErrorNames] at h
    split at h
    · exact ih h
    · obtain rfl | h := List.mem_cons.1 h
      · have hbase := isName_identifier (typeCase method.name)
        exact ⟨(hbase.append (by decide)).fresh _, (hbase.append (by decide)).fresh _⟩
      · exact ih h

theorem isName_allocateEventNames {scope : Scope} {used : NameSet} {events : List Event}
    {name : EventName} (h : name ∈ (allocateEventNames scope used events).1) {ident : String}
    {type : TypeRef} (hpayload : name.payload = some (ident, type)) : IsName ident := by
  induction events generalizing used with
  | nil => cases h
  | cons event events ih =>
    rw [allocateEventNames] at h
    split at h
    · obtain rfl | h := List.mem_cons.1 h
      · cases hpayload
        exact ((isName_identifier (typeCase event.name)).append (by decide)).fresh _
      · exact ih h
    · obtain rfl | h := List.mem_cons.1 h
      · cases hpayload
      · exact ih h

/-- Events are tagged with their names as string literals. -/
theorem neutral_eventUnion {names : List EventName}
    (h : ∀ name ∈ names, ∀ ident type, name.payload = some (ident, type) → IsName ident) :
    ∀ declaration ∈ eventUnion names, declaration.Neutral := by
  unfold eventUnion
  split
  · exact nofun
  · refine List.forall_mem_singleton.2 ⟨.fixed rfl, .fixed rfl, fun member hmember ↦ ?_⟩
    obtain ⟨name, hname, rfl⟩ := List.mem_map.1 hmember
    intro expr hexpr
    obtain ⟨⟨ident, type⟩, hpayload, rfl⟩ := Option.map_eq_some_iff.1 hexpr
    exact (h name hname ident type hpayload).neutral

/-- All that is declared for a manifest is neutral, and so are the names of its errors. -/
theorem neutral_declarations {scope : Scope} (hscope : scope.Named) {declarations : Declarations}
    (h : Declarations.of scope = .ok declarations) :
    (∀ declaration ∈ declarations.items, declaration.Neutral) ∧
      ∀ entry ∈ declarations.errorNames, IsName entry.2 := by
  simp only [Declarations.of, bind_eq_ok_iff] at h
  obtain ⟨types, htypes, errors, herrors, events, hevents, h⟩ := h
  cases h
  constructor
  · intro declaration hdeclaration
    simp only [List.mem_append, List.mem_flatten] at hdeclaration
    obtain ((⟨declared, hmem, hdeclared⟩ | ⟨declared, hmem, hdeclared⟩) | ⟨declared, hmem,
        hdeclared⟩) | hunion :=
      hdeclaration
    · exact forall_of_mapM_eq_ok htypes (fun _ _ _ h ↦ neutral_typeDeclarations hscope h)
        declared hmem declaration hdeclared
    · exact forall_of_mapM_eq_ok herrors (fun _ hnames _ h ↦ neutral_errorDeclarations hscope
        (isName_allocateErrorNames hnames).1 (isName_allocateErrorNames hnames).2 h) declared hmem
        declaration hdeclared
    · exact forall_of_mapM_eq_ok hevents (fun _ hname _ h ↦ neutral_eventDeclarations hscope
        (fun _ _ hpayload ↦ isName_allocateEventNames hname hpayload) h) declared hmem
        declaration hdeclared
    · exact neutral_eventUnion (fun _ hname _ _ hpayload ↦ isName_allocateEventNames hname hpayload)
        declaration hunion
  · intro entry hentry
    obtain ⟨names, hnames, rfl⟩ := List.mem_map.1 hentry
    exact (isName_allocateErrorNames hnames).2

end AbiBindings.Client
