import AbiBindings.Proofs.Client.Emission
import AbiBindings.Proofs.Manifest.AliasCycles

/-!
# Circular aliases in generated texts

A declared type is resolved at once where its name stands bare in another declaration: alone, or as
an argument of `Record`. In an array or an object type it is resolved later. So the declarations of
types form a graph, with an edge to each name that stands bare (`Refers`), and a type on a cycle of
that graph has no meaning.

Names are given to one thing each, so a cycle goes through the names of aliases only, and follows
what these aliases expose to each other (`exposes_of_refers`, `refers_of_exposes`). An alias that
stands for itself by way of other aliases is declared as `unknown` and is on no cycle. One that
comes back to itself through a map is not guarded, and is.
-/

namespace AbiBindings.Client

open TypeScript Alias

/-! ### The graph of declarations -/

/-- The names that stand bare in a type expression: alone or as an argument of `Record`. -/
def bareNamesOf : TypeExpr → List String
  | .name name => [name]
  | .dictionary key value => bareNamesOf key ++ bareNamesOf value
  | .array _ | .object _ => []

/-- The names that stand bare in a declaration. -/
def Declaration.bareNames : Declaration → List String
  | typeAlias _ target => bareNamesOf target
  | fixedBytes _ _ => [bytesName]
  | interface _ _ | union _ _ _ | factories _ _ _ | codes _ _ => []

/-- The name of a declared type stands bare in the declaration of another one. -/
def Refers (items : List Declaration) (ident other : String) : Prop :=
  (∃ declaration ∈ items, declaration.exported = ⟨"type", ident⟩ ∧ other ∈ declaration.bareNames) ∧
    ∃ declaration ∈ items, declaration.exported = ⟨"type", other⟩

/-! ### Types made in a scope -/

section Scope

variable {scope : Scope}

theorem referenceExpr_eq_name {name : String} {expr : TypeExpr}
    (h : scope.referenceExpr name = .ok expr) :
    ∃ ident, expr = .name ident ∧
      (ident = bytesName ∨ scope.payloadName name = .ok ident ∨
        scope.typeName name = .ok ident) := by
  unfold Scope.referenceExpr at h
  split at h
  · cases h
  · cases h
    exact ⟨bytesName, rfl, .inl rfl⟩
  · obtain ⟨ident, hident, rfl⟩ := map_eq_ok_iff.1 h
    exact ⟨ident, rfl, .inr (.inl hident)⟩
  all_goals
    obtain ⟨ident, hident, rfl⟩ := map_eq_ok_iff.1 h
    exact ⟨ident, rfl, .inr (.inr hident)⟩

/-- What stands bare in a type expression was made from a name that stands bare in the type, or is
built in. -/
theorem mem_bareNamesOf_expr {type : TypeRef} {expr : TypeExpr} (h : scope.expr type = .ok expr)
    {ident : String} (hident : ident ∈ bareNamesOf expr) :
    ident ∈ bytesName :: keywordTypes ∨
      ∃ name ∈ Alias.bareNames type, scope.payloadName name = .ok ident ∨
      scope.typeName name = .ok ident := by
  induction type generalizing expr with
  | reference name =>
    rw [Scope.expr] at h
    obtain ⟨found, rfl, hfound⟩ := referenceExpr_eq_name h
    obtain rfl := List.mem_singleton.1 hident
    obtain rfl | hgiven := hfound
    · exact .inl List.mem_cons_self
    · exact .inr ⟨name, List.mem_singleton_self name, hgiven⟩
  | scalar kind =>
    rw [Scope.expr] at h
    cases h
    obtain rfl := List.mem_singleton.1 hident
    refine .inl ?_
    cases kind <;> decide
  | bytes length =>
    rw [Scope.expr] at h
    cases h
    exact .inl (List.mem_singleton.1 hident ▸ List.mem_cons_self)
  | list items ih =>
    simp only [Scope.expr, bind_eq_ok_iff] at h
    obtain ⟨inner, -, h⟩ := h
    cases h
    cases hident
  | map key value ihKey ihValue =>
    simp only [Scope.expr, bind_eq_ok_iff] at h
    obtain ⟨keyExpr, hkey, valueExpr, hvalue, h⟩ := h
    cases h
    obtain hident | hident := List.mem_append.1 hident
    · obtain hbuiltin | ⟨name, hname, hgiven⟩ := ihKey hkey hident
      · exact .inl hbuiltin
      · exact .inr ⟨name, List.mem_append_left _ hname, hgiven⟩
    · obtain hbuiltin | ⟨name, hname, hgiven⟩ := ihValue hvalue hident
      · exact .inl hbuiltin
      · exact .inr ⟨name, List.mem_append_right _ hname, hgiven⟩
  | record fields ih =>
    simp only [Scope.expr, bind_eq_ok_iff] at h
    obtain ⟨members, -, h⟩ := h
    cases h
    cases hident

/-- A name that stands bare in a type stands bare in its type expression. -/
theorem bareNamesOf_expr_of_mem {type : TypeRef} {expr : TypeExpr} (h : scope.expr type = .ok expr)
    {name : String} (hname : name ∈ Alias.bareNames type) {ident : String}
    (hident : scope.referenceExpr name = .ok (.name ident)) : ident ∈ bareNamesOf expr := by
  fun_induction Alias.bareNames type generalizing expr with
  | case1 other =>
    obtain rfl := List.mem_singleton.1 hname
    rw [Scope.expr, hident] at h
    cases h
    exact List.mem_singleton_self ident
  | case2 key value ihKey ihValue =>
    simp only [Scope.expr, bind_eq_ok_iff] at h
    obtain ⟨keyExpr, hkey, valueExpr, hvalue, h⟩ := h
    cases h
    obtain hname | hname := List.mem_append.1 hname
    · exact List.mem_append_left _ (ihKey hkey hname)
    · exact List.mem_append_right _ (ihValue hvalue hname)
  | case3 => cases hname

/-- An alias has one declaration, in which an alias that stands for itself is unknown. -/
theorem typeDeclarations_aliasOf {name : String} {target : TypeRef} {declared : List Declaration}
    (h : typeDeclarations scope name (.aliasOf target) = .ok declared) :
    ∃ ident expr, scope.typeName name = .ok ident ∧ declared = [.typeAlias ident expr] ∧
      if scope.isAliasCycle name then expr = .name "unknown" else scope.expr target = .ok expr := by
  obtain ⟨ident, hident, h⟩ := bind_eq_ok_iff.1 h
  dsimp only at h
  split at h
  · rename_i hcycle
    cases h
    exact ⟨ident, .name "unknown", hident, rfl, by rw [if_pos hcycle]⟩
  · rename_i hcycle
    obtain ⟨expr, hexpr, h⟩ := bind_eq_ok_iff.1 h
    cases h
    exact ⟨ident, expr, hident, rfl, by rw [if_neg hcycle]; exact hexpr⟩

theorem bareNames_typeDeclarations {name : String} {typeDef : TypeDef} {declared : List Declaration}
    (h : typeDeclarations scope name typeDef = .ok declared) {declaration : Declaration}
    (hmem : declaration ∈ declared) {ident : String} (hident : ident ∈ declaration.bareNames) :
    ident ∈ bytesName :: keywordTypes ∨
      ∃ target expr, typeDef = .aliasOf target ∧ scope.isAliasCycle name = false ∧
        scope.typeName name = .ok declaration.name ∧ scope.expr target = .ok expr ∧
        ident ∈ bareNamesOf expr := by
  cases typeDef with
  | aliasOf target =>
    obtain ⟨own, expr, hown, rfl, hexpr⟩ := typeDeclarations_aliasOf h
    obtain rfl := List.mem_singleton.1 hmem
    split at hexpr
    · subst hexpr
      obtain rfl := List.mem_singleton.1 hident
      exact .inl (by decide)
    · rename_i hcycle
      exact .inr ⟨target, expr, rfl, Bool.eq_false_of_not_eq_true hcycle, hown, hexpr, hident⟩
  | record fields =>
    simp only [typeDeclarations, bind_eq_ok_iff] at h
    obtain ⟨own, -, members, -, h⟩ := h
    cases h
    obtain rfl := List.mem_singleton.1 hmem
    cases hident
  | variant cases =>
    simp only [typeDeclarations, bind_eq_ok_iff] at h
    obtain ⟨own, -, payload, -, tagged, -, h⟩ := h
    cases h
    obtain rfl | hmem := List.mem_cons.1 hmem
    · cases hident
    · obtain rfl := List.mem_singleton.1 hmem
      cases hident
  | bytes length =>
    obtain ⟨own, -, h⟩ := bind_eq_ok_iff.1 h
    cases length with
    | any =>
      cases h
      obtain rfl := List.mem_singleton.1 hmem
      exact .inl (List.mem_singleton.1 hident ▸ List.mem_cons_self)
    | fixed count =>
      cases h
      obtain rfl := List.mem_singleton.1 hmem
      exact .inl (List.mem_singleton.1 hident ▸ List.mem_cons_self)

theorem bareNames_errorDeclarations {names : ErrorNames} {declared : List Declaration}
    (h : errorDeclarations scope names = .ok declared) :
    ∀ declaration ∈ declared, declaration.bareNames = [] := by
  obtain ⟨members, -, h⟩ := bind_eq_ok_iff.1 h
  cases h
  exact List.forall_mem_cons.2 ⟨rfl, List.forall_mem_singleton.2 rfl⟩

theorem bareNames_eventUnion (names : List EventName) :
    ∀ declaration ∈ eventUnion names, declaration.bareNames = [] := by
  unfold eventUnion
  split
  · exact List.forall_mem_nil _
  · exact List.forall_mem_singleton.2 rfl

theorem bareNames_eventDeclarations {name : EventName} (hname : name ∈ scope.eventNames)
    {declared : List Declaration} (h : eventDeclarations scope name = .ok declared)
    {declaration : Declaration} (hmem : declaration ∈ declared) {ident : String}
    (hident : ident ∈ declaration.bareNames) :
    ∃ type expr, (.eventPayload name.event.name, declaration.name) ∈ scope.given ∧
      scope.expr type = .ok expr ∧
      ident ∈ bareNamesOf expr := by
  rw [eventDeclarations] at h
  split at h
  · rename_i own type hpayload
    obtain ⟨expr, hexpr, h⟩ := bind_eq_ok_iff.1 h
    cases h
    obtain rfl := List.mem_singleton.1 hmem
    exact ⟨type, expr, mem_given_of_eventNames hname hpayload, hexpr, hident⟩
  · cases h
    cases hmem

end Scope

/-! ### Declarations with bare names -/

section Items

variable {manifest : Manifest} {reserved : List String}

theorem bearer_unique {bearer bearer' : Bearer} {ident : String}
    (h : (bearer, ident) ∈ (Scope.of manifest reserved).given)
    (h' : (bearer', ident) ∈ (Scope.of manifest reserved).given) : bearer = bearer' := by
  obtain ⟨after, hrun⟩ := allocates_given manifest reserved
  exact congrArg Prod.fst (List.inj_on_of_nodup_map hrun.nodup h h' rfl)

variable (hnd : (Table.names manifest.types).Nodup) {declarations : Declarations}
  (h : Declarations.of (.of manifest reserved) = .ok declarations)
include hnd h

/-- No declaration has a name that is built in. -/
theorem not_builtin_of_mem_items {declaration : Declaration}
    (hmem : declaration ∈ declarations.items) : declaration.name ∉ bytesName :: keywordTypes := by
  obtain ⟨after, hrun⟩ := allocates_given manifest reserved
  intro hbuiltin
  obtain hgiven | hevents :=
    List.mem_append.1 ((names_items_perm hnd h).mem_iff.1 (List.mem_map_of_mem hmem))
  · obtain hbytes | hkeyword := List.mem_cons.1 hbuiltin
    · exact hrun.not_mem_set _ hgiven (NameSet.mem_ofList_iff.2 (hbytes ▸ List.mem_cons_self))
    · have hreserved : ∀ name ∈ keywordTypes, isIdentifier name = false := by decide
      exact absurd (hrun.isIdentifier _ hgiven) (by rw [hreserved _ hkeyword]; decide)
  · have hapart : eventsName ∉ bytesName :: keywordTypes := by decide
    split at hevents
    · cases hevents
    · exact hapart (List.mem_singleton.1 hevents ▸ hbuiltin)

/-- A name refers to another one from the payload of an event, or from an alias that stands for
something. The other name is given to a type that stands bare there. -/
theorem exists_bare_of_refers {ident other : String}
    (hrefers : Refers declarations.items ident other) :
    ∃ type, ((∃ event, (.eventPayload event, ident) ∈ (Scope.of manifest reserved).given) ∨
        ∃ name, (Scope.of manifest reserved).typeName name = .ok ident ∧
        Step manifest.types (.reference name) type ∧
          ¬ Loops manifest.types (.reference name)) ∧
      ∃ name ∈ Alias.bareNames type, (Scope.of manifest reserved).payloadName name = .ok other ∨
        (Scope.of manifest reserved).typeName name = .ok other := by
  obtain ⟨⟨declaration, hmem, hexported, hother⟩, ⟨target, htarget, hexportedOther⟩⟩ := hrefers
  obtain rfl : declaration.name = ident := by rw [← declaration.name_exported, hexported]
  obtain rfl : target.name = other := by rw [← target.name_exported, hexportedOther]
  have hbuiltin := not_builtin_of_mem_items hnd h htarget
  have hbare {type : TypeRef} {expr : TypeExpr}
      (hexpr : (Scope.of manifest reserved).expr type = .ok expr)
      (hin : target.name ∈ bareNamesOf expr) :=
    (mem_bareNamesOf_expr hexpr hin).resolve_left hbuiltin
  obtain ⟨types, errors, events, htypes, herrors, hevents, hitems, -⟩ := parts_of_declarations h
  simp only [hitems, List.mem_append, List.mem_flatten] at hmem
  rcases hmem with
    ((⟨declared, hpart, hmem⟩ | ⟨declared, hpart, hmem⟩) | ⟨declared, hpart, hmem⟩) | hmem
  · obtain ⟨⟨name, typeDef⟩, hentry, hdeclared⟩ :=
      exists_of_forall₂ (mapM_eq_ok_iff.1 htypes).flip hpart
    obtain hbuiltin' | ⟨type, expr, rfl, hcycle, hown, hexpr, hin⟩ :=
      bareNames_typeDeclarations hdeclared hmem hother
    · exact absurd hbuiltin' hbuiltin
    · have hstands : ¬ Loops manifest.types (.reference name) := by
        rw [← isCycle_iff]
        exact Bool.eq_false_iff.1 hcycle
      exact ⟨type, .inr ⟨name, hown, .intro ((Table.find?_eq_some_iff hnd).2 hentry), hstands⟩,
        hbare hexpr hin⟩
  · obtain ⟨names, -, hdeclared⟩ := exists_of_forall₂ (mapM_eq_ok_iff.1 herrors).flip hpart
    rw [bareNames_errorDeclarations hdeclared declaration hmem] at hother
    cases hother
  · obtain ⟨name, hname, hdeclared⟩ := exists_of_forall₂ (mapM_eq_ok_iff.1 hevents).flip hpart
    obtain ⟨type, expr, hgiven, hexpr, hin⟩ :=
      bareNames_eventDeclarations hname hdeclared hmem hother
    exact ⟨type, .inl ⟨_, hgiven⟩, hbare hexpr hin⟩
  · rw [bareNames_eventUnion _ declaration hmem] at hother
    cases hother

/-- A name that is referred to and refers to another one is that of an alias. -/
theorem exists_alias_of_refers {before ident after : String}
    (hbefore : Refers declarations.items before ident)
    (hafter : Refers declarations.items ident after) :
    ∃ name target, (Scope.of manifest reserved).typeName name = .ok ident ∧
      Step manifest.types (.reference name) target := by
  obtain ⟨-, -, name, -, hname⟩ := exists_bare_of_refers hnd h hbefore
  obtain ⟨type, ⟨event, hevent⟩ | ⟨own, hown, hstep, -⟩, -⟩ := exists_bare_of_refers hnd h hafter
  · -- the payload of an event has a name of its own
    obtain hpayload | htype := hname
    · cases bearer_unique hevent (mem_given_of_payloadName hpayload)
    · cases bearer_unique hevent (mem_given_of_typeName htype)
  · exact ⟨own, type, hown, hstep⟩

theorem exposes_of_refers {name other ident otherIdent : String} {target : TypeRef}
    (hname : (Scope.of manifest reserved).typeName name = .ok ident)
    (hother : (Scope.of manifest reserved).typeName other = .ok otherIdent)
    (halias : Step manifest.types (.reference other) target)
    (hrefers : Refers declarations.items ident otherIdent) : Exposes manifest.types name other := by
  obtain ⟨type, ⟨event, hevent⟩ | ⟨own, hown, hstep, hstands⟩, bare, hmem, hbare⟩ :=
    exists_bare_of_refers hnd h hrefers
  · cases bearer_unique hevent (mem_given_of_typeName hname)
  · cases bearer_unique (mem_given_of_typeName hown) (mem_given_of_typeName hname)
    obtain hpayload | htype := hbare
    · cases bearer_unique (mem_given_of_payloadName hpayload) (mem_given_of_typeName hother)
    · cases bearer_unique (mem_given_of_typeName htype) (mem_given_of_typeName hother)
      exact ⟨hstands, ⟨type, hstep, hmem⟩, ⟨target, halias⟩⟩

omit hnd in
/-- The declaration of an alias has its target, unless the alias stands for nothing. -/
theorem exists_declaration_of_alias {name : String} {target : TypeRef}
    (hstep : Step manifest.types (.reference name) target) :
    ∃ ident expr, (Scope.of manifest reserved).typeName name = .ok ident ∧
      .typeAlias ident expr ∈ declarations.items ∧ (¬ Loops manifest.types (.reference name) →
        (Scope.of manifest reserved).expr target = .ok expr) := by
  obtain ⟨hfind⟩ := hstep
  obtain ⟨types, errors, events, htypes, -, -, hitems, -⟩ := parts_of_declarations h
  obtain ⟨declared, hpart, hdeclared⟩ :=
    exists_mem_of_mapM_eq_ok htypes (Table.mem_of_find?_eq_some hfind)
  obtain ⟨ident, expr, hident, rfl, hexpr⟩ := typeDeclarations_aliasOf hdeclared
  refine ⟨ident, expr, hident, ?_, fun hstands ↦ ?_⟩
  · simp only [hitems, List.mem_append, List.mem_flatten]
    exact .inl (.inl (.inl ⟨_, hpart, List.mem_cons_self⟩))
  · have hcycle : ¬ (Scope.of manifest reserved).isAliasCycle name = true :=
      fun hcycle ↦ hstands (isCycle_iff.1 hcycle)
    rw [if_neg hcycle] at hexpr
    exact hexpr

omit hnd in
theorem refers_of_exposes {name other ident otherIdent : String}
    (hname : (Scope.of manifest reserved).typeName name = .ok ident)
    (hother : (Scope.of manifest reserved).typeName other = .ok otherIdent)
    (hexposes : Exposes manifest.types name other) :
    Refers declarations.items ident otherIdent := by
  obtain ⟨hstands, ⟨target, hstep, hmem⟩, ⟨otherTarget, hotherStep⟩⟩ := hexposes
  obtain ⟨found, expr, hfound, hitem, hexpr⟩ := exists_declaration_of_alias h hstep
  obtain ⟨otherFound, otherExpr, hotherFound, hotherItem, -⟩ :=
    exists_declaration_of_alias h hotherStep
  obtain rfl : found = ident := Except.ok.inj (hfound.symm.trans hname)
  obtain rfl : otherFound = otherIdent := Except.ok.inj (hotherFound.symm.trans hother)
  have hreference : (Scope.of manifest reserved).referenceExpr other = .ok (.name otherFound) := by
    obtain ⟨hfind⟩ := hotherStep
    have htypeDef : (Scope.of manifest reserved).manifest.typeDef? other =
        some (.aliasOf otherTarget) := hfind
    rw [Scope.referenceExpr, htypeDef]
    exact map_eq_ok_iff.2 ⟨otherFound, hother, rfl⟩
  exact ⟨⟨.typeAlias found expr, hitem, rfl,
    bareNamesOf_expr_of_mem (hexpr hstands) hmem hreference⟩,
    .typeAlias otherFound otherExpr, hotherItem, rfl⟩

/-- Along names that refer to each other, the aliases are exposed to each other, as long as the
names go on. -/
theorem exists_transGen_exposes {name ident last : String}
    (hname : (Scope.of manifest reserved).typeName name = .ok ident)
    (hpath : Relation.TransGen (Refers declarations.items) ident last) {after : String}
    (hafter : Refers declarations.items last after) :
    ∃ other, (Scope.of manifest reserved).typeName other = .ok last ∧
      Relation.TransGen (Exposes manifest.types) name other := by
  induction hpath generalizing after with
  | single hrefers =>
    obtain ⟨other, target, hother, hstep⟩ := exists_alias_of_refers hnd h hrefers hafter
    exact ⟨other, hother, .single (exposes_of_refers hnd h hname hother hstep hrefers)⟩
  | tail _ hrefers ih =>
    obtain ⟨middle, hmiddle, hexposes⟩ := ih hrefers
    obtain ⟨other, target, hother, hstep⟩ := exists_alias_of_refers hnd h hrefers hafter
    exact ⟨other, hother, .tail hexposes (exposes_of_refers hnd h hmiddle hother hstep hrefers)⟩

omit hnd in
theorem transGen_refers_of_exposes {name other ident otherIdent : String}
    (hname : (Scope.of manifest reserved).typeName name = .ok ident)
    (hpath : Relation.TransGen (Exposes manifest.types) name other)
    (hother : (Scope.of manifest reserved).typeName other = .ok otherIdent) :
    Relation.TransGen (Refers declarations.items) ident otherIdent := by
  induction hpath generalizing otherIdent with
  | single hexposes => exact .single (refers_of_exposes h hname hother hexposes)
  | tail _ hexposes ih =>
    obtain ⟨target, hstep, -⟩ := hexposes.bare
    obtain ⟨middle, -, hmiddle, -⟩ := exists_declaration_of_alias h hstep
    exact .tail (ih hmiddle) (refers_of_exposes h hmiddle hother hexposes)

/-- A name is on a cycle of declarations exactly if it is that of an alias that comes back to itself
through a map. -/
theorem transGen_refers_iff {ident : String} :
    Relation.TransGen (Refers declarations.items) ident ident ↔
      ∃ name, (Scope.of manifest reserved).typeName name = .ok ident ∧
      LoopsThroughMap manifest.types name := by
  constructor
  · intro hcycle
    obtain ⟨next, hnext, -⟩ := Relation.TransGen.head'_iff.1 hcycle
    obtain ⟨previous, -, hprevious⟩ := Relation.TransGen.tail'_iff.1 hcycle
    obtain ⟨name, -, hname, -⟩ := exists_alias_of_refers hnd h hprevious hnext
    obtain ⟨other, hother, hexposes⟩ := exists_transGen_exposes hnd h hname hcycle hnext
    cases bearer_unique (mem_given_of_typeName hother) (mem_given_of_typeName hname)
    exact ⟨name, hname, transGen_exposes_iff.1 hexposes⟩
  · rintro ⟨name, hname, hloops⟩
    exact transGen_refers_of_exposes h hname (transGen_exposes_iff.2 hloops) hname

end Items

/-! ### Circular aliases -/

/-- For a manifest that was obtained, and whatever settings: the lines of the text that start with
an export are those of the declarations, and among these a type is circular exactly if it is an
alias that comes back to itself through a map. All other ways in which aliases stand for themselves
are cut off. -/
theorem circular_iff_loopsThroughMap {manifest : Manifest} (h : manifest.Obtained)
    (config : Config) :
    ∃ declarations types client,
      Declarations.of (scopeOf manifest config) = .ok declarations ∧
      generate manifest config = .ok ⟨types, client⟩ ∧
      exportLines types = declarations.items.map Declaration.headline ∧
      ∀ ident, Relation.TransGen (Refers declarations.items) ident ident ↔
        ∃ name, (scopeOf manifest config).typeName name = .ok ident ∧
        LoopsThroughMap manifest.types name := by
  obtain ⟨declarations, all, hdeclarations, hall⟩ := exists_texts h.checked config
  have hnd := h.checked.names .type
  refine ⟨declarations, _, _, hdeclarations, (generate_eq_ok hdeclarations hall).2.2, ?_,
    fun ident ↦ transGen_refers_iff hnd hdeclarations⟩
  rw [exportLines_render, exportLines_typesNodes]
  exact exportLines_items hnd hdeclarations

/-- Aliases of a tree with names at its branches, of its branches, and of nothing but itself. -/
def namedBranches : Json :=
  .object [("schema_version", .string "wasm-abi/1"),
    ("types", .object [
      ("Branch", .object [("kind", .string "alias"),
        ("target", .object [("$ref", .string "Tree")])]),
      ("Loop", .object [("kind", .string "alias"), ("target", .object [("$ref", .string "Loop")])]),
      ("Tree", .object [("kind", .string "alias"), ("target", .object [("kind", .string "map"),
        ("key", .object [("kind", .string "string")]),
        ("value", .object [("$ref", .string "Branch")])])])]),
    ("methods", .array []), ("events", .array [])]

theorem circular_iff_loopsThroughMap_namedBranches :
    ∃ manifest declarations, Manifest.ofJson namedBranches = .ok manifest ∧
      Declarations.of (scopeOf manifest {}) = .ok declarations ∧
      Relation.TransGen (Refers declarations.items) "Branch" "Branch" ∧
      ¬ Relation.TransGen (Refers declarations.items) "Loop" "Loop" := by
  let manifest : Manifest := ⟨"wasm-abi/1", [("Branch", .aliasOf (.reference "Tree")),
    ("Loop", .aliasOf (.reference "Loop")),
    ("Tree", .aliasOf (.map (.scalar .string) (.reference "Branch")))], [], []⟩
  have hread : Manifest.ofJson namedBranches = .ok manifest := rfl
  obtain ⟨declarations, -, -, hdeclarations, -, -, hcircular⟩ :=
    circular_iff_loopsThroughMap (.ofJsonWith hread) {}
  have hbranch : Step manifest.types (.reference "Branch") (.reference "Tree") := .intro rfl
  have htree : Step manifest.types (.reference "Tree")
      (.map (.scalar .string) (.reference "Branch")) := .intro rfl
  have hloop : Step manifest.types (.reference "Loop") (.reference "Loop") := .intro rfl
  refine ⟨manifest, declarations, hread, hdeclarations,
    (hcircular "Branch").2 ⟨"Branch", rfl, .scalar .string,
    .reference "Branch", .tail (.single (.aliasOf hbranch)) (.aliasOf htree), .single (.value _ _)⟩,
    fun hcycle ↦ ?_⟩
  obtain ⟨name, hname, key, value, hmap, -⟩ := (hcircular "Loop").1 hcycle
  have hown : (scopeOf manifest {}).typeName "Loop" = .ok "Loop" := rfl
  cases bearer_unique (mem_given_of_typeName hname) (mem_given_of_typeName hown)
  -- an alias that stands for itself comes to no map
  obtain ⟨target, hstep, -⟩ := Relation.TransGen.head'_iff.1 (Loops.reach (.single hloop) hmap)
  cases hstep

/-- An alias of the maps from strings to itself. -/
def mapsToItself : Json :=
  .object [("schema_version", .string "wasm-abi/1"),
    ("types", .object [("A", .object [("kind", .string "alias"),
      ("target", .object [("kind", .string "map"),
      ("key", .object [("kind", .string "string")]),
      ("value", .object [("$ref", .string "A")])])])]),
    ("methods", .array []), ("events", .array [])]

/-- The alias is declared as it stands, and its name stands bare in its own declaration. -/
theorem mapsToItself_circular :
    ∃ manifest declarations types client, Manifest.ofJson mapsToItself = .ok manifest ∧
      Declarations.of (scopeOf manifest {}) = .ok declarations ∧
      generate manifest {} = .ok ⟨types, client⟩ ∧
      exportLines types = ["export type A = Record<string, A>;"] ∧
      Refers declarations.items "A" "A" := by
  let manifest : Manifest :=
    ⟨"wasm-abi/1", [("A", .aliasOf (.map (.scalar .string) (.reference "A")))], [], []⟩
  let declaration : Declaration := .typeAlias "A" (.dictionary (.name "string") (.name "A"))
  have hread : Manifest.ofJson mapsToItself = .ok manifest := rfl
  have hdeclarations : Declarations.of (scopeOf manifest {}) = .ok ⟨[declaration], []⟩ := rfl
  have hchecked := (Manifest.Obtained.ofJsonWith hread).checked
  have hnd : (Table.names manifest.types).Nodup := hchecked.names .type
  obtain ⟨found, all, hfound, hall⟩ := exists_texts hchecked {}
  obtain rfl : found = ⟨[declaration], []⟩ := Except.ok.inj (hfound.symm.trans hdeclarations)
  have hheadline : declaration.headline = "export type A = Record<string, A>;" := by decide +kernel
  refine ⟨manifest, ⟨[declaration], []⟩, _, _, hread, hdeclarations,
    (generate_eq_ok hfound hall).2.2, ?_, ?_⟩
  · rw [exportLines_render, exportLines_typesNodes, ← hheadline]
    exact exportLines_items hnd hfound
  · have hmem : declaration ∈ [declaration] := List.mem_singleton_self declaration
    exact ⟨⟨declaration, hmem, rfl, by decide⟩, declaration, hmem, rfl⟩

end AbiBindings.Client
