import AbiBindings.Client.Wrapper
import AbiBindings.Proofs.Client.Declarations

/-!
# Wrappers are closed

A wrapper is `Neutral` if the names and types in it are. The name of its method, the names of its
parameters and the codes of its errors stand in literals, keys and comments, so nothing is asked of
them. The nodes of a neutral wrapper are closed, and all wrappers made for the methods of a manifest
are neutral.
-/

namespace AbiBindings.Client

open TypeScript

/-! ### Shapes of results -/

mutual

/-- The text of a shape holds names of members only as string literals, so they cannot end it. -/
theorem ResultShape.neutral_text (shape : ResultShape) : Neutral shape.text := by
  cases shape with
  | bytes => exact .fixed rfl
  | list items =>
    unfold ResultShape.text
    exact Leads.append (.append (.fixed rfl) (items.neutral_text.leads _)) (.fixed rfl)
  | map values =>
    unfold ResultShape.text
    exact Leads.append (.append (.fixed rfl) (values.neutral_text.leads _)) (.fixed rfl)
  | record members =>
    have hmembers := Neutral.intercalate (Leads.fixed rfl : Neutral ", ")
      (neutral_shapeMemberTexts members)
    unfold ResultShape.text
    exact Leads.append (.append (.fixed rfl) (hmembers.leads _)) (.fixed rfl)
  | variant members =>
    have hmembers := Neutral.intercalate (Leads.fixed rfl : Neutral ", ")
      (neutral_shapeMemberTexts members)
    unfold ResultShape.text
    exact Leads.append (.append (.fixed rfl) (hmembers.leads _)) (.fixed rfl)

theorem neutral_shapeMemberTexts (members : List (String × ResultShape)) :
    ∀ text ∈ ResultShape.memberTexts members, Neutral text := by
  cases members with
  | nil =>
    rw [ResultShape.memberTexts]
    exact nofun
  | cons member members =>
    obtain ⟨name, shape⟩ := member
    rw [ResultShape.memberTexts]
    exact List.forall_mem_cons.2
      ⟨((neutral_propertyKey name).append (.fixed rfl)).append shape.neutral_text,
        neutral_shapeMemberTexts members⟩

end

/-! ### Nodes of a wrapper -/

/-- The names and types of the wrapper are neutral. -/
structure Wrapper.Neutral (wrapper : Wrapper) : Prop where
  name : TypeScript.Neutral wrapper.name
  params : ∀ param ∈ wrapper.params, TypeScript.Neutral param.type.text
  result : ∀ result, wrapper.result = some result → TypeScript.Neutral result.type.text
  errorType : ∀ type, wrapper.errorType = some type → TypeScript.Neutral type

namespace Wrapper

/-- A parameter is read and replaced as a property, which is quoted unless its name is a word. -/
theorem closed_variantNode (param : String) : (variantNode param).Closed := by
  have hvalue : TypeScript.Neutral ("args" ++ propertyAccess param) :=
    Leads.append (.fixed rfl) (neutral_propertyAccess param)
  unfold variantNode
  generalize "args" ++ propertyAccess param = value at hvalue ⊢
  refine .block ?_ (List.forall_mem_singleton.2 (.line ?_)) (.fixed rfl)
  · simp only [String.append_assoc]
    exact Leads.append (.fixed rfl) <| .append (hvalue.leads _) <| .append (.fixed rfl) <|
      .append (hvalue.leads _) <| .append (.fixed rfl) <| .append (hvalue.leads _) <| .fixed rfl
  · simp only [String.append_assoc]
    exact Leads.append hvalue <| .append (.fixed rfl) <| .append hvalue <| .append (.fixed rfl) <|
      .append (hvalue.leads _) <| .append (.fixed rfl) <| .append (hvalue.leads _) <|
      .append (.fixed rfl) <|
      .append hvalue <| .fixed rfl

/-- The copy of the arguments, and what is replaced in it, for parameters of any names. -/
theorem closed_argumentNodes (wrapper : Wrapper) : ∀ node ∈ wrapper.argumentNodes, node.Closed := by
  rw [argumentNodes]
  split
  · exact nofun
  · refine List.forall_mem_cons.2 ⟨.line (.fixed rfl), fun node hnode ↦ ?_⟩
    obtain ⟨param, -, rfl⟩ := List.mem_map.1 hnode
    exact closed_variantNode param

theorem neutral_arguments (wrapper : Wrapper) : TypeScript.Neutral wrapper.arguments := by
  have hopening : Leads [] (Runtime.toWire ++ "(") [')'] := Leads.append (.fixed rfl) (.fixed rfl)
  unfold arguments
  split_ifs
  · exact .fixed rfl
  · exact (hopening.append (.fixed rfl)).append (.fixed rfl)
  · exact .fixed rfl
  · exact (hopening.append (.fixed rfl)).append (.fixed rfl)
  · exact .fixed rfl

/-- The method is called by a string literal, whatever its name is. -/
theorem neutral_callLine (wrapper : Wrapper) : TypeScript.Neutral wrapper.callLine := by
  have hmethod := neutral_stringLiteral wrapper.method
  have harguments := wrapper.neutral_arguments
  unfold callLine
  simp only [String.append_assoc]
  exact Leads.append (.fixed rfl) <| .append (hmethod.leads _) <| .append (.fixed rfl) <|
    .append (harguments.leads _) <| .fixed rfl

namespace Neutral

variable {wrapper : Wrapper} (h : wrapper.Neutral)
include h

/-- The result is written as a type expression, with null if the method may return it. -/
theorem neutral_resultType : TypeScript.Neutral wrapper.resultType := by
  rw [resultType]
  split
  · rename_i result hresult
    exact neutral_orNull (h.result result hresult) result.nullable
  · exact .fixed rfl

/-- The line that opens a member leaves one brace to be closed. -/
theorem leads_signature : Leads [] wrapper.signature ['\x7d'] := by
  have hmembers := Neutral.intercalate (Leads.fixed rfl : TypeScript.Neutral "; ")
    (neutral_memberTexts h.params)
  have hobject : TypeScript.Neutral
      ("params: \x7b " ++ "; ".intercalate (TypeExpr.memberTexts wrapper.params) ++ " \x7d") :=
    Leads.append (.append (.fixed rfl) (hmembers.leads _)) (.fixed rfl)
  have hparams : TypeScript.Neutral (if wrapper.params.isEmpty then "" else
      "params: \x7b " ++ "; ".intercalate (TypeExpr.memberTexts wrapper.params) ++ " \x7d") := by
    split
    · exact .empty
    · exact hobject
  unfold signature
  simp only [String.append_assoc]
  exact Leads.append (.fixed rfl) <| .append h.name <| .append (.fixed rfl) <|
    .append (hparams.leads _) <| .append (.fixed rfl) <| .append h.neutral_resultType <| .fixed rfl

theorem neutral_returnLine : TypeScript.Neutral wrapper.returnLine := by
  have htype := h.neutral_resultType
  unfold returnLine
  split
  · exact .fixed rfl
  · split
    · rename_i shape _
      simp only [String.append_assoc]
      exact Leads.append (.fixed rfl) <| .append (.fixed rfl) <| .append (.fixed rfl) <|
        .append (shape.neutral_text.leads _) <| .append (.fixed rfl) <| .append htype <| .fixed rfl
    · exact Leads.append (.append (.fixed rfl) htype) (.fixed rfl)

/-- Errors are thrown as one type, which has a name that was given. -/
theorem closed_throwNodes : ∀ node ∈ wrapper.throwNodes, node.Closed := by
  rw [throwNodes]
  split
  · rename_i type htype
    have hline : TypeScript.Neutral ("throw response.error as " ++ type ++ ";") :=
      Leads.append (.append (.fixed rfl) (h.errorType type htype)) (.fixed rfl)
    exact List.forall_mem_singleton.2
      (.block (.fixed rfl) (List.forall_mem_singleton.2 (.line hline)) (.fixed rfl))
  · exact nofun

/-- A member as a whole is closed: its comment, and what its body does before and after the call. -/
theorem closed_nodes : ∀ node ∈ wrapper.nodes, node.Closed := by
  have hreturn :
      (Node.block "if (response.success) \x7b" [.line wrapper.returnLine] "\x7d").Closed :=
    .block (.fixed rfl) (List.forall_mem_singleton.2 (.line h.neutral_returnLine)) (.fixed rfl)
  have hbody : ∀ node ∈ wrapper.argumentNodes ++ [.line wrapper.callLine] ++
      [.block "if (response.success) \x7b" [.line wrapper.returnLine] "\x7d"] ++
      wrapper.throwNodes ++
      [.line "throw new Error(response.error || 'Execution failed');"], node.Closed := by
    simp only [List.forall_mem_append, List.forall_mem_singleton]
    exact ⟨⟨⟨⟨wrapper.closed_argumentNodes, .line wrapper.neutral_callLine⟩, hreturn⟩,
      h.closed_throwNodes⟩, .line (.fixed rfl)⟩
  exact List.forall_mem_cons.2
    ⟨.doc _, List.forall_mem_singleton.2 (.block h.leads_signature hbody (.fixed rfl))⟩

end Neutral

end Wrapper

/-! ### The wrappers of a manifest -/

/-- What a wrapper has from its method and the names around it. -/
structure Wrapper.Made (scope : Scope) (errorNames : List (String × String)) (name : String)
    (method : Method) (wrapper : Wrapper) : Prop where
  name_eq : wrapper.name = name
  method_eq : wrapper.method = method.name
  params_eq : scope.memberExprs method.params = .ok wrapper.params
  result_eq : ∀ result, wrapper.result = some result → ∃ type, scope.expr type = .ok result.type
  errorType_eq : wrapper.errorType = Table.find? method.name errorNames
  errors_eq : method.errors.mapM (fun error ↦ taggedCase scope error.code error.payload) =
    .ok wrapper.errors

/-- What a member that was made is made of. -/
theorem Wrapper.made_of {scope : Scope} {errorNames : List (String × String)} {name : String}
    {method : Method} {wrapper : Wrapper}
    (h : Wrapper.of scope errorNames name method = .ok wrapper) :
    wrapper.Made scope errorNames name method := by
  rw [Wrapper.of] at h
  split at h
  · rename_i type _
    simp only [bind_eq_ok_iff] at h
    obtain ⟨expr, hexpr, result, hresult, errors, herrors, params, hparams, h⟩ := h
    cases hresult
    cases h
    refine ⟨rfl, rfl, hparams, fun result hresult ↦ ?_, rfl, herrors⟩
    cases hresult
    exact ⟨type, hexpr⟩
  · simp only [bind_eq_ok_iff] at h
    obtain ⟨result, hresult, errors, herrors, params, hparams, h⟩ := h
    cases hresult
    cases h
    refine ⟨rfl, rfl, hparams, fun result hresult ↦ ?_, rfl, herrors⟩
    cases hresult

/-- Members have names that were allocated. -/
theorem isName_of_mem_memberNames {manifest : Manifest} {name : String}
    (h : name ∈ memberNames manifest) : IsName name := by
  refine isName_allocate (fun base hbase ↦ ?_) _ name h
  obtain ⟨method, -, rfl⟩ := List.mem_map.1 hbase
  exact isName_identifier _

section Manifest

variable {scope : Scope} (hscope : scope.Named) {errorNames : List (String × String)}
  (herrors : ∀ entry ∈ errorNames, IsName entry.2)
include hscope herrors

theorem neutral_wrapper {name : String} (hname : IsName name) {method : Method} {wrapper : Wrapper}
    (h : Wrapper.of scope errorNames name method = .ok wrapper) : wrapper.Neutral := by
  have hmade := Wrapper.made_of h
  refine ⟨hmade.name_eq ▸ hname.neutral, neutral_memberExprs hscope hmade.params_eq,
    fun result hresult ↦ ?_, fun type htype ↦ ?_⟩
  · obtain ⟨type, hexpr⟩ := hmade.result_eq result hresult
    exact neutral_expr hscope hexpr
  · rw [hmade.errorType_eq] at htype
    exact (herrors _ (Table.mem_of_find?_eq_some htype)).neutral

/-- All texts in the members of a client are neutral, for methods of any names. -/
theorem neutral_wrappers {all : List Wrapper} (h : wrappers scope errorNames = .ok all) :
    ∀ wrapper ∈ all, wrapper.Neutral := by
  refine forall_of_mapM_eq_ok h fun entry hentry wrapper hwrapper ↦ ?_
  have hname := isName_of_mem_memberNames (List.of_mem_zip hentry).1
  exact neutral_wrapper hscope herrors hname hwrapper

end Manifest

end AbiBindings.Client
