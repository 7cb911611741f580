import AbiBindings.Client.Bytes
import AbiBindings.Client.Declaration
import AbiBindings.Client.ResultShape
import AbiBindings.Client.Runtime

/-!
# Methods of a client class

A client class has a member for each method of the manifest, which makes the call and gives back its
result. A `Wrapper` is such a member as data, and `Wrapper.nodes` lays it out.

A parameter that is a variant is sent as its case name, or as an object with the case name as its
only key. So such parameters are replaced in a copy of the arguments before the call.
-/

namespace AbiBindings.Client

open TypeScript

/-- The result of a method, unless it is a unit. -/
structure WrapperResult where
  type : TypeExpr
  nullable : Bool
  shape : Option ResultShape

/-- A member of a client class that calls a method. -/
structure Wrapper where
  /-- The name of the member. -/
  name : String
  /-- The name of the method. -/
  method : String
  params : List (Member TypeExpr)
  /-- The parameters that are variants. -/
  variantParams : List String
  /-- Whether a parameter can hold a byte sequence. -/
  isBinary : Bool
  result : Option WrapperResult
  /-- The type of the errors, if the method has some. -/
  errorType : Option String
  errors : List Tagged

namespace Wrapper

/-- The wrapper of a method, under a member name. -/
def of (scope : Scope) (errorNames : List (String × String)) (name : String) (method : Method) :
    Except Error Wrapper := do
  let types := scope.manifest.types
  let result ←
    match scope.payload method.returns with
    | some type =>
      pure (some ⟨← scope.expr type, method.returnsNullable, ResultShape.ofType types type⟩)
    | none => pure none
  let errors ← method.errors.mapM fun error ↦ taggedCase scope error.code error.payload
  let params ← scope.memberExprs method.params
  return {
    name
    method := method.name
    params
    variantParams := (method.params.filter fun p ↦ (scope.variant? p.type).isSome).map Member.name
    isBinary := method.params.any fun p ↦ Client.isBinary types p.type
    result
    errorType := Table.find? method.name errorNames
    errors }

variable (wrapper : Wrapper)

/-- The type of the result. -/
def resultType : String :=
  match wrapper.result with
  | some result => orNull result.type.text result.nullable
  | none => "void"

/-- The line of the comment for an error. -/
def errorLine (error : Tagged) : String :=
  match error.payload with
  | some type => "- " ++ error.tag ++ ": " ++ type.text
  | none => "- " ++ error.tag

/-- The comment above the member. -/
def docLines : List String :=
  match wrapper.errorType with
  | some type =>
    wrapper.method :: "" :: ("@throws \x7b" ++ type ++ "\x7d May throw the following errors:") ::
      wrapper.errors.map errorLine
  | none => [wrapper.method]

/-- The first line of the member. -/
def signature : String :=
  let params :=
    if wrapper.params.isEmpty then ""
    else "params: \x7b " ++ "; ".intercalate (TypeExpr.memberTexts wrapper.params) ++ " \x7d"
  "public async " ++ wrapper.name ++ "(" ++ params ++ "): Promise<" ++
    wrapper.resultType ++ "> \x7b"

/-- Replaces a parameter that is a variant by the form in which it is sent. -/
def variantNode (param : String) : Node :=
  let value := "args" ++ propertyAccess param
  .block ("if (" ++ value ++ " && typeof " ++ value ++ " === 'object' && 'name' in " ++
    value ++ ") \x7b")
    [.line (value ++ " = 'payload' in " ++ value ++ " ? \x7b [" ++ value ++ ".name]: " ++ value ++
      ".payload \x7d : " ++ value ++ ".name;")]
    "\x7d"

/-- The statements before the call. -/
def argumentNodes : List Node :=
  if wrapper.variantParams.isEmpty then []
  else
    .line "const args = \x7b ...params \x7d as any;" :: wrapper.variantParams.map variantNode

/-- The arguments of the call. -/
def arguments : String :=
  if wrapper.params.isEmpty then "\x7b\x7d"
  else
    let args := if wrapper.variantParams.isEmpty then "params" else "args"
    if wrapper.isBinary then Runtime.toWire ++ "(" ++ args ++ ")" else args

/-- The statement that makes the call. -/
def callLine : String :=
  "const response = await this.app.execute(this.context, " ++
    stringLiteral wrapper.method ++ ", " ++ wrapper.arguments ++ ");"

/-- The statement that gives back the result. -/
def returnLine : String :=
  match wrapper.result with
  | none => "return;"
  | some result =>
    match result.shape with
    | some shape =>
      "return " ++ Runtime.fromWire ++ "(response.result, " ++ shape.text ++ ") as " ++
        wrapper.resultType ++ ";"
    | none => "return response.result as " ++ wrapper.resultType ++ ";"

/-- The statement that throws the errors of the method. -/
def throwNodes : List Node :=
  match wrapper.errorType with
  | some type =>
    [.block "if (response.error && typeof response.error === 'object') \x7b"
      [.line ("throw response.error as " ++ type ++ ";")] "\x7d"]
  | none => []

/-- The nodes of the member. -/
def nodes : List Node :=
  [.doc wrapper.docLines,
    .block wrapper.signature
      (wrapper.argumentNodes ++ [.line wrapper.callLine] ++
        [.block "if (response.success) \x7b" [.line wrapper.returnLine] "\x7d"] ++
        wrapper.throwNodes ++
        [.line "throw new Error(response.error || 'Execution failed');"])
      "\x7d"]

end Wrapper

/-! ### Member names -/

/-- The members that every client class has. -/
def reservedMembers : List String := ["constructor", "app", "context"]

/-- The names of the members for the methods of a manifest. -/
def memberNames (manifest : Manifest) : List String :=
  ((NameSet.ofList reservedMembers).allocate
    (manifest.methods.map fun method ↦ identifier (memberCase method.name))).1

/-- The wrappers of the methods of a manifest. -/
def wrappers (scope : Scope) (errorNames : List (String × String)) : Except Error (List Wrapper) :=
  ((memberNames scope.manifest).zip scope.manifest.methods).mapM fun (name, method) ↦
    Wrapper.of scope errorNames name method

end AbiBindings.Client
