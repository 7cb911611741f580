import AbiBindings.Client.Scope
import AbiBindings.TypeScript.Casing
import AbiBindings.TypeScript.Layout

/-!
# Declarations

What the generated text declares for a manifest: its types, the errors of its methods, and its
events. The declarations are data; `Declaration.nodes` lays them out. Each is one exported
statement.

A tagged union is a type with a member per case. A member names its case by a string literal and
carries the payload of the case, if there is one.
-/

namespace AbiBindings.Client

open TypeScript

/-- A member of a tagged union. -/
structure Tagged where
  tag : String
  payload : Option TypeExpr
deriving Repr

/-- A declaration. -/
inductive Declaration where
  /-- A record type. -/
  | interface (name : String) (members : List (Member TypeExpr))
  /-- A type with another name. -/
  | typeAlias (name : String) (target : TypeExpr)
  /-- The class of byte sequences, under the name of a type of fixed length. -/
  | fixedBytes (name : String) (count : ByteCount)
  /-- A tagged union, whose members have their tags under the given key. -/
  | union (name key : String) (members : List Tagged)
  /-- The object with a function for each case of a variant. -/
  | factories (name payloadName : String) (cases : List Tagged)
  /-- The codes of the errors of a method. -/
  | codes (name : String) (tags : List String)
deriving Repr

namespace Declaration

/-- The name that is declared. -/
def name : Declaration → String
  | interface name _ | typeAlias name _ | fixedBytes name _ | union name _ _ | factories name _ _
  | codes name _ => name

/-! ### Layout -/

/-- The declaration of a type on one line. -/
def typeLine (name target : String) : Node :=
  .line ("export type " ++ name ++ " = " ++ target ++ ";")

/-- A member of a tagged union. -/
def memberText (key : String) (member : Tagged) : String :=
  match member.payload with
  | some type =>
    "\x7b " ++ key ++ ": " ++ stringLiteral member.tag ++ "; payload: " ++ type.text ++ " \x7d"
  | none => "\x7b " ++ key ++ ": " ++ stringLiteral member.tag ++ " \x7d"

/-- The lines of the members of a union, the last one with the end of the statement. -/
def unionLines : List String → List Node
  | [] => []
  | [member] => [.line ("  | " ++ member ++ ";")]
  | member :: members => .line ("  | " ++ member) :: unionLines members

/-- A union with a line for each member; without members it is `never`. -/
def unionNodes (name : String) : List String → List Node
  | [] => [typeLine name "never"]
  | members => .line ("export type " ++ name ++ " =") :: unionLines members

/-- The function that makes the values of a case. -/
def factoryLine (payloadName : String) (case : Tagged) : Node :=
  let key := propertyKey case.tag
  let tag := stringLiteral case.tag
  match case.payload with
  | some type =>
    .line (key ++ ": (payload: " ++ type.text ++ "): " ++ payloadName ++
      " => (\x7b name: " ++ tag ++ ", payload \x7d),")
  | none => .line (key ++ ": (): " ++ payloadName ++ " => (\x7b name: " ++ tag ++ " \x7d),")

/-- The nodes of a declaration. A blank comes after it, except after the codes of errors, which
stand right above the errors. -/
def nodes : Declaration → List Node
  | interface name members =>
    [.block ("export interface " ++ name ++ " \x7b")
        ((TypeExpr.memberTexts members).map fun member ↦ .line (member ++ ";")) "\x7d",
      .blank]
  | typeAlias name target => [typeLine name target.text, .blank]
  | fixedBytes name count =>
    [.doc ["Fixed-length bytes (size: " ++ toString count.size.toNat ++ ")."],
      typeLine name bytesName, .blank]
  | union name key members => unionNodes name (members.map (memberText key)) ++ [.blank]
  | factories name payloadName cases =>
    [.block ("export const " ++ name ++ " = \x7b") (cases.map (factoryLine payloadName))
      "\x7d as const;", .blank]
  | codes name tags => [typeLine name (" | ".intercalate (tags.map stringLiteral))]

end Declaration

/-! ### The declarations of a manifest -/

/-- A case with its payload as a type expression. -/
def taggedCase (scope : Scope) (tag : String) (payload : Option TypeRef) : Except Error Tagged :=
  return ⟨tag, ← scope.payloadExpr payload⟩

/-- The declarations of a type. -/
def typeDeclarations (scope : Scope) (name : String) (typeDef : TypeDef) :
    Except Error (List Declaration) := do
  let ident ← scope.typeName name
  match typeDef with
  | .record fields => return [.interface ident (← scope.memberExprs fields)]
  | .variant cases =>
    let payloadName ← scope.payloadName name
    let cases ← cases.mapM fun case ↦ taggedCase scope case.name case.payload
    return [.union payloadName "name" cases, .factories ident payloadName cases]
  | .bytes .any => return [.typeAlias ident (.name bytesName)]
  | .bytes (.fixed count) => return [.fixedBytes ident count]
  | .aliasOf target =>
    if scope.isAliasCycle name then return [.typeAlias ident (.name "unknown")]
    else return [.typeAlias ident (← scope.expr target)]

/-- A method with the names of the type of its error codes and of its errors. -/
structure ErrorNames where
  method : Method
  code : String
  error : String

/-- Allocates the names for the errors of the methods that have some. -/
def allocateErrorNames (used : NameSet) : List Method → List ErrorNames × NameSet
  | [] => ([], used)
  | method :: methods =>
    if method.errors.isEmpty then allocateErrorNames used methods
    else
      let base := identifier (typeCase method.name)
      let code := used.fresh (base ++ "ErrorCode")
      let used := used.insert code
      let error := used.fresh (base ++ "Error")
      let (names, used) := allocateErrorNames (used.insert error) methods
      (⟨method, code, error⟩ :: names, used)

/-- The declarations of the errors of a method. -/
def errorDeclarations (scope : Scope) (names : ErrorNames) : Except Error (List Declaration) := do
  let members ← names.method.errors.mapM fun error ↦ taggedCase scope error.code error.payload
  return [.codes names.code (names.method.errors.map MethodError.code),
    .union names.error "code" members]

/-- An event with the name of the type of its payload, if it carries something. -/
structure EventName where
  event : Event
  payload : Option (String × TypeRef)

/-- Allocates the names for the payloads of events. -/
def allocateEventNames (scope : Scope) (used : NameSet) : List Event → List EventName × NameSet
  | [] => ([], used)
  | event :: events =>
    match scope.payload event.payload with
    | some type =>
      let name := used.fresh (identifier (typeCase event.name) ++ "Payload")
      let (names, used) := allocateEventNames scope (used.insert name) events
      (⟨event, some (name, type)⟩ :: names, used)
    | none =>
      let (names, used) := allocateEventNames scope used events
      (⟨event, none⟩ :: names, used)

/-- The declaration of the payload of an event. -/
def eventDeclarations (scope : Scope) (name : EventName) : Except Error (List Declaration) :=
  match name.payload with
  | some (ident, type) => return [.typeAlias ident (← scope.expr type)]
  | none => .ok []

/-- The union of all events, if there are any. -/
def eventUnion : List EventName → List Declaration
  | [] => []
  | names =>
    [.union eventsName "name" <| names.map fun name ↦
      ⟨name.event.name, name.payload.map fun (ident, _) ↦ .name ident⟩]

/-- All that is declared for a manifest. -/
structure Declarations where
  items : List Declaration
  /-- The type of the errors of each method that has some. -/
  errorNames : List (String × String)

/-- The declarations for the manifest of a scope: types, errors of methods, events. -/
def Declarations.of (scope : Scope) : Except Error Declarations := do
  let manifest := scope.manifest
  let (errorNames, used) := allocateErrorNames scope.used manifest.methods
  let (eventNames, _) := allocateEventNames scope used manifest.events
  let types ← manifest.types.mapM fun (name, typeDef) ↦ typeDeclarations scope name typeDef
  let errors ← errorNames.mapM (errorDeclarations scope)
  let events ← eventNames.mapM (eventDeclarations scope)
  return {
    items := types.flatten ++ errors.flatten ++ events.flatten ++ eventUnion eventNames
    errorNames := errorNames.map fun names ↦ (names.method.name, names.error) }

/-- The nodes of all declarations. -/
def Declarations.nodes (declarations : Declarations) : List Node :=
  declarations.items.flatMap Declaration.nodes

end AbiBindings.Client
