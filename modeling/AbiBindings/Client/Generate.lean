import AbiBindings.Client.Config
import AbiBindings.Client.Wrapper

/-!
# Generated texts

Two texts are generated from a manifest. The first has the declarations of its types. The second has
the same declarations, and with them the client class and what that class relies on. Both give the
same names to the same things, because both keep clear of all names that the second one uses.
-/

namespace AbiBindings.Client

open TypeScript

/-- The names in a client that do not come from the manifest. -/
def reservedNames (config : Config) : List String :=
  Runtime.imports ++ [Runtime.toWire, Runtime.fromWire, Runtime.shapeType, config.clientName]

/-- The scope of the generated texts. -/
def scopeOf (manifest : Manifest) (config : Config) : Scope :=
  .of manifest (reservedNames config)

/-! ### The declarations -/

/-- The nodes of the text with the declarations. -/
def typesNodes (config : Config) (declarations : List Node) : List Node :=
  Layout.generated ++
    [.line ("import type \x7b " ++ bytesName ++ " \x7d from " ++
      stringLiteral config.clientModule ++ ";"), .blank] ++
    declarations

/-- The text with the declarations. -/
def generateTypes (manifest : Manifest) (config : Config) : Except Error String := do
  let declarations ← Declarations.of (scopeOf manifest config)
  return Layout.render (typesNodes config declarations.nodes)

/-! ### The client class -/

/-- The nodes of the client class. -/
def classNode (config : Config) (wrappers : List Wrapper) : Node :=
  .block ("export class " ++ config.clientName ++ " \x7b")
    ([.line "private app: CalimeroApp;", .line "private context: Context;", .blank,
        .block "constructor(app: CalimeroApp, context: Context) \x7b"
          [.line "this.app = app;", .line "this.context = context;"] "\x7d"] ++
      wrappers.flatMap fun wrapper ↦ .blank :: wrapper.nodes)
    "\x7d"

/-- The nodes of the text with the client class. -/
def clientNodes (config : Config) (declarations : List Node) (wrappers : List Wrapper) :
    List Node :=
  Layout.generated ++
    [.block "import \x7b" (Runtime.imports.map fun name ↦ .line (name ++ ","))
        ("\x7d from " ++ stringLiteral config.importPath ++ ";"),
      .blank, .line "// Generated types", .blank] ++
    declarations ++
    [.blank, .snippet Runtime.bytesClass, .blank, .snippet Runtime.converters, .blank,
      classNode config wrappers]

/-- The text with the client class. -/
def generateClient (manifest : Manifest) (config : Config) : Except Error String := do
  let scope := scopeOf manifest config
  let declarations ← Declarations.of scope
  let wrappers ← wrappers scope declarations.errorNames
  return Layout.render (clientNodes config declarations.nodes wrappers)

/-! ### Both -/

/-- The two generated texts. -/
structure Generated where
  types : String
  client : String
deriving Repr, DecidableEq

/-- Generates both texts. -/
def generate (manifest : Manifest) (config : Config) : Except Error Generated :=
  return ⟨← generateTypes manifest config, ← generateClient manifest config⟩

end AbiBindings.Client
