import AbiBindings.Files.Path
import AbiBindings.TypeScript.Casing
import AbiBindings.TypeScript.Identifier

/-!
# Settings of a client

The name of the client class, the module that its runtime is imported from, and the files that the
generated text goes to.
-/

namespace AbiBindings.Client

open TypeScript

/-! ### Defaults -/

/-- The manifest that is read if none is named. -/
def defaultInput : String := "abi.json"

/-- The directory that is written to if none is named. -/
def defaultDirectory : String := "src"

/-- The module that the runtime is imported from if none is named. -/
def defaultImportPath : String := "@calimero-network/calimero-client"

/-- The file of the type declarations. -/
def typesFile : String := "types.ts"

/-! ### Settings -/

/-- The settings of a client. -/
structure Config where
  /-- The name of the client class, and of its file. -/
  clientName : String := "Client"
  /-- The module that the runtime is imported from. -/
  importPath : String := defaultImportPath
deriving Repr, DecidableEq

namespace Config

/-- The settings for a client class named after a text. -/
def named (name : String) : Config := { clientName := identifier name }

/-- The file of the client class. -/
def clientFile (config : Config) : String := config.clientName ++ ".ts"

/-- The module of the client class, as the type declarations import it. -/
def clientModule (config : Config) : String := "./" ++ config.clientName ++ ".js"

end Config

/-- Where the two generated texts are written. -/
structure OutputPaths where
  types : String
  client : String
deriving Repr, DecidableEq

/-- The files in a directory. -/
def OutputPaths.inDirectory (directory : String) (config : Config) : OutputPaths :=
  { types := Files.join directory typesFile
    client := Files.join directory config.clientFile }

/-! ### The name of the client class -/

/-- Where the name of the client class comes from. -/
inductive NameSource where
  /-- The name is given. -/
  | explicit (name : String)
  /-- The name is made from a path given for that. -/
  | nameFrom (path : String)
  /-- The name is made from the path of the manifest. -/
  | inputPath (path : String)
deriving Repr, DecidableEq

namespace NameSource

/-- A given name comes first, then a path given for it, then the path of the manifest. -/
def select (explicitName nameFromPath : Option String) (input : String) : NameSource :=
  match explicitName, nameFromPath with
  | some name, _ => explicit name
  | none, some path => nameFrom path
  | none, none => inputPath input

/-- The name that a source gives. -/
def resolve : NameSource → String
  | explicit name => name
  | nameFrom path | inputPath path => clientName path

end NameSource

end AbiBindings.Client
