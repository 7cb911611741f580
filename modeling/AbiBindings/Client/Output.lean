import AbiBindings.Client.Generate
import AbiBindings.Files.Storage
import AbiBindings.Manifest.Load

/-!
# Manifests and generated texts in files
-/

namespace AbiBindings.Client

variable {m : Type → Type} [Monad m]

/-- The manifest in the file at a path. -/
def loadManifest (files : Files.Storage m) (path : String) : m (Except Error Manifest) := do
  match ← files.readText path with
  | .error fault => return .error (.file path fault)
  | .ok text => return Manifest.ofTextFrom (.file path) text

/-- Puts a text into the file at a path. -/
def writeFile (files : Files.Storage m) (path text : String) : m (Except Error Unit) := do
  return (← files.writeText path text).mapError (.file path)

/-- Puts the generated texts into a directory, which is made if it is not there: first the
declarations, then the client class. -/
def Generated.writeTo (generated : Generated) (files : Files.Storage m) (directory : String)
    (config : Config) : m (Except Error OutputPaths) := do
  match ← files.makeDirectory directory with
  | .error fault => return .error (.file directory fault)
  | .ok () =>
    let paths := OutputPaths.inDirectory directory config
    match ← writeFile files paths.types generated.types with
    | .error error => return .error error
    | .ok () =>
      match ← writeFile files paths.client generated.client with
      | .error error => return .error error
      | .ok () => return .ok paths

end AbiBindings.Client
