import AbiBindings.Command.Run
import AbiBindings.Text.Utf8

/-!
# The command line

Runs the command on the files of the computer.
-/

namespace AbiBindings

/-- The fault that an error of the system is. -/
def faultOf : IO.Error → Files.Fault
  | .noFileOrDirectory .. => .notFound
  | .alreadyExists .. => .alreadyExists
  | .inappropriateType _ 20 _ => .notADirectory
  | .inappropriateType _ 21 _ => .isADirectory
  | error => .other (toString error)

/-- The result of an action, or its fault. -/
def caught {α : Type} (action : IO α) : IO (Except Files.Fault α) := do
  match ← action.toBaseIO with
  | .ok a => return .ok a
  | .error error => return .error (faultOf error)

/-- The files of the computer. -/
def computerFiles : Files.Storage IO where
  isPresent path := do
    match ← caught (IO.FS.readBinFile path) with
    | .error .notFound | .error .notADirectory => return false
    | _ => return true
  readText path := do
    match ← caught (IO.FS.readBinFile path) with
    | .error fault => return .error fault
    | .ok bytes =>
      match Text.Utf8.decode? bytes.toList with
      | some text => return .ok text
      | none => return .error .notText
  makeDirectory path := if path = "" then return .ok () else caught (IO.FS.createDirAll path)
  writeText path text := caught (IO.FS.writeFile path text)

end AbiBindings

/-- Runs the command, prints what it has to say and gives its exit code. -/
def main (args : List String) : IO UInt32 := do
  let outcome ← AbiBindings.Command.run AbiBindings.computerFiles args
  IO.print outcome.output
  IO.eprint outcome.errors
  return outcome.code
