import AbiBindings.Files.Fault

/-!
# Storage of files

What a program asks of a place where files are kept. The same program runs on the files of a
computer and on a tree of files that is a value.
-/

namespace AbiBindings.Files

/-- The operations on files. -/
structure Storage (m : Type → Type) where
  /-- Whether something is at a path. -/
  isPresent : String → m Bool
  /-- The text of the file at a path. -/
  readText : String → m (Except Fault String)
  /-- Makes the directory at a path, and those on the way to it, unless it is there. -/
  makeDirectory : String → m (Except Fault Unit)
  /-- Puts a text into the file at a path, which is made if it is not there. -/
  writeText : String → String → m (Except Fault Unit)

end AbiBindings.Files
