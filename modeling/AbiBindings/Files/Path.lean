import AbiBindings.Text.Pieces

/-!
# Paths

A path is a text with its parts between slashes. A path that starts with a slash leads from the root
of all directories, any other from the current one.
-/

namespace AbiBindings.Files

/-- Whether a path leads from the root of all directories. -/
def isAbsolute (path : String) : Bool := path.toList.head? = some '/'

/-- The path of a file in a directory. A slash is put between them if there is none. -/
def join (directory file : String) : String :=
  if isAbsolute file then file
  else if directory = "" ∨ directory.toList.getLast? = some '/' then directory ++ file
  else directory ++ "/" ++ file

end AbiBindings.Files
