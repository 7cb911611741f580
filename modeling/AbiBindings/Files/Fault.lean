/-!
# Faults of the file system

Why a file cannot be read or written, or a directory cannot be made.
-/

namespace AbiBindings.Files

/-- Why an operation on files fails. -/
inductive Fault where
  | notFound
  | alreadyExists
  | notADirectory
  | isADirectory
  | notText
  /-- Any other reason, in the words of the system. -/
  | other (reason : String)
deriving Repr, DecidableEq

/-- The wording of a fault. -/
def Fault.message : Fault → String
  | notFound => "No such file or directory (os error 2)"
  | alreadyExists => "File exists (os error 17)"
  | notADirectory => "Not a directory (os error 20)"
  | isADirectory => "Is a directory (os error 21)"
  | notText => "stream did not contain valid UTF-8"
  | other reason => reason

end AbiBindings.Files
