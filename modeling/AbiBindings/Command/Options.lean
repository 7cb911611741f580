import AbiBindings.Client.Config
import AbiBindings.Text.ControlSequence

/-!
# Options of the command

The arguments of the command are options, with or without a value. A value stands in the same
argument, after an equals sign or, for an option of one letter, right after the letter; or it is the
next argument. Options of one letter that have no value may share an argument.

A next argument that starts with a dash is no value, unless it is only a dash. A value in an
argument of its own is looked at when the next option has been recognized, or at the end; so an
argument that is no option at all is noticed first.
-/

namespace AbiBindings.Command

/-- The options. -/
inductive Flag where
  | input
  | outDir
  | clientName
  | nameFrom
  | importPath
  | validate
  | verbose
  | help
  | version
deriving Repr, DecidableEq

namespace Flag

/-- The option has a value. -/
def takesValue : Flag → Bool
  | input | outDir | clientName | nameFrom | importPath => true
  | validate | verbose | help | version => false

/-- The value of the option is a path, which cannot be empty. -/
def isPath : Flag → Bool
  | input | outDir => true
  | _ => false

/-- The option in messages. -/
def describe : Flag → String
  | input => "--input <INPUT>"
  | outDir => "--out-dir <OUT_DIR>"
  | clientName => "--client-name <CLIENT_NAME>"
  | nameFrom => "--name-from <NAME_FROM>"
  | importPath => "--import-path <IMPORT_PATH>"
  | validate => "--validate"
  | verbose => "--verbose"
  | help => "--help"
  | version => "--version"

/-- The words for options, without their dashes. -/
def words : List (String × Flag) :=
  [("input", input), ("out-dir", outDir), ("outDir", outDir), ("client-name", clientName),
    ("name-from", nameFrom), ("import-path", importPath), ("validate", validate),
    ("verbose", verbose), ("help", help), ("version", version)]

/-- The letters for options. -/
def letters : List (Char × Flag) :=
  [('i', input), ('o', outDir), ('v', verbose), ('h', help), ('V', version)]

end Flag

/-- Why the arguments are refused. -/
inductive UsageError where
  | unexpectedArgument (argument : String)
  | repeated (flag : Flag)
  | missingValue (flag : Flag)
  | unexpectedValue (value : String) (flag : Flag)
deriving Repr, DecidableEq

/-- The wording of a refusal. Arguments are shown without control sequences, so that they cannot
command the terminal. -/
def UsageError.message : UsageError → String
  | unexpectedArgument argument =>
    "unexpected argument '" ++ Text.withoutControls argument ++ "' found"
  | repeated flag => "the argument '" ++ flag.describe ++ "' cannot be used multiple times"
  | missingValue flag => "a value is required for '" ++ flag.describe ++ "' but none was supplied"
  | unexpectedValue value flag =>
    "unexpected value '" ++ Text.withoutControls value ++ "' for '" ++ flag.describe ++
      "' found; no more were expected"

/-- What ends the reading of the arguments early. -/
inductive Stop where
  | refused (error : UsageError)
  | showHelp
  | showVersion
deriving Repr, DecidableEq

/-! ### Reading arguments -/

/-- The options read so far. -/
structure Progress where
  /-- The options with their values, the last one first. -/
  given : List (Flag × String) := []
  /-- An option whose value is an argument of its own, which may still have to come. -/
  pending : Option (Flag × Option String) := none
  /-- No more options are read. -/
  ended : Bool := false
deriving Repr

namespace Progress

/-- Whether an option has been read. -/
def has (progress : Progress) (flag : Flag) : Bool :=
  (progress.given.lookup flag).isSome

/-- Adds an option with its value. -/
def add (progress : Progress) (flag : Flag) (value : String) : Except Stop Progress :=
  if progress.has flag then .error (.refused (.repeated flag))
  else if flag.isPath ∧ value = "" then .error (.refused (.missingValue flag))
  else .ok { progress with given := (flag, value) :: progress.given }

/-- Adds the option whose value was an argument of its own. -/
def settle (progress : Progress) : Except Stop Progress :=
  match progress.pending with
  | none => .ok progress
  | some (flag, none) => .error (.refused (.missingValue flag))
  | some (flag, some value) => { progress with pending := none }.add flag value

/-- An option without a value. -/
def plain (progress : Progress) (flag : Flag) : Except Stop Progress := do
  let progress ← progress.settle
  match flag with
  | .help => .error .showHelp
  | .version => .error .showVersion
  | _ => progress.add flag ""

/-- An option with its value in the same argument. -/
def attached (progress : Progress) (flag : Flag) (value : String) : Except Stop Progress := do
  let progress ← progress.settle
  progress.add flag value

/-- An option whose value is still to come. -/
def await (progress : Progress) (flag : Flag) : Except Stop Progress := do
  let progress ← progress.settle
  return { progress with pending := some (flag, none) }

/-- Reads an option given by a word, after its dashes. -/
def word (progress : Progress) (argument : List Char) : Except Stop Progress :=
  let name := String.ofList (argument.takeWhile (· ≠ '='))
  let value : Option String :=
    match argument.dropWhile (· ≠ '=') with
    | [] => none
    | _ :: cs => some (String.ofList cs)
  match Flag.words.lookup name, value with
  | none, _ => .error (.refused (.unexpectedArgument ("--" ++ name)))
  | some flag, none => if flag.takesValue then progress.await flag else progress.plain flag
  | some flag, some value =>
    if flag.takesValue then progress.attached flag value
    else .error (.refused (.unexpectedValue value flag))

/-- Reads options given by letters, after their dash. -/
def letters (progress : Progress) : List Char → Except Stop Progress
  | [] => .ok progress
  | c :: cs =>
    match Flag.letters.lookup c with
    | none => .error (.refused (.unexpectedArgument (String.ofList ['-', c])))
    | some flag =>
      if flag.takesValue then
        match cs with
        | [] => progress.await flag
        | '=' :: value => progress.attached flag (String.ofList value)
        | value => progress.attached flag (String.ofList value)
      else do
        let progress ← progress.plain flag
        progress.letters cs

/-- Reads an argument that is no option. -/
def value (progress : Progress) (argument : String) : Except Stop Progress :=
  match progress.ended, progress.pending with
  | false, some (flag, none) => .ok { progress with pending := some (flag, some argument) }
  | _, _ => .error (.refused (.unexpectedArgument argument))

/-- Reads an argument. Two dashes alone end the options. -/
def argument (progress : Progress) (arg : String) : Except Stop Progress :=
  if progress.ended then progress.value arg
  else
    match arg.toList with
    | ['-', '-'] => .ok { progress with ended := true }
    | '-' :: '-' :: cs => progress.word cs
    | '-' :: c :: cs => progress.letters (c :: cs)
    | _ => progress.value arg

/-- Reads arguments in turn. -/
def arguments (progress : Progress) : List String → Except Stop Progress
  | [] => progress.settle
  | arg :: args => do
    let progress ← progress.argument arg
    progress.arguments args

end Progress

/-! ### Options -/

/-- What the command is asked to do. -/
structure Options where
  input : String
  outDir : String
  clientName : Option String
  nameFrom : Option String
  importPath : String
  /-- The manifest is only checked. -/
  validate : Bool
  verbose : Bool
deriving Repr, DecidableEq

/-- The options that the arguments give. -/
def Options.ofArguments (args : List String) : Except Stop Options := do
  let progress ← Progress.arguments {} args
  let value := fun (flag : Flag) ↦ progress.given.lookup flag
  return {
    input := (value .input).getD Client.defaultInput
    outDir := (value .outDir).getD Client.defaultDirectory
    clientName := value .clientName
    nameFrom := value .nameFrom
    importPath := (value .importPath).getD Client.defaultImportPath
    validate := progress.has .validate
    verbose := progress.has .verbose }

end AbiBindings.Command
