import AbiBindings.Client.Output
import AbiBindings.Command.Options

/-!
# The command

Checks a manifest, or generates a client from it. The outcome is an exit code with what is printed;
what happens to files happens in the storage that the command is given.
-/

namespace AbiBindings.Command

open Client

/-- What the command leaves behind besides files. -/
structure Outcome where
  code : UInt32
  output : String
  errors : String
deriving Repr, DecidableEq

namespace Outcome

/-- All went well. -/
def success (lines : List String) : Outcome :=
  ⟨0, String.join (lines.map (· ++ "\n")), ""⟩

/-- Something went wrong. -/
def failure (message : String) : Outcome := ⟨1, "", message ++ "\n"⟩

end Outcome

/-- The name of the command and its version. -/
def versionText : String := "abi-codegen 0.1.0"

/-- How the command is used. -/
def usage : String := "Usage: abi-codegen [OPTIONS]"

/-- The description of the command and its options. -/
def helpLines : List String :=
  ["Validates a WASM-ABI v1 manifest and generates a typed TypeScript client", "",
    usage, "", "Options:",
    "  -i, --input <INPUT>              Input ABI JSON file [default: " ++ defaultInput ++ "]",
    "  -o, --out-dir <OUT_DIR>          Output directory for generated files [default: " ++
      defaultDirectory ++ "] [aliases: --outDir]",
    "      --client-name <CLIENT_NAME>  Client class name (default: derived from --name-from or " ++
      "the input file)",
    "      --name-from <NAME_FROM>      Derive the client name from this path, e.g. the " ++
      "compiled wasm file",
    "      --import-path <IMPORT_PATH>  Module to import CalimeroApp and Context from [default: " ++
      defaultImportPath ++ "]",
    "      --validate                   Validate the manifest only; no code generation",
    "  -v, --verbose                    Enable debug logging on stderr",
    "  -h, --help                       Print help",
    "  -V, --version                    Print version"]

/-- The outcome when the arguments end the run early. -/
def Stop.outcome : Stop → Outcome
  | refused error =>
    ⟨2, "", "error: " ++ error.message ++ "\n\n" ++ usage ++
      "\n\nFor more information, try '--help'.\n"⟩
  | showHelp => .success helpLines
  | showVersion => .success [versionText]

/-- How many methods, events and types a manifest has. -/
def summary (manifest : Manifest) : List String :=
  ["Summary:", "  Methods: " ++ toString manifest.methods.length,
    "  Events: " ++ toString manifest.events.length, "  Types: " ++ toString manifest.types.length]

variable {m : Type → Type} [Monad m] (files : Files.Storage m)

/-- Checks a manifest. -/
def runValidate (input : String) : m Outcome := do
  match ← loadManifest files input with
  | .error error => return .failure ("Validation failed: " ++ error.message)
  | .ok manifest => return .success ("ABI manifest validated successfully" :: summary manifest)

/-- The settings of the client that the options ask for. -/
def Options.config (options : Options) : Config :=
  { Config.named (NameSource.select options.clientName options.nameFrom options.input).resolve with
    importPath := options.importPath }

/-- Generates a client. -/
def runGenerate (options : Options) : m Outcome := do
  let config := options.config
  let failed := fun (error : Error) ↦ Outcome.failure ("Code generation failed: " ++ error.message)
  match ← loadManifest files options.input with
  | .error error => return failed error
  | .ok manifest =>
    match generate manifest config with
    | .error error => return failed error
    | .ok generated =>
      match ← generated.writeTo files options.outDir config with
      | .error error => return failed error
      | .ok paths =>
        return .success <|
          "Code generation completed successfully" :: summary manifest ++
            ["  Client: " ++ config.clientName, "Generated files:", "  " ++ paths.types,
              "  " ++ paths.client]

/-- Does what the options ask for. -/
def runOptions (options : Options) : m Outcome := do
  if !(← files.isPresent options.input) then
    return .failure ("Error: ABI file not found at " ++ options.input)
  else if options.validate then runValidate files options.input
  else runGenerate files options

/-- Runs the command with the given arguments. -/
def run (args : List String) : m Outcome :=
  match Options.ofArguments args with
  | .error stop => pure stop.outcome
  | .ok options => runOptions files options

end AbiBindings.Command
