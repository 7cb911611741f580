import AbiBindings.Manifest.Reading
import AbiBindings.Text.Blank
import AbiBindings.Text.Case
import AbiBindings.Text.Pieces
import AbiBindings.Text.Position
import AbiBindings.Text.Quoted
import AbiBindings.Json.Pointer
import AbiBindings.Manifest.Alias
import AbiBindings.Manifest.Grammar
import AbiBindings.Manifest.Replication
import AbiBindings.Manifest.Schema
import AbiBindings.Manifest.Walk
import AbiBindings.Error
import AbiBindings.Manifest.Check
import AbiBindings.Manifest.Load
import AbiBindings.TypeScript.Casing
import AbiBindings.TypeScript.Identifier
import AbiBindings.TypeScript.Layout
import AbiBindings.TypeScript.Literal
import AbiBindings.TypeScript.NameSet
import AbiBindings.TypeScript.TypeExpr
import AbiBindings.Client.Bytes
import AbiBindings.Client.Config
import AbiBindings.Client.ResultShape
import AbiBindings.Client.Scope
import AbiBindings.Client.Declaration
import AbiBindings.Client.Generate
import AbiBindings.Client.Output
import AbiBindings.Command.Options
import AbiBindings.Command.Run
import AbiBindings.Files.Tree
import AbiBindings.Main
import AbiBindings.Proofs.Outcome
import AbiBindings.Proofs.Table
import AbiBindings.Proofs.Listing
import AbiBindings.Proofs.Manifest.Repetition
import AbiBindings.Proofs.Manifest.Aliases
import AbiBindings.Proofs.Manifest.Occurrences
import AbiBindings.Proofs.Manifest.Checks
import AbiBindings.Proofs.Manifest.Obtained
import AbiBindings.Proofs.Client.Totality
import AbiBindings.Proofs.Json.Tree
import AbiBindings.Proofs.Manifest.ReadAlike
import AbiBindings.Proofs.Manifest.WrittenForm
import AbiBindings.Proofs.Manifest.Equality
import AbiBindings.Proofs.Manifest.EntryPoints
import AbiBindings.Proofs.Text.Pieces
import AbiBindings.Proofs.TypeScript.Lexer
import AbiBindings.Proofs.TypeScript.NeutralText
import AbiBindings.Proofs.TypeScript.Rendering
import AbiBindings.Proofs.TypeScript.LineReader
import AbiBindings.Proofs.Client.Declarations
import AbiBindings.Proofs.Client.Wrappers
import AbiBindings.Proofs.Client.Confinement
import AbiBindings.Proofs.TypeScript.Allocation
import AbiBindings.Proofs.TypeScript.AllocationRun
import AbiBindings.Proofs.Client.DeclaredNames
import AbiBindings.Proofs.Client.BinaryTypes
import AbiBindings.Proofs.Manifest.Keywise
import AbiBindings.Proofs.Manifest.TypedReading
import AbiBindings.Proofs.Manifest.FormatAgreement
import AbiBindings.Proofs.Manifest.OneForm
import AbiBindings.Proofs.TypeScript.Statements
import AbiBindings.Proofs.TypeScript.Exports
import AbiBindings.Proofs.Client.TypeResolution
import AbiBindings.Proofs.Client.ExportedNames
import AbiBindings.Proofs.Manifest.Lookup
import AbiBindings.Proofs.TypeScript.Seams
import AbiBindings.Proofs.Client.SharedDeclarations
import AbiBindings.Proofs.TypeScript.ExportLines
import AbiBindings.Proofs.Client.Emission
import AbiBindings.Proofs.Manifest.ManifestForm
import AbiBindings.Proofs.Manifest.Expressible
import AbiBindings.Proofs.Manifest.KnownKeys
import AbiBindings.Proofs.Manifest.Version
import AbiBindings.Proofs.Manifest.RepeatedTypes
import AbiBindings.Proofs.Text.Utf8
import AbiBindings.Proofs.Files.Tree
import AbiBindings.Proofs.Client.WrittenTexts
import AbiBindings.Proofs.Manifest.AliasCycles
import AbiBindings.Proofs.Client.VisitedNames
import AbiBindings.Proofs.Client.CircularAliases
import AbiBindings.Proofs.Client.GlobalNames
import AbiBindings.Proofs.TypeScript.StringReader
import AbiBindings.Proofs.TypeScript.TypeGrammar
import AbiBindings.Proofs.TypeScript.CodeLines
import AbiBindings.Proofs.Client.ClientMembers
import AbiBindings.Proofs.TypeScript.Tokens
import AbiBindings.Proofs.TypeScript.TypePositions
import AbiBindings.Proofs.Client.WrittenTypes
import AbiBindings.Proofs.Client.NameClosure
import AbiBindings.Proofs.Client.TopLevelNames
import AbiBindings.Proofs.Files.Frame
import AbiBindings.Proofs.Command.Effects
import AbiBindings.Proofs.Client.TypeReading
import AbiBindings.Proofs.Manifest.Removal
import AbiBindings.Proofs.Client.AliasEnds
import AbiBindings.Proofs.TypeScript.ObjectLiteral
import AbiBindings.Proofs.Client.ResultPositions
import AbiBindings.Proofs.TypeScript.Composition
import AbiBindings.Proofs.TypeScript.RenderedLines
import AbiBindings.Proofs.TypeScript.Quoting
import AbiBindings.Proofs.TypeScript.CommentEnds
import AbiBindings.Proofs.Client.ClientName
import AbiBindings.Proofs.Manifest.Stripping
import AbiBindings.Proofs.Json.Pointer
