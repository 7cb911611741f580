/-!
# Identifiers

An identifier starts with an ASCII letter, an underscore or a dollar sign, goes on with these and
with ASCII digits, and is none of the reserved words. `identifier` makes any text into one and
leaves an identifier as it is.
-/

namespace AbiBindings.TypeScript

/-- Words that a declaration cannot have for a name. -/
def reservedWords : List String :=
  ["break", "case", "catch", "class", "const", "continue", "debugger", "default", "delete", "do",
    "else", "enum", "export", "extends", "false", "finally", "for", "function", "if", "import",
    "in", "instanceof", "new", "null", "return", "super", "switch", "this", "throw", "true", "try",
    "typeof", "var", "void", "while", "with", "as", "implements", "interface", "let", "package",
    "private", "protected", "public", "static", "yield", "any", "await", "boolean", "constructor",
    "declare", "module", "number", "string", "symbol", "type", "keyof", "namespace", "abstract",
    "never", "object", "unknown", "bigint", "undefined"]

/-- Whether the text is a reserved word. -/
def isReserved (text : String) : Bool := reservedWords.contains text

/-- The character may start an identifier. -/
def isIdentifierStart (c : Char) : Bool := c = '_' || c = '$' || c.isAlpha

/-- The character may stand in an identifier. -/
def isIdentifierChar (c : Char) : Bool := c = '_' || c = '$' || c.isAlphanum

/-- The text has the form of an identifier, reserved or not. -/
def isWord : List Char → Bool
  | [] => false
  | c :: cs => isIdentifierStart c && cs.all isIdentifierChar

/-- Whether the text is an identifier. -/
def isIdentifier (text : String) : Bool :=
  isWord text.toList && !isReserved text

/-- The text in the form of an identifier: a character that cannot stand in one becomes an
underscore, and an underscore comes before a digit at the start. -/
def wordOf (text : List Char) : List Char :=
  match text.map fun c ↦ if isIdentifierChar c then c else '_' with
  | [] => ['_']
  | c :: cs => if c.isDigit then '_' :: c :: cs else c :: cs

/-- The identifier made from a text; an underscore sets it apart from a reserved word. -/
def identifier (text : String) : String :=
  let word := String.ofList (wordOf text.toList)
  if isReserved word then word ++ "_" else word

end AbiBindings.TypeScript
