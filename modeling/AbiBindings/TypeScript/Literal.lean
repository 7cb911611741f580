import AbiBindings.TypeScript.Identifier

/-!
# String literals and property keys

A string literal stands in quotes of one kind. A backslash comes before a backslash or a quote of
that kind, and stands with a letter for a tab, a line feed or a carriage return; every other
character stands for itself. A property key is bare where it is an identifier and a literal
otherwise.
-/

namespace AbiBindings.TypeScript

/-- One character inside quotes of the given kind. -/
def escapedChar (quote c : Char) : List Char :=
  if c = '\\' then ['\\', '\\']
  else if c = '\n' then ['\\', 'n']
  else if c = '\r' then ['\\', 'r']
  else if c = '\t' then ['\\', 't']
  else if c = quote then ['\\', c]
  else [c]

/-- The literal with quotes of the given kind. -/
def literal (quote : Char) (text : List Char) : List Char :=
  quote :: text.flatMap (escapedChar quote) ++ [quote]

/-- The literal with single quotes. -/
def stringLiteral (text : String) : String :=
  String.ofList (literal '\'' text.toList)

/-- The literal with double quotes. -/
def quotedKey (text : String) : String :=
  String.ofList (literal '"' text.toList)

/-- The text as the key of a property. -/
def propertyKey (text : String) : String :=
  if isIdentifier text then text else quotedKey text

/-- Access to the property with the text as its key. -/
def propertyAccess (text : String) : String :=
  if isIdentifier text then "." ++ text else "[" ++ quotedKey text ++ "]"

end AbiBindings.TypeScript
