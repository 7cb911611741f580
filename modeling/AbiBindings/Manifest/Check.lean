import AbiBindings.Error
import AbiBindings.Manifest.Alias
import AbiBindings.Manifest.Walk

/-!
# Checks across a document

What no check of a single value can tell: that references lead to definitions, that the keys of maps
are strings, and that names are given once. Each check collects everything it objects to, and the
checks run in this order until one objects.
-/

namespace AbiBindings.Document

/-- The occurrence is a reference to a type without a definition. -/
def dangling? (types : List (String × TypeDef)) (occurrence : Occurrence) :
    Option DanglingReference :=
  match occurrence.type with
  | .reference name =>
    if Table.contains name types then none else some ⟨name, occurrence.location⟩
  | _ => none

/-- The occurrence is a map whose keys are no strings. -/
def nonStringKey? (types : List (String × TypeDef)) (occurrence : Occurrence) : Option String :=
  match occurrence.type with
  | .map key _ => if Alias.isString types key then none else some occurrence.location
  | _ => none

/-- The names that occur again after the names already `seen`, each once, in the order of their
second occurrence; `found` are those that are known already. -/
def repeatedFrom (seen found : List String) : List String → List String
  | [] => []
  | name :: names =>
    if name ∈ seen then
      if name ∈ found then repeatedFrom seen found names
      else name :: repeatedFrom seen (name :: found) names
    else repeatedFrom (name :: seen) found names

/-- The names that occur more than once, in the order of their second occurrence. -/
def repeated (names : List String) : List String :=
  repeatedFrom [] [] names

/-- References lead to definitions. -/
def checkReferences (document : Document) : Except Error Unit :=
  match document.occurrences.filterMap (dangling? document.types) with
  | [] => .ok ()
  | references => .error (.danglingReferences references)

/-- The keys of maps are strings. -/
def checkMapKeys (document : Document) : Except Error Unit :=
  match document.occurrences.filterMap (nonStringKey? document.types) with
  | [] => .ok ()
  | locations => .error (.nonStringKeys locations)

/-- Names are given once. -/
def checkUnique (kind : NameKind) (names : List String) : Except Error Unit :=
  match repeated names with
  | [] => .ok ()
  | names => .error (.duplicateNames kind names)

/-- The manifest of a document that passes every check. -/
def check (document : Document) : Except Error Manifest := do
  document.checkReferences
  document.checkMapKeys
  checkUnique .method (document.methods.map Method.name)
  checkUnique .event (document.events.map Event.name)
  checkUnique .type (Table.names document.types)
  return .ofDocument document

end AbiBindings.Document
