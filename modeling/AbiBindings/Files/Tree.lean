import AbiBindings.Files.Path
import AbiBindings.Files.Storage
import AbiBindings.Text.Utf8

/-!
# Trees of files

A file system as a value: what is at each location, and which directory is the current one. A
location is the list of the names that lead to it from the root of all directories, which is always
there.

A path is followed name by name. Every place that it goes on from has to be a directory; `.` stays
there, and so does an empty name, and `..` goes to the directory that it is in.
-/

namespace AbiBindings.Files

/-- The names that lead to a place. -/
abbrev Location := List String

/-- What is at a place. -/
inductive Content where
  | directory
  | file (bytes : List UInt8)
deriving Repr, DecidableEq

/-- A tree of files. -/
structure Tree where
  entries : List (Location × Content)
  current : Location
deriving Repr

namespace Tree

/-! ### Places -/

/-- What is at a location. -/
def find? (tree : Tree) (location : Location) : Option Content :=
  if location = [] then some .directory else tree.entries.lookup location

/-- Sets what is at a location. -/
def insert (tree : Tree) (location : Location) (content : Content) : Tree :=
  { tree with entries := set tree.entries }
where
  /-- The entries with the content at the location. -/
  set : List (Location × Content) → List (Location × Content)
    | [] => [(location, content)]
    | (l, c) :: rest => if l = location then (l, content) :: rest else (l, c) :: set rest

/-! ### Paths -/

/-- The names of a path. -/
def pathNames (path : String) : List String :=
  (Text.pieces (· = '/') path.toList).map String.ofList

/-- Where a path starts. -/
def start (tree : Tree) (path : String) : Location :=
  if isAbsolute path then [] else tree.current

/-- The place is a directory. -/
def enter (tree : Tree) (location : Location) : Except Fault Unit :=
  match tree.find? location with
  | some .directory => .ok ()
  | some (.file _) => .error .notADirectory
  | none => .error .notFound

/-- The place that a name leads to from a directory. -/
def step (location : Location) (name : String) : Location :=
  if name = "" ∨ name = "." then location
  else if name = ".." then location.dropLast
  else location ++ [name]

/-- The place that names lead to, which need not be there itself. -/
def walk (tree : Tree) : Location → List String → Except Fault Location
  | location, [] => .ok location
  | location, name :: names => do
    tree.enter location
    tree.walk (step location name) names

/-- The place at a path and what is there. -/
def resolve (tree : Tree) (path : String) : Except Fault (Location × Content) := do
  if path = "" then .error .notFound
  let location ← tree.walk (tree.start path) (pathNames path)
  match tree.find? location with
  | some content => return (location, content)
  | none => .error .notFound

/-! ### Reading -/

/-- Whether something is at a path. -/
def isPresent (tree : Tree) (path : String) : Bool := (tree.resolve path).isOk

/-- Whether a directory is at a path. -/
def isDirectory (tree : Tree) (path : String) : Bool :=
  match tree.resolve path with
  | .ok (_, .directory) => true
  | _ => false

/-- The text of the file at a path. -/
def readText (tree : Tree) (path : String) : Except Fault String := do
  match (← tree.resolve path).2 with
  | .directory => .error .isADirectory
  | .file bytes =>
    match Text.Utf8.decode? bytes with
    | some text => return text
    | none => .error .notText

/-! ### Writing -/

/-- The names of a path that are not empty, and whether it starts at the root. -/
structure Route where
  fromRoot : Bool
  names : List String

namespace Route

/-- The route of a path. -/
def ofPath (path : String) : Route :=
  ⟨isAbsolute path, (pathNames path).filter (· ≠ "")⟩

/-- The path of a route. -/
def path (route : Route) : String :=
  (if route.fromRoot then "/" else "") ++ "/".intercalate route.names

/-- The names without the `.` that they may end in; one at the start of a path is kept. -/
def trimmed (fromRoot : Bool) : (count : Nat) → List String → List String
  | 0, names => names
  | count + 1, names =>
    if names.getLast? = some "." ∧ (fromRoot ∨ 1 < names.length) then
      trimmed fromRoot count names.dropLast
    else names

/-- The route without its last name. -/
def parent (route : Route) : Route :=
  let count := route.names.length
  let names := (trimmed route.fromRoot count route.names).dropLast
  ⟨route.fromRoot, trimmed route.fromRoot count names⟩

end Route

/-- Makes the directory at the end of a route, in a directory that is there. -/
def makeOne (tree : Tree) (route : Route) : Except Fault Tree := do
  let start := if route.fromRoot then [] else tree.current
  match route.names.getLast? with
  | none => .error (if route.fromRoot then .alreadyExists else .notFound)
  | some name =>
    let location ← tree.walk start route.names.dropLast
    tree.enter location
    if name = "." ∨ name = ".." then .error .alreadyExists
    match tree.find? (location ++ [name]) with
    | some _ => .error .alreadyExists
    | none => return tree.insert (location ++ [name]) .directory

/-- What a failure to make a directory comes to: none, if the directory is there. -/
def unlessThere (tree : Tree) (route : Route) (fault : Fault) : Tree × Except Fault Unit :=
  if tree.isDirectory route.path then (tree, .ok ()) else (tree, .error fault)

/-- Makes the directory at the end of a route, and those on the way to it that are not there. -/
def makeAll : (count : Nat) → Tree → Route → Tree × Except Fault Unit
  | 0, tree, _ => (tree, .ok ())
  | count + 1, tree, route =>
    if !route.fromRoot ∧ route.names = [] then (tree, .ok ())
    else
      match tree.makeOne route with
      | .ok tree => (tree, .ok ())
      | .error .notFound =>
        match makeAll count tree route.parent with
        | (tree, .error fault) => (tree, .error fault)
        | (tree, .ok ()) =>
          match tree.makeOne route with
          | .ok tree => (tree, .ok ())
          | .error fault => tree.unlessThere route fault
      | .error fault => tree.unlessThere route fault

/-- Makes the directory at a path, and those on the way to it. -/
def makeDirectory (tree : Tree) (path : String) : Tree × Except Fault Unit :=
  let route := Route.ofPath path
  tree.makeAll (route.names.length + 1) route

/-- Puts bytes into the file at a path. -/
def writeBytes (tree : Tree) (path : String) (bytes : List UInt8) : Except Fault Tree := do
  if path = "" then .error .notFound
  let location ← tree.walk (tree.start path) (pathNames path).dropLast
  tree.enter location
  let name := (pathNames path).getLastD ""
  let location := step location name
  match tree.find? location with
  | some .directory => .error .isADirectory
  | _ => return tree.insert location (.file bytes)

/-- Puts a text into the file at a path. -/
def writeText (tree : Tree) (path text : String) : Tree × Except Fault Unit :=
  match tree.writeBytes path (Text.Utf8.encode text) with
  | .ok tree => (tree, .ok ())
  | .error fault => (tree, .error fault)

/-! ### Views -/

/-- The paths of all that is below the current directory, with what is there. -/
def below (tree : Tree) : List (String × Content) :=
  tree.entries.filterMap fun (location, content) ↦
    if tree.current.isPrefixOf location ∧ location ≠ tree.current then
      some ("/".intercalate (location.drop tree.current.length), content)
    else none

/-- An empty current directory with the given name. -/
def empty (name : String) : Tree := ⟨[([name], .directory)], [name]⟩

/-- The tree as it is passed on from operation to operation. -/
def storage : Storage (StateM Tree) where
  isPresent path := return (← get).isPresent path
  readText path := return (← get).readText path
  makeDirectory path := modifyGet fun tree ↦ (tree.makeDirectory path).swap
  writeText path text := modifyGet fun tree ↦ (tree.writeText path text).swap

end Tree

end AbiBindings.Files
