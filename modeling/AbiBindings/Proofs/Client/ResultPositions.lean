import AbiBindings.Client.ResultShape
import AbiBindings.Proofs.Manifest.Occurrences
import AbiBindings.Proofs.Table
import AbiBindings.Proofs.TypeScript.ObjectLiteral

/-!
# What the shape of a result marks

A path of accesses goes from a value into it: to an item of a list, a value of a map, a field of a
record or the payload of a case. `Accesses` says which types stand at the ends of the paths from a
type, with the names of defined types that are entered on the way. A type that contains itself has
paths of any length.

The text of a shape is read as an object literal and the literal as a shape again
(`ofLiteral?_literal`), which marks paths by where its `'bytes'` stand. The shape of a type marks
the paths to byte sequences on which no name is entered twice, each as often as it has places and in
the order of the places (`listsInOrder_ofType`). On these paths the names are different entries of
the type table, so the bound on the depth of a shape is never felt.
-/

namespace AbiBindings

/-- The type that a defined type stands for, unless it is a variant. -/
def TypeDef.body? : TypeDef → Option TypeRef
  | .record fields => some (.record fields)
  | .variant _ => none
  | .bytes length => some (.bytes length)
  | .aliasOf target => some target

namespace Client

open TypeScript

/-- A step from a value into it. -/
inductive Access where
  | item
  | value
  | field (name : String)
  | case (name : String)
deriving Repr, DecidableEq

/-! ### Reading shapes -/

namespace ResultShape

mutual

/-- The paths that a shape marks. -/
def positions : ResultShape → List (List Access)
  | bytes => [[]]
  | list items => items.positions.map (.item :: ·)
  | map values => values.positions.map (.value :: ·)
  | record members => memberPositions .field members
  | variant members => memberPositions .case members

/-- The paths that members mark. -/
def memberPositions (access : String → Access) : List (String × ResultShape) → List (List Access)
  | [] => []
  | (name, shape) :: members =>
    shape.positions.map (access name :: ·) ++ memberPositions access members

end

mutual

/-- The value that a shape is written as. -/
def literal : ResultShape → LiteralValue
  | bytes => .string "bytes"
  | list items => .object [("list", items.literal)]
  | map values => .object [("map", values.literal)]
  | record members => .object [("record", .object (memberLiterals members))]
  | variant members => .object [("variant", .object (memberLiterals members))]

/-- The entries that members are written as. -/
def memberLiterals : List (String × ResultShape) → List (String × LiteralValue)
  | [] => []
  | (name, shape) :: members => (name, shape.literal) :: memberLiterals members

end

mutual

/-- The shape that a value is read as. -/
def ofLiteral? : LiteralValue → Option ResultShape
  | .string text => if text = "bytes" then some bytes else none
  | .object [(key, value)] =>
    if key = "list" then (ofLiteral? value).map list
    else if key = "map" then (ofLiteral? value).map map
    else if key = "record" then (membersOf? value).map record
    else if key = "variant" then (membersOf? value).map variant
    else none
  | .object _ => none

/-- The members that a value is read as. -/
def membersOf? : LiteralValue → Option (List (String × ResultShape))
  | .string _ => none
  | .object entries => ofEntries? entries

/-- The members that entries are read as. -/
def ofEntries? : List (String × LiteralValue) → Option (List (String × ResultShape))
  | [] => some []
  | (name, value) :: entries => do
    let shape ← ofLiteral? value
    let members ← ofEntries? entries
    return (name, shape) :: members

end

/-- A value with one entry is written with its key in front. -/
theorem text_object_singleton {key : String} (value : LiteralValue) (start : String)
    (hstart : "\x7b " ++ propertyKey key ++ ": " = start) :
    (LiteralValue.object [(key, value)]).text = start ++ value.text ++ " \x7d" := by
  rw [LiteralValue.text, LiteralValue.entryTexts, LiteralValue.entryTexts,
    String.intercalate_singleton, ← hstart]
  simp only [String.append_assoc]

theorem text_object_members {key : String} (entries : List (String × LiteralValue)) (start : String)
    (hstart : "\x7b " ++ propertyKey key ++ ": " ++ "\x7b " = start) :
    (LiteralValue.object [(key, .object entries)]).text =
      start ++ ", ".intercalate (LiteralValue.entryTexts entries) ++ " \x7d \x7d" := by
  have hclose : " \x7d" ++ " \x7d" = " \x7d \x7d" := by decide
  rw [text_object_singleton _ _ rfl, LiteralValue.text, ← hstart, ← hclose]
  simp only [String.append_assoc]

mutual

/-- The text of a shape is that of the value it is written as. -/
theorem text_literal (shape : ResultShape) : shape.literal.text = shape.text := by
  cases shape with
  | bytes => rfl
  | list items =>
    rw [literal, text_object_singleton _ "\x7b list: " (by decide), text_literal items]
    rfl
  | map values =>
    rw [literal, text_object_singleton _ "\x7b map: " (by decide), text_literal values]
    rfl
  | record members =>
    rw [literal, text_object_members _ "\x7b record: \x7b " (by decide),
      entryTexts_memberLiterals members]
    rfl
  | variant members =>
    rw [literal, text_object_members _ "\x7b variant: \x7b " (by decide),
      entryTexts_memberLiterals members]
    rfl

/-- The members of a shape are written like the entries of an object literal. -/
theorem entryTexts_memberLiterals (members : List (String × ResultShape)) :
    LiteralValue.entryTexts (memberLiterals members) = memberTexts members := by
  cases members with
  | nil => rw [memberLiterals, memberTexts, LiteralValue.entryTexts]
  | cons member members =>
    obtain ⟨name, shape⟩ := member
    rw [memberLiterals, memberTexts, LiteralValue.entryTexts, text_literal shape,
      entryTexts_memberLiterals members]

end

mutual

/-- A shape is read off its literal. -/
theorem ofLiteral?_literal (shape : ResultShape) : ofLiteral? shape.literal = some shape := by
  cases shape with
  | bytes => rfl
  | list items => rw [literal, ofLiteral?, if_pos rfl, ofLiteral?_literal items, Option.map_some]
  | map values =>
    rw [literal, ofLiteral?, if_neg (by decide), if_pos rfl, ofLiteral?_literal values,
      Option.map_some]
  | record members =>
    rw [literal, ofLiteral?, if_neg (by decide), if_neg (by decide), if_pos rfl, membersOf?,
      ofEntries?_memberLiterals members, Option.map_some]
  | variant members =>
    rw [literal, ofLiteral?, if_neg (by decide), if_neg (by decide), if_neg (by decide),
      if_pos rfl, membersOf?, ofEntries?_memberLiterals members, Option.map_some]

theorem ofEntries?_memberLiterals (members : List (String × ResultShape)) :
    ofEntries? (memberLiterals members) = some members := by
  cases members with
  | nil => rw [memberLiterals, ofEntries?]
  | cons member members =>
    obtain ⟨name, shape⟩ := member
    rw [memberLiterals, ofEntries?, ofLiteral?_literal shape, ofEntries?_memberLiterals members]
    rfl

end

end ResultShape

/-! ### Paths of accesses -/

/-- From a value of the type, the path leads to a value of another type. The place tells the members
of one name apart, and the names are those of the defined types that are entered. -/
inductive Accesses (types : List (String × TypeDef)) :
    TypeRef → (place : List Nat) → (path : List Access) → (names : List String) → TypeRef → Prop
  | here (type : TypeRef) : Accesses types type [] [] [] type
  | item {items last : TypeRef} {place : List Nat} {path : List Access} {names : List String}
    (h : Accesses types items place path names last) :
    Accesses types (.list items) (0 :: place) (.item :: path) names last
  | value {key value last : TypeRef} {place : List Nat} {path : List Access} {names : List String}
    (h : Accesses types value place path names last) :
    Accesses types (.map key value) (0 :: place) (.value :: path) names last
  | field {fields : List Field} {i : Nat} {field : Field} {last : TypeRef} {place : List Nat}
    {path : List Access}
    {names : List String} (hfield : fields[i]? = some field)
    (h : Accesses types field.type place path names last) :
    Accesses types (.record fields) (i :: place) (.field field.name :: path) names last
  | named {name : String} {typeDef : TypeDef} {body last : TypeRef} {place : List Nat}
    {path : List Access}
    {names : List String} (hfind : Table.find? name types = some typeDef)
    (hbody : typeDef.body? = some body) (h : Accesses types body place path names last) :
    Accesses types (.reference name) place path (name :: names) last
  | case {name : String} {cases : List Case} {i : Nat} {case : Case} {payload last : TypeRef}
    {place : List Nat}
    {path : List Access} {names : List String}
    (hfind : Table.find? name types = some (.variant cases)) (hcase : cases[i]? = some case)
    (hpayload : case.payload = some payload) (h : Accesses types payload place path names last) :
    Accesses types (.reference name) (i :: place) (.case case.name :: path) (name :: names) last

/-- No name is entered twice or while it is being expanded, and there are no more names than
allowed. -/
structure Clear (fuel : Nat) (expanding names : List String) : Prop where
  nodup : names.Nodup
  fresh : ∀ name ∈ names, name ∉ expanding
  length_le : names.length ≤ fuel

theorem clear_cons_iff {fuel : Nat} {expanding names : List String} {name : String} :
    Clear (fuel + 1) expanding (name :: names) ↔ name ∉ expanding ∧
      Clear fuel (name :: expanding) names := by
  constructor
  · rintro ⟨hnodup, hfresh, hlength⟩
    obtain ⟨hname, hnodup⟩ := List.nodup_cons.1 hnodup
    obtain ⟨hnew, hfresh⟩ := List.forall_mem_cons.1 hfresh
    refine ⟨hnew, hnodup, fun other hother hmem ↦ ?_, Nat.le_of_succ_le_succ hlength⟩
    obtain rfl | hmem := List.mem_cons.1 hmem
    · exact hname hother
    · exact hfresh other hother hmem
  · rintro ⟨hnew, hnodup, hfresh, hlength⟩
    have hname : name ∉ names := fun hmem ↦ hfresh name hmem List.mem_cons_self
    exact ⟨List.nodup_cons.2 ⟨hname, hnodup⟩, List.forall_mem_cons.2
      ⟨hnew, fun other hother hmem ↦ hfresh other hother (List.mem_cons_of_mem _ hmem)⟩,
      Nat.succ_le_succ hlength⟩

/-- The path leads to a byte sequence, without entering a name where it must not be. -/
def BytesAt (types : List (String × TypeDef)) (fuel : Nat) (expanding : List String)
    (type : TypeRef) (place : List Nat) (path : List Access) : Prop :=
  ∃ names length, Accesses types type place path names (.bytes length) ∧ Clear fuel expanding names

/-- The path leads to a byte sequence from a value of the defined type. -/
inductive BytesIn (types : List (String × TypeDef)) (fuel : Nat) (expanding : List String) :
    TypeDef → List Nat → List Access → Prop
  | body {typeDef : TypeDef} {body : TypeRef} {place : List Nat} {path : List Access}
    (hbody : typeDef.body? = some body) (h : BytesAt types fuel expanding body place path) :
    BytesIn types fuel expanding typeDef place path
  | case {cases : List Case} {i : Nat} {case : Case} {payload : TypeRef} {place : List Nat}
    {path : List Access} (hcase : cases[i]? = some case) (hpayload : case.payload = some payload)
    (h : BytesAt types fuel expanding payload place path) :
    BytesIn types fuel expanding (.variant cases) (i :: place) (.case case.name :: path)

section Cases

variable {types : List (String × TypeDef)} {fuel : Nat} {expanding : List String} {place : List Nat}
  {path : List Access}

/-- A byte sequence is one itself. -/
theorem bytesAt_bytes_iff {length : ByteLength} :
    BytesAt types fuel expanding (.bytes length) place path ↔ place = [] ∧ path = [] := by
  constructor
  · rintro ⟨names, other, h, -⟩
    cases h
    exact ⟨rfl, rfl⟩
  · rintro ⟨rfl, rfl⟩
    exact ⟨[], length, .here _, List.nodup_nil, List.forall_mem_nil _, Nat.zero_le _⟩

theorem not_bytesAt_scalar {kind : ScalarKind} :
    ¬ BytesAt types fuel expanding (.scalar kind) place path := by
  rintro ⟨names, length, h, -⟩
  cases h

/-- The byte sequences in a list are those in its items. -/
theorem bytesAt_list_iff {items : TypeRef} :
    BytesAt types fuel expanding (.list items) place path ↔
      ∃ inner, (∃ rest, place = 0 :: rest ∧ BytesAt types fuel expanding items rest inner) ∧
      .item :: inner = path := by
  constructor
  · rintro ⟨names, length, h, hclear⟩
    cases h with
    | item h => exact ⟨_, ⟨_, rfl, names, length, h, hclear⟩, rfl⟩
  · rintro ⟨inner, ⟨rest, rfl, names, length, h, hclear⟩, rfl⟩
    exact ⟨names, length, .item h, hclear⟩

/-- Those in a map are those in its values. Keys are not looked at. -/
theorem bytesAt_map_iff {key value : TypeRef} :
    BytesAt types fuel expanding (.map key value) place path ↔
      ∃ inner, (∃ rest, place = 0 :: rest ∧ BytesAt types fuel expanding value rest inner) ∧
        .value :: inner = path := by
  constructor
  · rintro ⟨names, length, h, hclear⟩
    cases h with
    | value h => exact ⟨_, ⟨_, rfl, names, length, h, hclear⟩, rfl⟩
  · rintro ⟨inner, ⟨rest, rfl, names, length, h, hclear⟩, rfl⟩
    exact ⟨names, length, .value h, hclear⟩

/-- Those in a record are those in its fields, in order. -/
theorem bytesAt_record_iff {fields : List Field} :
    BytesAt types fuel expanding (.record fields) place path ↔
      ∃ i rest field, place = i :: rest ∧ fields[i]? = some field ∧
        ∃ inner, BytesAt types fuel expanding field.type rest inner ∧
        .field field.name :: inner = path := by
  constructor
  · rintro ⟨names, length, h, hclear⟩
    cases h with
    | field hfield h => exact ⟨_, _, _, rfl, hfield, _, ⟨names, length, h, hclear⟩, rfl⟩
  · rintro ⟨i, rest, field, rfl, hfield, inner, ⟨names, length, h, hclear⟩, rfl⟩
    exact ⟨names, length, .field hfield h, hclear⟩

/-- Those in a variant are those in the payloads of its cases, in order. -/
theorem bytesIn_variant_iff {cases : List Case} :
    BytesIn types fuel expanding (.variant cases) place path ↔
      ∃ i rest case, place = i :: rest ∧ cases[i]? = some case ∧
        ∃ inner, (∃ payload, case.payload = some payload ∧
          BytesAt types fuel expanding payload rest inner) ∧
          .case case.name :: inner = path := by
  constructor
  · intro h
    cases h with
    | body hbody => cases hbody
    | case hcase hpayload h => exact ⟨_, _, _, rfl, hcase, _, ⟨_, hpayload, h⟩, rfl⟩
  · rintro ⟨i, rest, case, rfl, hcase, inner, ⟨payload, hpayload, h⟩, rfl⟩
    exact .case hcase hpayload h

/-- A name is entered if it is defined and is not being expanded. From then on it is. -/
theorem bytesAt_reference_iff {name : String} :
    BytesAt types (fuel + 1) expanding (.reference name) place path ↔
      name ∉ expanding ∧ ∃ typeDef, Table.find? name types = some typeDef ∧
        BytesIn types fuel (name :: expanding) typeDef place path := by
  constructor
  · rintro ⟨names, length, h, hclear⟩
    cases h with
    | named hfind hbody h =>
      obtain ⟨hname, hclear⟩ := clear_cons_iff.1 hclear
      exact ⟨hname, _, hfind, .body hbody ⟨_, length, h, hclear⟩⟩
    | case hfind hcase hpayload h =>
      obtain ⟨hname, hclear⟩ := clear_cons_iff.1 hclear
      exact ⟨hname, _, hfind, .case hcase hpayload ⟨_, length, h, hclear⟩⟩
  · rintro ⟨hname, typeDef, hfind, h⟩
    cases h with
    | body hbody h =>
      obtain ⟨names, length, h, hclear⟩ := h
      exact ⟨_, length, .named hfind hbody h, clear_cons_iff.2 ⟨hname, hclear⟩⟩
    | case hcase hpayload h =>
      obtain ⟨names, length, h, hclear⟩ := h
      exact ⟨_, length, .case hfind hcase hpayload h, clear_cons_iff.2 ⟨hname, hclear⟩⟩

/-- Without fuel no reference is followed. -/
theorem not_bytesAt_reference_zero {name : String} :
    ¬ BytesAt types 0 expanding (.reference name) place path := by
  rintro ⟨names, length, h, hclear⟩
  cases h <;> exact absurd hclear.length_le (Nat.not_succ_le_zero _)

end Cases

/-! ### Marked paths -/

namespace ResultShape

/-- The paths that are marked where there may be no shape. -/
def marked (shape : Option ResultShape) : List (List Access) := shape.elim [] positions

section Names

variable {types : List (String × TypeDef)} {fuel : Nat} {expanding : List String}
  {named : String → Option ResultShape}

theorem marked_map_list (shape : Option ResultShape) :
    marked (shape.map list) = (marked shape).map (.item :: ·) := by
  cases shape with
  | none => rfl
  | some shape => rw [Option.map_some, marked, Option.elim_some, positions]; rfl

theorem marked_map_map (shape : Option ResultShape) :
    marked (shape.map map) = (marked shape).map (.value :: ·) := by
  cases shape with
  | none => rfl
  | some shape => rw [Option.map_some, marked, Option.elim_some, positions]; rfl

/-- A shape is left out if it has no members, and no position is lost with it. -/
theorem marked_ofMembers {make : List (String × ResultShape) → ResultShape}
    {access : String → Access}
    (hmake : ∀ members, (make members).positions = memberPositions access members)
    (members : List (String × ResultShape)) :
    marked (ofMembers make members) = memberPositions access members := by
  cases members with
  | nil => rw [ofMembers, memberPositions]; rfl
  | cons member members => exact hmake _

/-- The positions in a record are those in its fields. -/
theorem memberPositions_fieldsWith (fields : List Field) :
    memberPositions .field (fieldsWith named fields) =
      fields.flatMap fun field ↦ (marked (ofTypeWith named field.type)).map
      (.field field.name :: ·) := by
  induction fields with
  | nil => rw [fieldsWith, memberPositions]; rfl
  | cons field fields ih =>
    rw [fieldsWith, List.flatMap_cons, ← ih]
    cases ofTypeWith named field.type with
    | none => rfl
    | some shape => exact memberPositions.eq_2 ..

/-- The positions in a variant are those in the payloads of its cases. -/
theorem memberPositions_caseWith (cases : List Case) :
    memberPositions .case (cases.filterMap (caseWith named)) =
      cases.flatMap fun case ↦
        (marked (case.payload.bind (ofTypeWith named))).map (.case case.name :: ·) := by
  induction cases with
  | nil => rw [List.filterMap_nil, memberPositions]; rfl
  | cons case cases ih =>
    rw [List.filterMap_cons, List.flatMap_cons, ← ih, caseWith]
    cases case.payload.bind (ofTypeWith named) with
    | none => rfl
    | some shape => exact memberPositions.eq_2 ..

theorem ofDefinitionWith_of_body {typeDef : TypeDef} {body : TypeRef}
    (h : typeDef.body? = some body) : ofDefinitionWith named typeDef = ofTypeWith named body := by
  cases typeDef with
  | record fields => cases h; rw [ofDefinitionWith, ofTypeWith]
  | variant cases => cases h
  | bytes length => cases h; rw [ofDefinitionWith, ofTypeWith]
  | aliasOf target => cases h; rw [ofDefinitionWith]

section

variable (hnamed : ∀ name, ListsInOrder (BytesAt types fuel expanding (.reference name))
      (marked (named name)))
include hnamed

/-- The shape of a type marks what it should, if the shapes of names do. -/
theorem listsInOrder_ofTypeWith (type : TypeRef) :
    ListsInOrder (BytesAt types fuel expanding type) (marked (ofTypeWith named type)) := by
  induction type with
  | reference name =>
    rw [ofTypeWith]
    exact hnamed name
  | scalar kind =>
    rw [ofTypeWith]
    exact .nil fun _ _ ↦ not_bytesAt_scalar
  | bytes length =>
    rw [ofTypeWith, marked, Option.elim_some, positions]
    exact (ListsInOrder.singleton [] []).congr fun _ _ ↦ bytesAt_bytes_iff.symm
  | list items ih =>
    rw [ofTypeWith, marked_map_list]
    exact ((ih.under 0).map _).congr fun _ _ ↦ bytesAt_list_iff.symm
  | map key value _ ih =>
    rw [ofTypeWith, marked_map_map]
    exact ((ih.under 0).map _).congr fun _ _ ↦ bytesAt_map_iff.symm
  | record fields ih =>
    rw [ofTypeWith, marked_ofMembers (fun _ ↦ by rw [positions]), memberPositions_fieldsWith]
    exact (ListsInOrder.flatMap fields fun field hfield ↦ (ih field hfield).map _).congr
      fun _ _ ↦ bytesAt_record_iff.symm

/-- The shape of a definition marks its byte sequences in order. -/
theorem listsInOrder_ofDefinitionWith (typeDef : TypeDef) :
    ListsInOrder (BytesIn types fuel expanding typeDef)
      (marked (ofDefinitionWith named typeDef)) := by
  cases hbody : typeDef.body? with
  | some body =>
    rw [ofDefinitionWith_of_body hbody]
    refine (listsInOrder_ofTypeWith hnamed body).congr fun place path ↦ ⟨.body hbody, fun h ↦ ?_⟩
    cases h with
    | body hother h =>
      obtain rfl := Option.some.inj (hbody.symm.trans hother)
      exact h
    | case => cases hbody
  | none =>
    cases typeDef with
    | variant cases =>
      rw [ofDefinitionWith, marked_ofMembers (fun _ ↦ by rw [positions]), memberPositions_caseWith]
      refine (ListsInOrder.flatMap cases fun case _ ↦ ListsInOrder.map ?_ _).congr fun _ _ ↦
        bytesIn_variant_iff.symm
      cases case.payload with
      | none =>
        refine .nil ?_
        rintro place path ⟨payload, hpayload, -⟩
        cases hpayload
      | some payload =>
        refine (listsInOrder_ofTypeWith hnamed payload).congr fun place path ↦
          ⟨fun h ↦ ⟨payload, rfl, h⟩, ?_⟩
        rintro ⟨other, hother, h⟩
        obtain rfl := Option.some.inj hother
        exact h
    | _ => cases hbody

end

/-- By induction on the depth that is left, which is the number of names that may still be
entered. -/
theorem listsInOrder_ofName (types : List (String × TypeDef)) (fuel : Nat) (expanding : List String)
    (name : String) :
    ListsInOrder (BytesAt types fuel expanding (.reference name))
      (marked (ofName types fuel expanding name)) := by
  induction fuel generalizing expanding name with
  | zero =>
    rw [ofName]
    exact .nil fun _ _ ↦ not_bytesAt_reference_zero
  | succ fuel ih =>
    rw [ofName]
    split_ifs with hexpanding
    · exact .nil fun _ _ h ↦ (bytesAt_reference_iff.1 h).1 hexpanding
    · cases hfind : Table.find? name types with
      | none =>
        refine .nil fun _ _ h ↦ ?_
        obtain ⟨-, typeDef, hother, -⟩ := bytesAt_reference_iff.1 h
        cases hfind.symm.trans hother
      | some typeDef =>
        refine (listsInOrder_ofDefinitionWith (ih (name :: expanding)) typeDef).congr
          fun place path ↦ ?_
        rw [bytesAt_reference_iff, hfind]
        simp only [hexpanding, not_false_eq_true, true_and, Option.some.injEq, exists_eq_left']

end Names

end ResultShape

/-! ### Names on a path -/

namespace Accesses

variable {types : List (String × TypeDef)} {type last : TypeRef} {place : List Nat}
    {path : List Access}
  {names : List String}

theorem mem_names (h : Accesses types type place path names last) :
    ∀ name ∈ names, name ∈ Table.names types := by
  induction h with
  | here => exact List.forall_mem_nil _
  | item _ ih | value _ ih | field _ _ ih => exact ih
  | named hfind _ _ ih | case hfind _ _ _ ih =>
    exact List.forall_mem_cons.2 ⟨Table.mem_names_iff.2 ⟨_, Table.mem_of_find?_eq_some hfind⟩, ih⟩

/-- Different names are no more than the type table has. -/
theorem clear_iff (h : Accesses types type place path names last) :
    Clear types.length [] names ↔ names.Nodup := by
  refine ⟨Clear.nodup, fun hnodup ↦ ⟨hnodup, fun _ _ ↦ List.not_mem_nil, ?_⟩⟩
  have hlength := (List.subperm_of_subset hnodup h.mem_names).length_le
  rwa [Table.names, List.length_map] at hlength

/-- The place alone tells what stands at the end of a path, unless that is a name. -/
theorem last_unique (h : Accesses types type place path names last)
    (hlast : ∀ name, last ≠ .reference name) {path' : List Access} {names' : List String}
    {last' : TypeRef} (h' : Accesses types type place path' names' last')
    (hlast' : ∀ name, last' ≠ .reference name) : last = last' := by
  induction h generalizing path' names' last' with
  | here type =>
    cases h' with
    | here => rfl
    | named => exact absurd rfl (hlast _)
  | item _ ih =>
    cases h' with
    | item h' => exact ih hlast h' hlast'
  | value _ ih =>
    cases h' with
    | value h' => exact ih hlast h' hlast'
  | field hfield _ ih =>
    cases h' with
    | field hfield' h' =>
      obtain rfl := Option.some.inj (hfield.symm.trans hfield')
      exact ih hlast h' hlast'
  -- at a name both paths go on to its definition, which is either a variant or has a body
  | named hfind hbody _ ih =>
    cases h' with
    | here => exact absurd rfl (hlast' _)
    | named hfind' hbody' h' =>
      obtain rfl := Option.some.inj (hfind.symm.trans hfind')
      obtain rfl := Option.some.inj (hbody.symm.trans hbody')
      exact ih hlast h' hlast'
    | case hfind' =>
      obtain rfl := Option.some.inj (hfind.symm.trans hfind')
      cases hbody
  | case hfind hcase hpayload _ ih =>
    cases h' with
    | named hfind' hbody' =>
      obtain rfl := Option.some.inj (hfind.symm.trans hfind')
      cases hbody'
    | case hfind' hcase' hpayload' h' =>
      obtain rfl := TypeDef.variant.inj (Option.some.inj (hfind.symm.trans hfind'))
      obtain rfl := Option.some.inj (hcase.symm.trans hcase')
      obtain rfl := Option.some.inj (hpayload.symm.trans hpayload')
      exact ih hlast h' hlast'

end Accesses

/-- The name stands at the end of a path from the type. -/
def Reaches (types : List (String × TypeDef)) (type : TypeRef) (name : String) : Prop :=
  ∃ place path names, Accesses types type place path names (.reference name)

/-- The name stands at the end of a path from the type it is defined as. -/
def Recurs (types : List (String × TypeDef)) (name : String) : Prop :=
  ∃ place path names, names ≠ [] ∧ Accesses types (.reference name) place path names
    (.reference name)

namespace Reaches

variable {types : List (String × TypeDef)} {name : String}

theorem here (types : List (String × TypeDef)) (name : String) :
    Reaches types (.reference name) name :=
  ⟨[], [], [], .here _⟩

theorem item {items : TypeRef} (h : Reaches types items name) :
    Reaches types (.list items) name := by
  obtain ⟨place, path, names, h⟩ := h
  exact ⟨_, _, _, .item h⟩

theorem value {key value : TypeRef} (h : Reaches types value name) :
    Reaches types (.map key value) name := by
  obtain ⟨place, path, names, h⟩ := h
  exact ⟨_, _, _, .value h⟩

theorem field {fields : List Field} {i : Nat} {field : Field} (hfield : fields[i]? = some field)
    (h : Reaches types field.type name) : Reaches types (.record fields) name := by
  obtain ⟨place, path, names, h⟩ := h
  exact ⟨_, _, _, .field hfield h⟩

section Reference

variable {other : String}

/-- Entering a name, after which the same name can only be reached by recurring. -/
theorem named {typeDef : TypeDef} {body : TypeRef} (hfind : Table.find? other types = some typeDef)
    (hbody : typeDef.body? = some body) (h : Reaches types body name) :
    Reaches types (.reference other) name ∧ (name = other → Recurs types other) := by
  obtain ⟨place, path, names, h⟩ := h
  refine ⟨⟨_, _, _, .named hfind hbody h⟩, ?_⟩
  rintro rfl
  exact ⟨_, _, _, List.cons_ne_nil _ _, .named hfind hbody h⟩

theorem case {cases : List Case} {i : Nat} {case : Case} {payload : TypeRef}
    (hfind : Table.find? other types = some (.variant cases)) (hcase : cases[i]? = some case)
    (hpayload : case.payload = some payload) (h : Reaches types payload name) :
    Reaches types (.reference other) name ∧ (name = other → Recurs types other) := by
  obtain ⟨place, path, names, h⟩ := h
  refine ⟨⟨_, _, _, .case hfind hcase hpayload h⟩, ?_⟩
  rintro rfl
  exact ⟨_, _, _, List.cons_ne_nil _ _, .case hfind hcase hpayload h⟩

end Reference

end Reaches

section Names

variable {types : List (String × TypeDef)} {type last : TypeRef} {place : List Nat}
    {path : List Access}
  {names : List String}

/-- A name that is entered stands at the end of a shorter path. -/
theorem Accesses.reaches (h : Accesses types type place path names last) :
    ∀ name ∈ names, Reaches types type name := by
  induction h with
  | here => exact List.forall_mem_nil _
  | item _ ih => exact fun name hname ↦ (ih name hname).item
  | value _ ih => exact fun name hname ↦ (ih name hname).value
  | field hfield _ ih => exact fun name hname ↦ (ih name hname).field hfield
  | named hfind hbody _ ih =>
    exact List.forall_mem_cons.2
      ⟨.here types _, fun name hname ↦ ((ih name hname).named hfind hbody).1⟩
  | case hfind hcase hpayload _ ih =>
    exact List.forall_mem_cons.2
      ⟨.here types _, fun name hname ↦ ((ih name hname).case hfind hcase hpayload).1⟩

/-- Where no name can be entered again, a path has different names. -/
theorem Accesses.nodup_of_not_recurs (h : Accesses types type place path names last)
    (hrecurs : ∀ name, Reaches types type name → ¬ Recurs types name) : names.Nodup := by
  induction h with
  | here => exact List.nodup_nil
  | item _ ih => exact ih fun name hname ↦ hrecurs name hname.item
  | value _ ih => exact ih fun name hname ↦ hrecurs name hname.value
  | field hfield _ ih => exact ih fun name hname ↦ hrecurs name (hname.field hfield)
  | @named name _ _ _ _ _ _ hfind hbody h ih =>
    refine List.nodup_cons.2 ⟨fun hmem ↦ ?_,
      ih fun other hother ↦ hrecurs other (hother.named hfind hbody).1⟩
    exact hrecurs name (.here types name) (((h.reaches name hmem).named hfind hbody).2 rfl)
  | @case name _ _ _ _ _ _ _ _ hfind hcase hpayload h ih =>
    refine List.nodup_cons.2 ⟨fun hmem ↦ ?_,
      ih fun other hother ↦ hrecurs other (hother.case hfind hcase hpayload).1⟩
    exact hrecurs name (.here types name) (((h.reaches name hmem).case hfind hcase hpayload).2 rfl)

end Names

/-! ### What a text marks -/

namespace ResultShape

/-- The shape of a type marks, in order, the places that are reached without going through one name
twice. -/
theorem listsInOrder_ofType (types : List (String × TypeDef)) (type : TypeRef) :
    ListsInOrder (fun place path ↦
      ∃ names length, Accesses types type place path names (.bytes length) ∧ names.Nodup)
      (marked (ofType types type)) := by
  refine (listsInOrder_ofTypeWith (listsInOrder_ofName types types.length []) type).congr
    fun place path ↦ ?_
  exact exists_congr fun names ↦ exists_congr fun length ↦ and_congr_right Accesses.clear_iff

/-- A name that is defined and not being expanded is one more entry of the type table. -/
theorem nodup_and_subset_of_find? {types : List (String × TypeDef)} {expanding : List String}
    (hnodup : expanding.Nodup) (hsubset : expanding ⊆ Table.names types) {name : String}
    (hexpanding : name ∉ expanding) {typeDef : TypeDef}
    (hfind : Table.find? name types = some typeDef) :
    (name :: expanding).Nodup ∧ name :: expanding ⊆ Table.names types :=
  ⟨List.nodup_cons.2 ⟨hexpanding, hnodup⟩,
    List.cons_subset.2 ⟨Table.mem_names_iff.2 ⟨_, Table.mem_of_find?_eq_some hfind⟩, hsubset⟩⟩

/-- A depth for all entries of the type table that are not being expanded is enough. -/
theorem ofName_succ {types : List (String × TypeDef)} {fuel : Nat} {expanding : List String}
    (hnodup : expanding.Nodup) (hsubset : expanding ⊆ Table.names types)
    (hfuel : types.length ≤ fuel + expanding.length) (name : String) :
    ofName types (fuel + 1) expanding name = ofName types fuel expanding name := by
  induction fuel generalizing expanding name with
  | zero =>
    rw [ofName, ofName]
    split_ifs with hexpanding
    · rfl
    · cases hfind : Table.find? name types with
      | none => rfl
      | some typeDef =>
        obtain ⟨hnodup, hsubset⟩ := nodup_and_subset_of_find? hnodup hsubset hexpanding hfind
        have hlength := (List.subperm_of_subset hnodup hsubset).length_le
        rw [Table.names, List.length_map, List.length_cons] at hlength
        omega
  | succ fuel ih =>
    rw [ofName, ofName]
    split_ifs with hexpanding
    · rfl
    · cases hfind : Table.find? name types with
      | none => rfl
      | some typeDef =>
        obtain ⟨hnodup, hsubset⟩ := nodup_and_subset_of_find? hnodup hsubset hexpanding hfind
        dsimp only
        rw [funext (ih hnodup hsubset (by rw [List.length_cons]; omega))]

/-- More depth than there are entries of the type table makes no difference. -/
theorem ofType_eq_of_le {types : List (String × TypeDef)} {fuel : Nat} (h : types.length ≤ fuel)
    (type : TypeRef) : ofTypeWith (ofName types fuel []) type = ofType types type := by
  induction fuel, h using Nat.le_induction with
  | base => rfl
  | succ fuel h ih =>
    rw [funext (ofName_succ List.nodup_nil (List.nil_subset _) h), ih]

/-- The paths that the text of a shape marks, if it can be read. -/
def readMarked? (text : Option String) : Option (List (List Access)) :=
  match text with
  | none => some []
  | some text => ((readLiteral text).bind ofLiteral?).map positions

/-- What is marked is read off the text of a shape. -/
theorem readMarked?_text (shape : Option ResultShape) :
    readMarked? (shape.map text) = some (marked shape) := by
  cases shape with
  | none => rfl
  | some shape =>
    rw [Option.map_some, readMarked?, ← text_literal, LiteralValue.readLiteral_text,
      Option.bind_some, ofLiteral?_literal, Option.map_some]
    rfl

end ResultShape

/-- The text that stands for a type marks exactly the paths to byte sequences on which no name is
entered while it is being expanded: one for each place and in the order of the places. If no name
that can be reached from the type can be reached again from itself, these are all the paths to byte
sequences. No place that is marked is that of a list of numbers, and neither is that of a byte
sequence on a path that is cut off. The bound on the depth, which is the number of defined types,
cuts nothing off. -/
theorem readMarked?_ofType (manifest : Manifest) (type : TypeRef) :
    (∀ fuel, manifest.types.length ≤ fuel →
      ResultShape.ofTypeWith (ResultShape.ofName manifest.types fuel []) type =
        ResultShape.ofType manifest.types type) ∧
      ∃ paths, ResultShape.readMarked? ((ResultShape.ofType manifest.types type).map
        ResultShape.text) = some paths ∧
        ListsInOrder (fun place path ↦ ∃ names length,
          Accesses manifest.types type place path names (.bytes length) ∧ names.Nodup) paths ∧
        ((∀ name, Reaches manifest.types type name → ¬ Recurs manifest.types name) →
          ListsInOrder (fun place path ↦ ∃ names length,
            Accesses manifest.types type place path names (.bytes length)) paths) ∧
        ListsInOrder (fun place path ↦
          (∃ names length,
            Accesses manifest.types type place path names (.bytes length) ∧ names.Nodup) ∧
          ∀ path names kind,
            ¬ Accesses manifest.types type place path names (.list (.scalar kind))) paths ∧
        ∀ place path names kind, Accesses manifest.types type place path names
          (.list (.scalar kind)) →
          ¬ ∃ path names length, Accesses manifest.types type place path names (.bytes length) := by
  have hlists := ResultShape.listsInOrder_ofType manifest.types type
  -- two types at one place that are no names are the same
  have hnumbers {place : List Nat} {path path' : List Access} {names names' : List String}
      {length : ByteLength}
      {kind : ScalarKind} (hbytes : Accesses manifest.types type place path names (.bytes length)) :
      ¬ Accesses manifest.types type place path' names' (.list (.scalar kind)) := by
    intro hlist
    cases hlist.last_unique (fun name ↦ TypeRef.noConfusion) hbytes (fun name ↦ TypeRef.noConfusion)
  refine ⟨fun fuel hfuel ↦ ResultShape.ofType_eq_of_le hfuel type, _,
    ResultShape.readMarked?_text _, hlists,
    fun hrecurs ↦ hlists.congr fun place path ↦ ?_, hlists.congr fun place path ↦ ?_, ?_⟩
  · refine exists_congr fun names ↦ exists_congr fun length ↦ and_iff_left_of_imp fun h ↦ ?_
    exact h.nodup_of_not_recurs hrecurs
  · refine (and_iff_left_of_imp ?_).symm
    rintro ⟨names, length, hbytes, -⟩ path' names' kind
    exact hnumbers hbytes
  · rintro place path names kind hlist ⟨path', names', length, hbytes⟩
    exact hnumbers hbytes hlist

end Client

end AbiBindings
