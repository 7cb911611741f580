import AbiBindings.Manifest.Walk
import AbiBindings.Proofs.Listing

/-!
# Occurrences of type references

`Document.Occurs document place occurrence` says which type reference stands at a place of a
document, with the label of the place. There is a rule for each position in which a method, an event
or a type definition holds a type, and `OccursIn` has one for each way into a type reference. A
place is a list of numbers: methods, events and the type table are numbered 0, 1 and 2, and inside a
method so are parameters, result and errors; all else is numbered as it is listed.

The walk over a document lists exactly the occurrences, in the order of their places
(`Document.listsInOrder_occurrences`). It is proved for one type reference by induction on the type,
and from there on each part of a document lists the occurrences of its own parts in turn.
-/

namespace AbiBindings

/-! ### Induction on type references -/

/-- Induction on a type reference; a record has a hypothesis for each of its fields. -/
@[elab_as_elim, induction_eliminator]
theorem TypeRef.induction {motive : TypeRef → Prop}
    (reference : ∀ name, motive (.reference name)) (scalar : ∀ kind, motive (.scalar kind))
    (bytes : ∀ length, motive (.bytes length)) (list : ∀ items, motive items → motive (.list items))
    (map : ∀ key value, motive key → motive value → motive (.map key value))
    (record : ∀ fields : List Field, (∀ field ∈ fields, motive field.type) →
      motive (.record fields)) :
    ∀ type, motive type
  | .reference name => reference name
  | .scalar kind => scalar kind
  | .bytes length => bytes length
  | .list items => list items (TypeRef.induction reference scalar bytes list map record items)
  | .map key value =>
    map key value (TypeRef.induction reference scalar bytes list map record key)
      (TypeRef.induction reference scalar bytes list map record value)
  | .record fields =>
    record fields fun field _ ↦ TypeRef.induction reference scalar bytes list map record field.type
decreasing_by
  · rw [TypeRef.list.sizeOf_spec]
    omega
  · rw [TypeRef.map.sizeOf_spec]
    omega
  · rw [TypeRef.map.sizeOf_spec]
    omega
  · rename_i hmem
    have hlt := List.sizeOf_lt_of_mem hmem
    obtain ⟨name, type, nullable⟩ := field
    rw [Member.mk.sizeOf_spec] at hlt
    rw [TypeRef.record.sizeOf_spec]
    show sizeOf type < 1 + sizeOf fields
    omega

/-! ### Inside a type reference -/

/-- The occurrence at a place inside another. -/
inductive OccursIn : Occurrence → List Nat → Occurrence → Prop
  | here (occurrence : Occurrence) : OccursIn occurrence [] occurrence
  | items {items : TypeRef} {location : String} {place : List Nat} {found : Occurrence}
    (h : OccursIn ⟨items, location ++ ".items"⟩ place found) :
    OccursIn ⟨.list items, location⟩ (0 :: place) found
  | key {key value : TypeRef} {location : String} {place : List Nat} {found : Occurrence}
    (h : OccursIn ⟨key, location ++ ".key"⟩ place found) :
    OccursIn ⟨.map key value, location⟩ (0 :: place) found
  | value {key value : TypeRef} {location : String} {place : List Nat} {found : Occurrence}
    (h : OccursIn ⟨value, location ++ ".value"⟩ place found) :
    OccursIn ⟨.map key value, location⟩ (1 :: place) found
  | field {fields : List Field} {location : String} {i : Nat} {field : Field} {place : List Nat}
    {found : Occurrence} (hfield : fields[i]? = some field)
    (h : OccursIn ⟨field.type, location ++ ".field." ++ field.name⟩ place found) :
    OccursIn ⟨.record fields, location⟩ (i :: place) found

/-- A type with nothing inside occurs in itself and nowhere else. -/
theorem listsInOrder_leaf {occurrence : Occurrence}
    (hleaf : ∀ i place found, ¬ OccursIn occurrence (i :: place) found) :
    ListsInOrder (OccursIn occurrence) [occurrence] := by
  refine (ListsInOrder.singleton [] occurrence).congr fun place found ↦ ⟨?_, fun h ↦ ?_⟩
  · rintro ⟨rfl, rfl⟩
    exact .here found
  · cases place with
    | nil =>
      cases h
      exact ⟨rfl, rfl⟩
    | cons i place => exact absurd h (hleaf i place found)

theorem TypeRef.fieldOccurrences_eq_flatMap (location : String) (fields : List Field) :
    fieldOccurrences location fields =
      fields.flatMap fun field ↦ field.type.occurrences (location ++ ".field." ++ field.name) := by
  induction fields with
  | nil => rw [fieldOccurrences, List.flatMap_nil]
  | cons field fields ih => rw [fieldOccurrences, ih, List.flatMap_cons]

/-- The occurrences in a type are listed in the order of their places. -/
theorem TypeRef.listsInOrder_occurrences (type : TypeRef) (location : String) :
    ListsInOrder (OccursIn ⟨type, location⟩) (type.occurrences location) := by
  induction type generalizing location with
  | reference name => exact listsInOrder_leaf nofun
  | scalar kind => exact listsInOrder_leaf nofun
  | bytes length => exact listsInOrder_leaf nofun
  | list items ih =>
    rw [occurrences]
    refine (ListsInOrder.cons _ ((ih _).under 0) ?_).congr fun place found ↦ ⟨?_, ?_⟩
    · rintro place found ⟨rest, rfl, -⟩
      exact List.cons_ne_nil _ _
    · rintro (⟨rfl, rfl⟩ | ⟨rest, rfl, h⟩)
      · exact .here _
      · exact .items h
    · rintro (_ | h)
      · exact Or.inl ⟨rfl, rfl⟩
      · exact Or.inr ⟨_, rfl, h⟩
  | map key value ihKey ihValue =>
    -- the type itself, then the key at place 0, then the value at place 1
    rw [occurrences]
    refine (ListsInOrder.cons _ (((ihKey _).under 0).append ((ihValue _).under 1) ?_) ?_).congr
      fun place found ↦ ⟨?_, ?_⟩
    · rintro p a q b ⟨rest, rfl, -⟩ ⟨rest', rfl, -⟩
      exact List.cons_lt_cons_iff.2 (Or.inl Nat.zero_lt_one)
    · rintro place found (⟨rest, rfl, -⟩ | ⟨rest, rfl, -⟩)
      · exact List.cons_ne_nil _ _
      · exact List.cons_ne_nil _ _
    · rintro (⟨rfl, rfl⟩ | ⟨rest, rfl, h⟩ | ⟨rest, rfl, h⟩)
      · exact .here _
      · exact .key h
      · exact .value h
    · rintro (_ | _ | h | h)
      · exact Or.inl ⟨rfl, rfl⟩
      · exact Or.inr (Or.inl ⟨_, rfl, h⟩)
      · exact Or.inr (Or.inr ⟨_, rfl, h⟩)
  | record fields ih =>
    rw [occurrences, fieldOccurrences_eq_flatMap]
    refine (ListsInOrder.cons _ (.flatMap fields fun field hfield ↦ ih field hfield _) ?_).congr
      fun place found ↦ ⟨?_, ?_⟩
    · rintro place found ⟨i, rest, field, rfl, -⟩
      exact List.cons_ne_nil _ _
    · rintro (⟨rfl, rfl⟩ | ⟨i, rest, field, rfl, hfield, h⟩)
      · exact .here _
      · exact .field hfield h
    · intro h
      cases h with
      | here => exact Or.inl ⟨rfl, rfl⟩
      | field hfield h => exact Or.inr ⟨_, _, _, rfl, hfield, h⟩

/-! ### In the parts of a document -/

/-- The occurrences in a payload. -/
def PayloadOccurs (payload : Option TypeRef) (location : String) (place : List Nat)
    (found : Occurrence) : Prop :=
  ∃ type, payload = some type ∧ OccursIn ⟨type, location⟩ place found

/-- So are those in a payload, if there is one. -/
theorem listsInOrder_payloadOccurrences (payload : Option TypeRef) (location : String) :
    ListsInOrder (PayloadOccurs payload location) (payloadOccurrences location payload) := by
  cases payload with
  | none =>
    refine .nil ?_
    rintro place found ⟨type, h, -⟩
    cases h
  | some type =>
    refine (type.listsInOrder_occurrences location).congr fun place found ↦
      ⟨fun h ↦ ⟨type, rfl, h⟩, ?_⟩
    rintro ⟨type', h, hoccurs⟩
    cases h
    exact hoccurs

/-- The occurrences in a method: parameters, result and errors are numbered 0, 1 and 2. -/
inductive Method.Occurs (method : Method) : List Nat → Occurrence → Prop
  | param {p : Nat} {param : Parameter} {place : List Nat} {found : Occurrence}
    (hparam : method.params[p]? = some param)
    (h : OccursIn ⟨param.type, "method." ++ method.name ++ ".param." ++ param.name⟩ place found) :
    Occurs method (0 :: p :: place) found
  | returns {place : List Nat} {found : Occurrence}
    (h : PayloadOccurs method.returns ("method." ++ method.name ++ ".returns") place found) :
    Occurs method (1 :: place) found
  | error {e : Nat} {error : MethodError} {place : List Nat} {found : Occurrence}
    (herror : method.errors[e]? = some error)
    (h : PayloadOccurs error.payload ("method." ++ method.name ++ ".error." ++ error.code)
      place found) :
    Occurs method (2 :: e :: place) found

/-- In a method, parameters come before the result, and errors come last. -/
theorem Method.listsInOrder_occurrences (method : Method) :
    ListsInOrder method.Occurs method.occurrences := by
  have hparams := (ListsInOrder.flatMap method.params fun param _ ↦
    param.type.listsInOrder_occurrences
      ("method." ++ method.name ++ ".param." ++ param.name)).under 0
  have hreturns := (listsInOrder_payloadOccurrences method.returns
    ("method." ++ method.name ++ ".returns")).under 1
  have herrors := (ListsInOrder.flatMap method.errors fun error _ ↦
    listsInOrder_payloadOccurrences error.payload
      ("method." ++ method.name ++ ".error." ++ error.code)).under 2
  refine ((hparams.append hreturns ?_).append herrors ?_).congr fun place found ↦ ⟨?_, ?_⟩
  · rintro p a q b ⟨rest, rfl, -⟩ ⟨rest', rfl, -⟩
    exact List.cons_lt_cons_iff.2 (Or.inl (by omega))
  · rintro p a q b (⟨rest, rfl, -⟩ | ⟨rest, rfl, -⟩) ⟨rest', rfl, -⟩
    · exact List.cons_lt_cons_iff.2 (Or.inl (by omega))
    · exact List.cons_lt_cons_iff.2 (Or.inl (by omega))
  · rintro ((⟨_, rfl, p, rest, param, rfl, hparam, h⟩ | ⟨rest, rfl, h⟩) | ⟨_, rfl, e, rest, error,
      rfl, herror, h⟩)
    · exact .param hparam h
    · exact .returns h
    · exact .error herror h
  · rintro (⟨hparam, h⟩ | h | ⟨herror, h⟩)
    · exact Or.inl (Or.inl ⟨_, rfl, _, _, _, rfl, hparam, h⟩)
    · exact Or.inl (Or.inr ⟨_, rfl, h⟩)
    · exact Or.inr ⟨_, rfl, _, _, _, rfl, herror, h⟩

/-- The occurrences in the definition of a type: members of a list are numbered, the target of an
alias is not. -/
inductive TypeDef.Occurs (name : String) : TypeDef → List Nat → Occurrence → Prop
  | field {fields : List Field} {f : Nat} {field : Field} {place : List Nat} {found : Occurrence}
    (hfield : fields[f]? = some field)
    (h : OccursIn ⟨field.type, "type." ++ name ++ ".field." ++ field.name⟩ place found) :
    Occurs name (.record fields) (f :: place) found
  | case {cases : List Case} {c : Nat} {case : Case} {place : List Nat} {found : Occurrence}
    (hcase : cases[c]? = some case)
    (h : PayloadOccurs case.payload ("type." ++ name ++ ".variant." ++ case.name) place found) :
    Occurs name (.variant cases) (c :: place) found
  | target {target : TypeRef} {place : List Nat} {found : Occurrence}
    (h : OccursIn ⟨target, "type." ++ name ++ ".target"⟩ place found) :
    Occurs name (.aliasOf target) place found

/-- So are those in a definition. -/
theorem TypeDef.listsInOrder_occurrences (name : String) (typeDef : TypeDef) :
    ListsInOrder (typeDef.Occurs name) (typeDef.occurrences name) := by
  cases typeDef with
  | record fields =>
    rw [occurrences, TypeRef.fieldOccurrences_eq_flatMap]
    refine (ListsInOrder.flatMap fields fun field _ ↦ field.type.listsInOrder_occurrences _).congr
      fun place found ↦ ⟨?_, ?_⟩
    · rintro ⟨f, rest, field, rfl, hfield, h⟩
      exact .field hfield h
    · rintro ⟨hfield, h⟩
      exact ⟨_, _, _, rfl, hfield, h⟩
  | variant cases =>
    refine (ListsInOrder.flatMap cases fun case _ ↦
      listsInOrder_payloadOccurrences case.payload _).congr fun place found ↦ ⟨?_, ?_⟩
    · rintro ⟨c, rest, case, rfl, hcase, h⟩
      exact .case hcase h
    · intro h
      cases h with
      | case hcase h => exact ⟨_, _, _, rfl, hcase, h⟩
  | bytes length => exact .nil nofun
  | aliasOf target =>
    refine (target.listsInOrder_occurrences _).congr fun place found ↦ ⟨.target, ?_⟩
    intro h
    cases h with
    | target h => exact h

/-! ### In a document -/

/-- The occurrences in a document: methods, events and the type table are numbered 0, 1 and 2. -/
inductive Document.Occurs (document : Document) : List Nat → Occurrence → Prop
  | method {m : Nat} {method : Method} {place : List Nat} {found : Occurrence}
    (hmethod : document.methods[m]? = some method) (h : method.Occurs place found) :
    Occurs document (0 :: m :: place) found
  | event {e : Nat} {event : Event} {place : List Nat} {found : Occurrence}
    (hevent : document.events[e]? = some event)
    (h : PayloadOccurs event.payload ("event." ++ event.name) place found) :
    Occurs document (1 :: e :: place) found
  | type {t : Nat} {name : String} {typeDef : TypeDef} {place : List Nat} {found : Occurrence}
    (htype : document.types[t]? = some (name, typeDef)) (h : typeDef.Occurs name place found) :
    Occurs document (2 :: t :: place) found

/-- The walk over a document lists exactly its occurrences, in the order of their places. -/
theorem Document.listsInOrder_occurrences (document : Document) :
    ListsInOrder document.Occurs document.occurrences := by
  have hmethods := (ListsInOrder.flatMap document.methods fun method _ ↦
    method.listsInOrder_occurrences).under 0
  have hevents := (ListsInOrder.flatMap document.events fun event _ ↦
    listsInOrder_payloadOccurrences event.payload ("event." ++ event.name)).under 1
  have htypes := (ListsInOrder.flatMap document.types fun entry _ ↦
    entry.2.listsInOrder_occurrences entry.1).under 2
  refine ((hmethods.append hevents ?_).append htypes ?_).congr fun place found ↦ ⟨?_, ?_⟩
  · rintro p a q b ⟨rest, rfl, -⟩ ⟨rest', rfl, -⟩
    exact List.cons_lt_cons_iff.2 (Or.inl (by omega))
  · rintro p a q b (⟨rest, rfl, -⟩ | ⟨rest, rfl, -⟩) ⟨rest', rfl, -⟩
    · exact List.cons_lt_cons_iff.2 (Or.inl (by omega))
    · exact List.cons_lt_cons_iff.2 (Or.inl (by omega))
  · rintro ((⟨_, rfl, m, rest, method, rfl, hmethod, h⟩ | ⟨_, rfl, e, rest, event,
      rfl, hevent, h⟩) | ⟨_, rfl, t, rest, ⟨name, typeDef⟩, rfl, htype, h⟩)
    · exact .method hmethod h
    · exact .event hevent h
    · exact .type htype h
  · rintro (⟨hmethod, h⟩ | ⟨hevent, h⟩ | ⟨htype, h⟩)
    · exact Or.inl (Or.inl ⟨_, rfl, _, _, _, rfl, hmethod, h⟩)
    · exact Or.inl (Or.inr ⟨_, rfl, _, _, _, rfl, hevent, h⟩)
    · exact Or.inr ⟨_, rfl, _, _, _, rfl, htype, h⟩

/-! ### Occurrences inside occurrences -/

/-- What occurs in an occurrence occurs in the whole. -/
theorem OccursIn.trans {outer middle inner : Occurrence} {place rest : List Nat}
    (h : OccursIn outer place middle) (hinner : OccursIn middle rest inner) :
    OccursIn outer (place ++ rest) inner := by
  induction h with
  | here occurrence => exact hinner
  | items _ ih => exact .items (ih hinner)
  | key _ ih => exact .key (ih hinner)
  | value _ ih => exact .value (ih hinner)
  | field hfield _ ih => exact .field hfield (ih hinner)

theorem PayloadOccurs.trans {payload : Option TypeRef} {location : String}
    {middle inner : Occurrence} {place rest : List Nat}
    (h : PayloadOccurs payload location place middle) (hinner : OccursIn middle rest inner) :
    PayloadOccurs payload location (place ++ rest) inner := by
  obtain ⟨type, htype, hoccurs⟩ := h
  exact ⟨type, htype, hoccurs.trans hinner⟩

/-- What occurs inside an occurrence of a document occurs in the document. -/
theorem Document.Occurs.trans {document : Document} {place rest : List Nat}
    {middle inner : Occurrence} (h : document.Occurs place middle)
    (hinner : OccursIn middle rest inner) : document.Occurs (place ++ rest) inner := by
  cases h with
  | method hmethod h =>
    refine .method hmethod ?_
    cases h with
    | param hparam h => exact .param hparam (h.trans hinner)
    | returns h => exact .returns (h.trans hinner)
    | error herror h => exact .error herror (h.trans hinner)
  | event hevent h => exact .event hevent (h.trans hinner)
  | type htype h =>
    refine .type htype ?_
    cases h with
    | field hfield h => exact .field hfield (h.trans hinner)
    | case hcase h => exact .case hcase (h.trans hinner)
    | target h => exact .target (h.trans hinner)

end AbiBindings
