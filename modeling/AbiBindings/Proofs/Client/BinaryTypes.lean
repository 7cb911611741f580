import AbiBindings.Client.Bytes
import AbiBindings.Client.ResultShape
import AbiBindings.Proofs.Manifest.Obtained
import Mathlib.Order.Monotone.Basic

/-!
# Where byte sequences are found

`Inward` is one way from a type into another: to the items of a list, the keys or the values of a
map, a field of a record, or from a name to what its definition holds. `ReachesBytes` says that such
ways lead from a type to a byte sequence, in any number and on type graphs with cycles.

Two computations decide it. `isBinary` finds the names that lead to byte sequences in rounds, and
`ResultShape.ofType` expands names on the way down and enters none again that it is expanding. Both
look into a type in the same way once it is known which names count (`isSome_ofTypeWith`), so it
comes down to the names. The rounds grow and each is made from the one before, so they stand still
after as many as there are names (`bytesNamesAfter_length_succ`). A name that is new in a round
holds a name of an earlier round; going down that way never meets a name that is being expanded, and
within as many steps as there were rounds (`isSome_ofName_iff`).

Both computations pass over the keys of maps. In a manifest that passed the checks that loses
nothing: what is reached from an occurrence occurs itself, so every key that is reached is an alias
of the string scalar.
-/

namespace AbiBindings.Client

/-! ### Reaching a byte sequence -/

/-- A type that a definition holds. -/
inductive HeldBy : TypeDef → TypeRef → Prop
  | field {fields : List Field} {field : Field} (h : field ∈ fields) :
    HeldBy (.record fields) field.type
  | payload {cases : List Case} {case : Case} {type : TypeRef} (hcase : case ∈ cases)
    (h : case.payload = some type) : HeldBy (.variant cases) type
  | bytes (length : ByteLength) : HeldBy (.bytes length) (.bytes length)
  | target (target : TypeRef) : HeldBy (.aliasOf target) target

/-- One way from a type into another. -/
inductive Inward (types : List (String × TypeDef)) : TypeRef → TypeRef → Prop
  | items (items : TypeRef) : Inward types (.list items) items
  | key (key value : TypeRef) : Inward types (.map key value) key
  | value (key value : TypeRef) : Inward types (.map key value) value
  | field {fields : List Field} {field : Field} (h : field ∈ fields) :
    Inward types (.record fields) field.type
  | reference {name : String} {typeDef : TypeDef} {type : TypeRef}
    (hfind : Table.find? name types = some typeDef)
    (h : HeldBy typeDef type) : Inward types (.reference name) type

/-- Some number of ways leads from the type to a byte sequence. -/
def ReachesBytes (types : List (String × TypeDef)) (type : TypeRef) : Prop :=
  ∃ length, Relation.ReflTransGen (Inward types) type (.bytes length)

variable {types : List (String × TypeDef)}

theorem ReachesBytes.head {type inner : TypeRef} (h : Inward types type inner)
    (hinner : ReachesBytes types inner) : ReachesBytes types type :=
  hinner.imp fun _ hlength ↦ .head h hlength

/-- A type that is no byte sequence reaches one by a first way inward. -/
theorem ReachesBytes.exists_inward {type : TypeRef} (h : ReachesBytes types type)
    (hne : ∀ length, type ≠ .bytes length) :
    ∃ inner, Inward types type inner ∧ ReachesBytes types inner := by
  obtain ⟨length, hlength⟩ := h
  rcases hlength.cases_head with heq | ⟨inner, hinner, hrest⟩
  · exact absurd heq (hne length)
  · exact ⟨inner, hinner, length, hrest⟩

/-- No byte sequence is reached from an alias of a scalar. -/
theorem not_reachesBytes_of_chain {type : TypeRef} {kind : ScalarKind}
    (h : Alias.Chain types type (.scalar kind)) : ¬ ReachesBytes types type := by
  induction h using Relation.ReflTransGen.head_induction_on with
  | refl =>
    intro hreaches
    obtain ⟨inner, hinner, -⟩ := hreaches.exists_inward nofun
    cases hinner
  | head hstep _ ih =>
    intro hreaches
    obtain ⟨hfind⟩ := hstep
    obtain ⟨inner, hinner, hrest⟩ := hreaches.exists_inward nofun
    cases hinner with
    | reference hfound hheld =>
      -- the definition is that of the alias, which holds only its target
      rw [hfind] at hfound
      cases hfound
      cases hheld
      exact ih hrest

/-! ### Looking into a type -/

section Looking

variable {named other : String → Bool}

theorem fieldsHoldBytes_eq_any (named : String → Bool) (fields : List Field) :
    fieldsHoldBytes named fields = fields.any fun field ↦ holdsBytes named field.type := by
  induction fields with
  | nil => rw [fieldsHoldBytes, List.any_nil]
  | cons field fields ih => rw [fieldsHoldBytes, ih, List.any_cons]

theorem fieldsHoldBytes_iff {fields : List Field} :
    fieldsHoldBytes named fields = true ↔ ∃ field ∈ fields, holdsBytes named field.type = true := by
  rw [fieldsHoldBytes_eq_any, List.any_eq_true]

theorem definitionHoldsBytes_iff {typeDef : TypeDef} :
    definitionHoldsBytes named typeDef = true ↔ ∃ type, HeldBy typeDef type ∧
      holdsBytes named type = true := by
  constructor
  · intro h
    cases typeDef with
    | record fields =>
      obtain ⟨field, hfield, hholds⟩ := fieldsHoldBytes_iff.1 h
      exact ⟨field.type, .field hfield, hholds⟩
    | variant cases =>
      obtain ⟨case, hcase, hany⟩ := List.any_eq_true.1 h
      obtain ⟨type, htype, hholds⟩ := (Option.any_eq_true _ _).1 hany
      exact ⟨type, .payload hcase htype, hholds⟩
    | bytes length => exact ⟨.bytes length, .bytes length, by rw [holdsBytes]⟩
    | aliasOf target => exact ⟨target, .target target, h⟩
  · rintro ⟨type, hheld, hholds⟩
    cases hheld with
    | field hfield => exact fieldsHoldBytes_iff.2 ⟨_, hfield, hholds⟩
    | payload hcase htype =>
      exact List.any_eq_true.2 ⟨_, hcase, (Option.any_eq_true _ _).2 ⟨type, htype, hholds⟩⟩
    | bytes length => rfl
    | target target => exact hholds

theorem holdsBytes_mono (h : ∀ name, named name = true → other name = true) {type : TypeRef}
    (hholds : holdsBytes named type = true) : holdsBytes other type = true := by
  induction type with
  | reference name =>
    rw [holdsBytes] at hholds ⊢
    exact h name hholds
  | scalar kind =>
    rw [holdsBytes] at hholds
    cases hholds
  | bytes length => rw [holdsBytes]
  | list items ih =>
    rw [holdsBytes] at hholds ⊢
    exact ih hholds
  | map key value _ ih =>
    rw [holdsBytes] at hholds ⊢
    exact ih hholds
  | record fields ih =>
    rw [holdsBytes, fieldsHoldBytes_iff] at hholds ⊢
    obtain ⟨field, hfield, hholds⟩ := hholds
    exact ⟨field, hfield, ih field hfield hholds⟩

theorem definitionHoldsBytes_mono (h : ∀ name, named name = true → other name = true)
    {typeDef : TypeDef} (hholds : definitionHoldsBytes named typeDef = true) :
    definitionHoldsBytes other typeDef = true := by
  rw [definitionHoldsBytes_iff] at hholds ⊢
  obtain ⟨type, hheld, hholds⟩ := hholds
  exact ⟨type, hheld, holdsBytes_mono h hholds⟩

/-- What is seen in a type is reached from it, if that is so for names. -/
theorem reachesBytes_of_holdsBytes (h : ∀ name, named name = true →
      ReachesBytes types (.reference name))
    {type : TypeRef} (hholds : holdsBytes named type = true) : ReachesBytes types type := by
  induction type with
  | reference name =>
    rw [holdsBytes] at hholds
    exact h name hholds
  | scalar kind =>
    rw [holdsBytes] at hholds
    cases hholds
  | bytes length => exact ⟨length, .refl⟩
  | list items ih =>
    rw [holdsBytes] at hholds
    exact (ih hholds).head (.items items)
  | map key value _ ih =>
    rw [holdsBytes] at hholds
    exact (ih hholds).head (.value key value)
  | record fields ih =>
    rw [holdsBytes, fieldsHoldBytes_iff] at hholds
    obtain ⟨field, hfield, hholds⟩ := hholds
    exact (ih field hfield hholds).head (.field hfield)

/-- One way inward, other than to a key, is seen through. -/
theorem holdsBytes_of_inward
    (hclosed : ∀ name typeDef, Table.find? name types = some typeDef →
      definitionHoldsBytes named typeDef = true →
      named name = true)
    {type inner : TypeRef} (h : Inward types type inner) (hkey : ∀ value, type ≠ .map inner value)
    (hholds : holdsBytes named inner = true) : holdsBytes named type = true := by
  cases h with
  | items items => rwa [holdsBytes]
  | key key value => exact absurd rfl (hkey value)
  | value key value => rwa [holdsBytes]
  | field hfield =>
    rw [holdsBytes, fieldsHoldBytes_iff]
    exact ⟨_, hfield, hholds⟩
  | reference hfind hheld =>
    rw [holdsBytes]
    exact hclosed _ _ hfind (definitionHoldsBytes_iff.2 ⟨inner, hheld, hholds⟩)

end Looking

/-! ### Shapes -/

namespace ResultShape

theorem isSome_ofMembers (make : List (String × ResultShape) → ResultShape)
    (members : List (String × ResultShape)) :
    (ofMembers make members).isSome = !members.isEmpty := by
  cases members with
  | nil => rfl
  | cons member members => rfl

theorem isEmpty_fieldsWith {named : String → Option ResultShape} {look : TypeRef → Bool}
    {fields : List Field}
    (h : ∀ field ∈ fields, (ofTypeWith named field.type).isSome = look field.type) :
    (!(fieldsWith named fields).isEmpty) = fields.any fun field ↦ look field.type := by
  induction fields with
  | nil => rw [fieldsWith, List.any_nil, List.isEmpty_nil, Bool.not_true]
  | cons field fields ih =>
    have hfield := h field List.mem_cons_self
    have hrest := ih fun other hother ↦ h other (List.mem_cons_of_mem field hother)
    rw [fieldsWith, List.any_cons, ← hfield, ← hrest]
    split
    · rename_i shape hshape
      rw [hshape, List.isEmpty_cons, Option.isSome_some, Bool.not_false, Bool.true_or]
    · rename_i hshape
      rw [hshape, Option.isSome_none, Bool.false_or]

/-- A type has a shape where byte sequences are seen in it. -/
theorem isSome_ofTypeWith (named : String → Option ResultShape) (type : TypeRef) :
    (ofTypeWith named type).isSome = holdsBytes (fun name ↦ (named name).isSome) type := by
  induction type with
  | reference name => rw [ofTypeWith, holdsBytes]
  | scalar kind => rw [ofTypeWith, holdsBytes, Option.isSome_none]
  | bytes length => rw [ofTypeWith, holdsBytes, Option.isSome_some]
  | list items ih => rw [ofTypeWith, holdsBytes, Option.isSome_map, ih]
  | map key value _ ih => rw [ofTypeWith, holdsBytes, Option.isSome_map, ih]
  | record fields ih =>
    rw [ofTypeWith, holdsBytes, isSome_ofMembers, fieldsHoldBytes_eq_any, isEmpty_fieldsWith ih]

theorem isSome_ofDefinitionWith (named : String → Option ResultShape) (typeDef : TypeDef) :
    (ofDefinitionWith named typeDef).isSome =
      definitionHoldsBytes (fun name ↦ (named name).isSome) typeDef := by
  cases typeDef with
  | record fields =>
    rw [ofDefinitionWith, definitionHoldsBytes, isSome_ofMembers, fieldsHoldBytes_eq_any,
      isEmpty_fieldsWith fun field _ ↦ isSome_ofTypeWith named field.type]
  | variant cases =>
    rw [ofDefinitionWith, definitionHoldsBytes, isSome_ofMembers]
    induction cases with
    | nil => rfl
    | cons case cases ih =>
      rw [List.any_cons, ← ih, List.filterMap_cons]
      have hcase : (caseWith named case).isSome =
          case.payload.any (holdsBytes fun name ↦ (named name).isSome) := by
        rw [caseWith, Option.isSome_map]
        cases case.payload with
        | none => rfl
        | some type => exact isSome_ofTypeWith named type
      rw [← hcase]
      cases caseWith named case with
      | none => rfl
      | some member => rfl
  | bytes length => rfl
  | aliasOf target => exact isSome_ofTypeWith named target

end ResultShape

/-! ### Rounds -/

/-- A round keeps what the round before it found, in order. -/
theorem bytesNamesAfter_sublist_succ (types : List (String × TypeDef)) (rounds : Nat) :
    (bytesNamesAfter types rounds).Sublist (bytesNamesAfter types (rounds + 1)) := by
  induction rounds with
  | zero => exact List.nil_sublist _
  | succ rounds ih =>
    rw [bytesNamesAfter, bytesNamesAfter]
    refine (List.monotone_filter_right types fun entry hentry ↦ ?_).map Prod.fst
    refine definitionHoldsBytes_mono (fun name hname ↦ ?_) hentry
    rw [List.contains_iff_mem] at hname ⊢
    exact ih.subset hname

theorem length_bytesNamesAfter_le (types : List (String × TypeDef)) (rounds : Nat) :
    (bytesNamesAfter types rounds).length ≤ types.length := by
  cases rounds with
  | zero => exact Nat.zero_le _
  | succ rounds =>
    rw [bytesNamesAfter, List.length_map]
    exact List.length_filter_le _ types

/-- After as many rounds as there are types, one more round finds nothing new. -/
theorem bytesNamesAfter_length_succ (types : List (String × TypeDef)) :
    bytesNamesAfter types (types.length + 1) = bytesNamesAfter types types.length := by
  have hmono : Monotone fun rounds ↦ (bytesNamesAfter types rounds).length :=
    monotone_nat_of_le_succ fun rounds ↦ (bytesNamesAfter_sublist_succ types rounds).length_le
  -- a round that does not grow is the one before it, and so are all after it
  have hstill : ∀ rounds, (bytesNamesAfter types rounds).length =
      (bytesNamesAfter types (rounds + 1)).length →
      bytesNamesAfter types rounds = bytesNamesAfter types (rounds + 1) :=
    fun rounds h ↦ (bytesNamesAfter_sublist_succ types rounds).eq_of_length h
  have hnext : ∀ rounds, (bytesNamesAfter types rounds).length =
      (bytesNamesAfter types (rounds + 1)).length →
      (bytesNamesAfter types (rounds + 1)).length =
      (bytesNamesAfter types (rounds + 2)).length := by
    intro rounds h
    have heq := hstill rounds h
    rw [bytesNamesAfter, bytesNamesAfter, ← heq]
  have hlength := Nat.stabilises_of_monotone hmono (length_bytesNamesAfter_le types) hnext
    (Nat.le_succ types.length)
  exact (hstill types.length hlength.symm).symm

/-- A round finds the names whose definitions hold what the round before it found. -/
theorem mem_bytesNamesAfter_succ_iff (hnd : (Table.names types).Nodup) {rounds : Nat}
    {name : String} :
    name ∈ bytesNamesAfter types (rounds + 1) ↔ ∃ typeDef, Table.find? name types = some typeDef ∧
      definitionHoldsBytes (bytesNamesAfter types rounds).contains typeDef = true := by
  rw [bytesNamesAfter, List.mem_map]
  constructor
  · rintro ⟨⟨found, typeDef⟩, hentry, rfl⟩
    obtain ⟨hmem, hholds⟩ := List.mem_filter.1 hentry
    exact ⟨typeDef, (Table.find?_eq_some_iff hnd).2 hmem, hholds⟩
  · rintro ⟨typeDef, hfind, hholds⟩
    exact ⟨(name, typeDef), List.mem_filter.2 ⟨Table.mem_of_find?_eq_some hfind, hholds⟩, rfl⟩

section Rounds

variable (hnd : (Table.names types).Nodup)
include hnd

/-- A name is found in the end if its definition holds what is found in the end. -/
theorem contains_bytesNames_of_holds (name : String) (typeDef : TypeDef)
    (hfind : Table.find? name types = some typeDef)
    (hholds : definitionHoldsBytes (bytesNamesAfter types types.length).contains typeDef = true) :
    (bytesNamesAfter types types.length).contains name = true := by
  rw [List.contains_iff_mem, ← bytesNamesAfter_length_succ, mem_bytesNamesAfter_succ_iff hnd]
  exact ⟨typeDef, hfind, hholds⟩

theorem reachesBytes_of_mem_bytesNamesAfter {rounds : Nat} {name : String}
    (h : name ∈ bytesNamesAfter types rounds) : ReachesBytes types (.reference name) := by
  induction rounds generalizing name with
  | zero => cases h
  | succ rounds ih =>
    obtain ⟨typeDef, hfind, hholds⟩ := (mem_bytesNamesAfter_succ_iff hnd).1 h
    obtain ⟨type, hheld, hholds⟩ := definitionHoldsBytes_iff.1 hholds
    have hreaches := reachesBytes_of_holdsBytes
      (fun other hother ↦ ih (List.contains_iff_mem.1 hother)) hholds
    exact hreaches.head (.reference hfind hheld)

/-- A name whose rounds are over before the fuel is, and which leads past no name that is being
expanded, has a shape. -/
theorem isSome_ofName_of_mem {rounds fuel : Nat} (hfuel : rounds ≤ fuel) {expanding : List String}
    (hexpanding : ∀ name ∈ expanding, name ∉ bytesNamesAfter types rounds) {name : String}
    (h : name ∈ bytesNamesAfter types rounds) :
    (ResultShape.ofName types fuel expanding name).isSome = true := by
  induction rounds generalizing fuel expanding name with
  | zero => cases h
  | succ rounds ih =>
    have hbefore : ∀ other ∈ expanding, other ∉ bytesNamesAfter types rounds :=
      fun other hother hmem ↦
      hexpanding other hother ((bytesNamesAfter_sublist_succ types rounds).subset hmem)
    by_cases hnew : name ∈ bytesNamesAfter types rounds
    · exact ih (by omega) hbefore hnew
    · -- the name is new in this round, so all that it leads to is expanded with it set aside
      obtain ⟨fuel, rfl⟩ := Nat.exists_eq_add_of_le' (Nat.le_trans (Nat.le_add_left 1 rounds) hfuel)
      obtain ⟨typeDef, hfind, hholds⟩ := (mem_bytesNamesAfter_succ_iff hnd).1 h
      have hfresh : name ∉ expanding := fun hmem ↦ hexpanding name hmem h
      have haside : ∀ other ∈ name :: expanding, other ∉ bytesNamesAfter types rounds :=
        List.forall_mem_cons.2 ⟨hnew, hbefore⟩
      rw [ResultShape.ofName, if_neg hfresh, hfind]
      show (ResultShape.ofDefinitionWith _ typeDef).isSome = true
      rw [ResultShape.isSome_ofDefinitionWith]
      exact definitionHoldsBytes_mono
        (fun other hother ↦ ih (by omega) haside (List.contains_iff_mem.1 hother)) hholds

theorem mem_of_isSome_ofName {fuel : Nat} {expanding : List String} {name : String}
    (h : (ResultShape.ofName types fuel expanding name).isSome = true) :
    name ∈ bytesNamesAfter types fuel := by
  induction fuel generalizing expanding name with
  | zero => cases h
  | succ fuel ih =>
    rw [ResultShape.ofName] at h
    split at h
    · cases h
    · split at h
      · rename_i typeDef hfind
        rw [ResultShape.isSome_ofDefinitionWith] at h
        exact (mem_bytesNamesAfter_succ_iff hnd).2 ⟨typeDef, hfind,
          definitionHoldsBytes_mono (fun other hother ↦ List.contains_iff_mem.2 (ih hother)) h⟩
      · cases h

theorem isSome_ofName_iff {rounds : Nat} {name : String} :
    (ResultShape.ofName types rounds [] name).isSome = true ↔ name ∈ bytesNamesAfter types rounds :=
  ⟨mem_of_isSome_ofName hnd, isSome_ofName_of_mem hnd (Nat.le_refl rounds) (List.forall_mem_nil _)⟩

/-- The two computations give the same answer. -/
theorem isSome_ofType (type : TypeRef) :
    (ResultShape.ofType types type).isSome = isBinary types type := by
  have hnames : (fun name ↦ (ResultShape.ofName types types.length [] name).isSome) =
      (bytesNamesAfter types types.length).contains := by
    funext name
    rw [Bool.eq_iff_iff, isSome_ofName_iff hnd, List.contains_iff_mem]
  rw [ResultShape.ofType, ResultShape.isSome_ofTypeWith, isBinary, hnames]

/-- What is found is reached, and what is reached is found unless it is by way of the key of a
map. -/
theorem isBinary_iff {type : TypeRef}
    (hkeys : ∀ key value, Relation.ReflTransGen (Inward types) type (.map key value) →
      ¬ ReachesBytes types key) :
    isBinary types type = true ↔ ReachesBytes types type := by
  constructor
  · exact reachesBytes_of_holdsBytes fun name hname ↦
      reachesBytes_of_mem_bytesNamesAfter hnd (List.contains_iff_mem.1 hname)
  · rintro ⟨length, hpath⟩
    induction hpath using Relation.ReflTransGen.head_induction_on with
    | refl => rw [isBinary, holdsBytes]
    | @head type inner hstep hpath ih =>
      refine holdsBytes_of_inward (contains_bytesNames_of_holds hnd) hstep ?_
        (ih fun key value h ↦ hkeys key value (.head hstep h))
      rintro value rfl
      exact hkeys inner value .refl ⟨length, hpath⟩

end Rounds

/-! ### Occurrences -/

section Occurrences

variable {document : Document}

/-- The type occurs in the document, or is a byte sequence. -/
def Present (document : Document) (type : TypeRef) : Prop :=
  (∃ place location, document.Occurs place ⟨type, location⟩) ∨ ∃ length, type = .bytes length

theorem present_of_heldBy {name : String} {typeDef : TypeDef} {type : TypeRef}
    (hfind : Table.find? name document.types = some typeDef) (h : HeldBy typeDef type) :
    Present document type := by
  obtain ⟨t, ht⟩ := List.mem_iff_getElem?.1 (Table.mem_of_find?_eq_some hfind)
  cases h with
  | field hfield =>
    obtain ⟨f, hf⟩ := List.mem_iff_getElem?.1 hfield
    exact Or.inl ⟨_, _, .type ht (.field hf (.here _))⟩
  | payload hcase htype =>
    obtain ⟨c, hc⟩ := List.mem_iff_getElem?.1 hcase
    exact Or.inl ⟨_, _, .type ht (.case hc ⟨type, htype, .here _⟩)⟩
  | bytes length => exact Or.inr ⟨length, rfl⟩
  | target target => exact Or.inl ⟨_, _, .type ht (.target (.here _))⟩

/-- A way inward from what is present leads to what is present. -/
theorem Present.inward {type inner : TypeRef} (h : Present document type)
    (hstep : Inward document.types type inner) : Present document inner := by
  rcases h with ⟨place, location, hoccurs⟩ | ⟨length, rfl⟩
  · cases hstep with
    | items items => exact Or.inl ⟨_, _, hoccurs.trans (.items (.here _))⟩
    | key key value => exact Or.inl ⟨_, _, hoccurs.trans (.key (.here _))⟩
    | value key value => exact Or.inl ⟨_, _, hoccurs.trans (.value (.here _))⟩
    | field hfield =>
      obtain ⟨i, hi⟩ := List.mem_iff_getElem?.1 hfield
      exact Or.inl ⟨_, _, hoccurs.trans (.field hi (.here _))⟩
    | reference hfind hheld => exact present_of_heldBy hfind hheld
  · cases hstep

theorem Present.reach {type inner : TypeRef} (h : Present document type)
    (hpath : Relation.ReflTransGen (Inward document.types) type inner) :
    Present document inner := by
  induction hpath with
  | refl => exact h
  | tail _ hstep ih => exact ih.inward hstep

theorem not_reachesBytes_key (hkeys : document.KeysAreStrings) {key value : TypeRef}
    (h : Present document (.map key value)) : ¬ ReachesBytes document.types key := by
  rcases h with ⟨place, location, hoccurs⟩ | ⟨length, h⟩
  · exact not_reachesBytes_of_chain (hkeys place key value location hoccurs)
  · cases h

end Occurrences

/-- For every type that occurs in a manifest that was obtained, the rounds find a byte sequence in
it exactly when one is reached from it, and a shape is made for it exactly then. -/
theorem binary_detection_exact {manifest : Manifest} (h : manifest.Obtained) {place : List Nat}
    {type : TypeRef} {location : String}
    (hoccurs : manifest.toDocument.Occurs place ⟨type, location⟩) :
    (isBinary manifest.types type = true ↔ ReachesBytes manifest.types type) ∧
      ((ResultShape.ofType manifest.types type).isSome = true ↔
        ReachesBytes manifest.types type) := by
  have hnd : (Table.names manifest.types).Nodup := h.checked.names .type
  have hpresent : Present manifest.toDocument type := Or.inl ⟨place, location, hoccurs⟩
  have hbinary : isBinary manifest.types type = true ↔ ReachesBytes manifest.types type :=
    isBinary_iff hnd fun key value hpath ↦ not_reachesBytes_key h.checked.keys
      (hpresent.reach hpath)
  exact ⟨hbinary, by rw [isSome_ofType hnd, hbinary]⟩

/-- A value in which two types hold each other. One of them leads to a byte sequence, by way of a
map with keys of an alias; a third holds only itself. -/
def entwined : Json :=
  .object [("schema_version", .string "wasm-abi/1"),
    ("types", .object [
      ("Label", .object [("kind", .string "alias"),
        ("target", .object [("kind", .string "string")])]),
      ("Node", .object [("kind", .string "record"), ("fields", .array [
        .object [("name", .string "next"), ("type", .object [("$ref", .string "Link")])]])]),
      ("Link", .object [("kind", .string "variant"), ("variants", .array [
        .object [("name", .string "back"), ("payload", .object [("$ref", .string "Node")])],
        .object [("name", .string "stop"), ("payload", .object [("kind", .string "map"),
          ("key", .object [("$ref", .string "Label")]),
          ("value", .object [("kind", .string "bytes")])])]])]),
      ("Loop", .object [("kind", .string "record"), ("fields", .array [
        .object [("name", .string "self"), ("type", .object [("$ref", .string "Loop")])]])])]),
    ("methods", .array [.object [("name", .string "walk"), ("params", .array [
      .object [("name", .string "from"), ("type", .object [("$ref", .string "Node")])],
      .object [("name", .string "around"), ("type", .object [("$ref", .string "Loop")])]])]]),
    ("events", .array [])]

theorem binary_detection_exact_entwined :
    ∃ manifest, Manifest.ofJsonWith (fun _ ↦ []) entwined = .ok manifest ∧
      manifest.toDocument.Occurs [0, 0, 0, 0] ⟨.reference "Node", "method.walk.param.from"⟩ ∧
      (isBinary manifest.types (.reference "Node") = true ↔
        ReachesBytes manifest.types (.reference "Node")) ∧
      ((ResultShape.ofType manifest.types (.reference "Node")).isSome = true ↔
        ReachesBytes manifest.types (.reference "Node")) := by
  obtain ⟨manifest, h, hoccurs⟩ :
      ∃ manifest, Manifest.ofJsonWith (fun _ ↦ []) entwined = .ok manifest ∧
      manifest.toDocument.Occurs [0, 0, 0, 0] ⟨.reference "Node", "method.walk.param.from"⟩ :=
    ⟨_, rfl, .method rfl (.param rfl (.here _))⟩
  exact ⟨manifest, h, hoccurs, binary_detection_exact (.ofJsonWith h) hoccurs⟩

end AbiBindings.Client
