import AbiBindings.Proofs.Manifest.Checks

/-!
# Removing a type that is referred to

A document that passes the checks fails them without one of its types, if the type is referred to
from outside of its own definition. The error lists exactly these references, in the order in which
the document is walked (`check_without`).

The walk over what is left is compared with the walk over the whole document. Places are those of
the whole document, where the removed definition still has a number. What is left are the
occurrences outside of that definition (`listsInOrder_without`), and of their references the ones to
the removed type are all that dangle. The references are looked at before everything else, so it
does not matter what else the removal breaks.
-/

namespace AbiBindings.Document

/-- The document without the type of a name. -/
def without (document : Document) (name : String) : Document :=
  { document with types := document.types.filter (·.1 ≠ name) }

/-- The place is inside the definition of the type. -/
def InDefinition (document : Document) (name : String) (place : List Nat) : Prop :=
  ∃ t typeDef rest, place = 2 :: t :: rest ∧ document.types[t]? = some (name, typeDef)

/-- At this place, under this label and outside of the type's own definition, stands a reference to
the type. -/
def ReferredAt (document : Document) (name : String) (place : List Nat)
    (location : String) : Prop :=
  document.Occurs place ⟨.reference name, location⟩ ∧ ¬ document.InDefinition name place

variable {document : Document} {name : String}

/-- The types that are left are listed, each with its number among all types. -/
theorem listsInOrder_typesLeft (types : List (String × TypeDef)) (name : String) :
    ListsInOrder
      (fun place found ↦ ∃ t rest, ∃ entry : String × TypeDef, place = t :: rest ∧
        types[t]? = some entry ∧
        entry.1 ≠ name ∧ entry.2.Occurs entry.1 rest found)
      ((types.filter (·.1 ≠ name)).flatMap fun entry ↦ entry.2.occurrences entry.1) := by
  have hlist : ((types.filter (·.1 ≠ name)).flatMap fun entry ↦ entry.2.occurrences entry.1) =
      types.flatMap fun entry ↦ if entry.1 ≠ name then entry.2.occurrences entry.1 else [] := by
    induction types with
    | nil => rfl
    | cons entry types ih => by_cases hname : entry.1 = name <;> simp_all
  rw [hlist]
  refine ListsInOrder.flatMap types fun entry _ ↦ ?_
  split
  · rename_i hne
    exact (entry.2.listsInOrder_occurrences entry.1).congr fun place found ↦
      (and_iff_right hne).symm
  · rename_i heq
    exact .nil fun place found h ↦ heq h.1

/-- What is left are the occurrences outside of the definition of the type. -/
theorem listsInOrder_without (document : Document) (name : String) :
    ListsInOrder (fun place found ↦ document.Occurs place found ∧
      ¬ document.InDefinition name place) (document.without name).occurrences := by
  -- methods and events first: the occurrences of a document that has no types
  have hfront := ({ document with types := [] } : Document).listsInOrder_occurrences
  have htypes := (listsInOrder_typesLeft document.types name).under 2
  have hlist : (document.without name).occurrences =
      ({ document with types := [] } : Document).occurrences ++
      (document.types.filter (·.1 ≠ name)).flatMap fun entry ↦ entry.2.occurrences entry.1 := by
    rw [occurrences, occurrences, List.flatMap_nil, List.append_nil]
    rfl
  rw [hlist]
  refine (hfront.append htypes ?_).congr fun place found ↦ ⟨?_, ?_⟩
  · rintro p a q b hp ⟨rest, rfl, -⟩
    cases hp with
    | method => exact List.cons_lt_cons_iff.2 (.inl (by omega))
    | event => exact List.cons_lt_cons_iff.2 (.inl (by omega))
    | type htype => cases htype
  · rintro (hfound | ⟨_, rfl, t, rest, ⟨other, typeDef⟩, rfl, htype, hne, h⟩)
    · cases hfound with
      | method hmethod h =>
        refine ⟨.method hmethod h, ?_⟩
        rintro ⟨t, typeDef, rest, hplace, -⟩
        cases hplace
      | event hevent h =>
        refine ⟨.event hevent h, ?_⟩
        rintro ⟨t, typeDef, rest, hplace, -⟩
        cases hplace
      | type htype => cases htype
    · refine ⟨.type htype h, ?_⟩
      rintro ⟨t', typeDef', rest', hplace, htype'⟩
      cases hplace
      rw [htype] at htype'
      cases htype'
      exact hne rfl
  · rintro ⟨hfound, hout⟩
    cases hfound with
    | method hmethod h => exact .inl (.method hmethod h)
    | event hevent h => exact .inl (.event hevent h)
    | @type t other typeDef rest _ htype h =>
      refine .inr ⟨_, rfl, t, rest, (other, typeDef), rfl, htype, ?_, h⟩
      rintro rfl
      exact hout ⟨t, typeDef, rest, rfl, htype⟩

theorem mem_names_without {other : String} :
    other ∈ Table.names (document.without name).types ↔ other ∈ Table.names document.types ∧
      other ≠ name := by
  simp [Table.names, without]

/-- Where all references resolve, those that dangle after the removal are the ones to the removed
type. -/
theorem listsInOrder_dangling_without (h : document.ReferencesResolve) (name : String) :
    ListsInOrder (fun place reference ↦ reference.name = name ∧
      document.ReferredAt name place reference.location)
      ((document.without name).occurrences.filterMap
        (dangling? (document.without name).types)) := by
  refine ((listsInOrder_without document name).filterMap _).congr fun place reference ↦ ⟨?_, ?_⟩
  · rintro ⟨⟨type, location⟩, ⟨hoccurs, hout⟩, hpick⟩
    cases type with
    | reference other =>
      simp only [dangling?, Table.contains_iff] at hpick
      split at hpick
      · cases hpick
      · rename_i hnot
        obtain rfl := Option.some.inj hpick
        -- the name was there before, so it is the one that was removed
        obtain rfl : other = name := by
          by_contra hne
          exact hnot (mem_names_without.2 ⟨h place other location hoccurs, hne⟩)
        exact ⟨rfl, hoccurs, hout⟩
    | _ => cases hpick
  · obtain ⟨other, location⟩ := reference
    rintro ⟨rfl, hoccurs, hout⟩
    refine ⟨_, ⟨hoccurs, hout⟩, ?_⟩
    simp only [dangling?, Table.contains_iff]
    exact if_neg fun hmem ↦ (mem_names_without.1 hmem).2 rfl

/-- A document that passes, with a type that is referred to from outside of its own definition, does
not pass without that type. The error is that references dangle: all of them are to the removed
type, and they are listed at exactly the places where it is referred to outside of its definition,
in the order of the walk. -/
theorem check_without {manifest : Manifest} (h : document.check = .ok manifest)
    (hreferred : ∃ place location, document.ReferredAt name place location) :
    ∃ references, (document.without name).check = .error (.danglingReferences references) ∧
      references ≠ [] ∧
      (∀ reference ∈ references, reference.name = name) ∧
      ListsInOrder (document.ReferredAt name) (references.map DanglingReference.location) := by
  obtain ⟨hresolve, -⟩ := check_eq_ok_iff.1 h
  have hlists := listsInOrder_dangling_without hresolve name
  have hdangling := (document.without name).listsInOrder_dangling
  generalize (document.without name).occurrences.filterMap
    (dangling? (document.without name).types) = references at hlists hdangling
  have hne : references ≠ [] := by
    obtain ⟨place, location, hplace⟩ := hreferred
    intro hnil
    exact hlists.eq_nil_iff.1 hnil place ⟨name, location⟩ ⟨rfl, hplace⟩
  have hnames : ∀ reference ∈ references, reference.name = name := by
    intro reference hmem
    obtain ⟨place, hname, -⟩ := hlists.mem_iff.1 hmem
    exact hname
  refine ⟨references, check_eq_error_iff.2 (.references hne hdangling), hne, hnames, ?_⟩
  refine (hlists.map _).congr fun place location ↦
    ⟨?_, fun hplace ↦ ⟨⟨name, location⟩, ⟨rfl, hplace⟩, rfl⟩⟩
  rintro ⟨reference, ⟨-, hplace⟩, rfl⟩
  exact hplace

/-- A document with a type that holds itself, in a map whose keys are of another type. -/
def forest : Document where
  version := Manifest.supportedVersion
  types := [("Name", .aliasOf (.scalar .string)),
    ("Tree", .record [⟨"label", .reference "Name", true⟩,
      ⟨"branches", .map (.reference "Name") (.list (.reference "Tree")), false⟩])]
  methods :=
    [⟨"plant", [⟨"trees", .map (.reference "Name") (.reference "Tree"), false⟩], none, false,
      [⟨"TAKEN", some (.reference "Name")⟩]⟩]
  events := [⟨"Grown", some (.reference "Tree")⟩]

theorem check_without_forest :
    (∃ manifest, forest.check = .ok manifest) ∧
      (∃ place location, forest.ReferredAt "Tree" place location) ∧
      (∃ place location, forest.ReferredAt "Name" place location) ∧
      (forest.without "Tree").check =
        .error (.danglingReferences [⟨"Tree", "method.plant.param.trees.value"⟩,
          ⟨"Tree", "event.Grown"⟩]) ∧
      ListsInOrder (forest.ReferredAt "Tree") ["method.plant.param.trees.value", "event.Grown"] ∧
      ListsInOrder (forest.ReferredAt "Name") ["method.plant.param.trees.key",
        "method.plant.error.TAKEN", "type.Tree.field.label", "type.Tree.field.branches.key"] := by
  have hcheck : ∃ manifest, forest.check = .ok manifest := ⟨_, rfl⟩
  have htree : ∃ place location, forest.ReferredAt "Tree" place location := by
    refine ⟨_, _, .event (e := 0) rfl ⟨_, rfl, .here _⟩, ?_⟩
    rintro ⟨t, typeDef, rest, hplace, -⟩
    cases hplace
  have hname : ∃ place location, forest.ReferredAt "Name" place location := by
    refine ⟨_, _, .method (m := 0) rfl (.error (e := 0) rfl ⟨_, rfl, .here _⟩), ?_⟩
    rintro ⟨t, typeDef, rest, hplace, -⟩
    cases hplace
  obtain ⟨manifest, hmanifest⟩ := hcheck
  obtain ⟨trees, htrees, -, -, hlistsTrees⟩ := check_without hmanifest htree
  obtain ⟨names, hnames, -, -, hlistsNames⟩ := check_without hmanifest hname
  cases htrees
  cases hnames
  exact ⟨⟨manifest, hmanifest⟩, htree, hname, rfl, hlistsTrees, hlistsNames⟩

end AbiBindings.Document
