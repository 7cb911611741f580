import AbiBindings.Proofs.Manifest.Aliases
import AbiBindings.Proofs.Manifest.Occurrences
import AbiBindings.Proofs.Manifest.Repetition
import AbiBindings.Proofs.Outcome

/-!
# What the checks of a document decide

The three conditions on a document are stated on its occurrences and its names, without the checks:
`ReferencesResolve`, `KeysAreStrings`, and that no list of names repeats one. A document passes
exactly when it satisfies them. `Document.Objection` describes the error of a document that does
not: the conditions are looked at in a fixed order and the first that fails gives the error, which
lists every offence against it and nothing else.

Each check is a listing of offences (`listsInOrder_dangling`, `listsInOrder_nonStringKeys`,
`listsInOrder_repeated`), and a listing is empty exactly when there is no offence.
-/

namespace AbiBindings.Document

/-! ### Conditions -/

/-- At this place stands a reference that leads nowhere. -/
def DanglingAt (document : Document) (place : List Nat) (reference : DanglingReference) : Prop :=
  document.Occurs place ⟨.reference reference.name, reference.location⟩ ∧
    reference.name ∉ Table.names document.types

/-- Every reference names an entry of the type table. -/
def ReferencesResolve (document : Document) : Prop :=
  ∀ place name location, document.Occurs place ⟨.reference name, location⟩ →
    name ∈ Table.names document.types

/-- At this place, under this label, stands a map whose keys are no strings. -/
def NonStringKeyAt (document : Document) (place : List Nat) (location : String) : Prop :=
  ∃ key value, document.Occurs place ⟨.map key value, location⟩ ∧
    ¬ Alias.Chain document.types key (.scalar .string)

/-- The key of every map is the string scalar or an alias of it. -/
def KeysAreStrings (document : Document) : Prop :=
  ∀ place key value location, document.Occurs place ⟨.map key value, location⟩ →
    Alias.Chain document.types key (.scalar .string)

/-- The names of one kind. -/
def namesOf (document : Document) : NameKind → List String
  | .method => document.methods.map Method.name
  | .event => document.events.map Event.name
  | .type => Table.names document.types

/-! ### Offences -/

/-- The references that lead nowhere are found in the order of their places. -/
theorem listsInOrder_dangling (document : Document) :
    ListsInOrder document.DanglingAt
      (document.occurrences.filterMap (dangling? document.types)) := by
  refine (document.listsInOrder_occurrences.filterMap _).congr fun place reference ↦ ⟨?_, ?_⟩
  · rintro ⟨⟨type, location⟩, hoccurs, hpick⟩
    cases type with
    | reference name =>
      simp only [dangling?, Table.contains_iff] at hpick
      split at hpick
      · cases hpick
      · rename_i hnot
        obtain rfl := Option.some.inj hpick
        exact ⟨hoccurs, hnot⟩
    | _ => cases hpick
  · rintro ⟨hoccurs, hnot⟩
    refine ⟨_, hoccurs, ?_⟩
    simp only [dangling?, Table.contains_iff]
    rw [if_neg hnot]

/-- The maps whose keys are no strings are found in the order of their places. -/
theorem listsInOrder_nonStringKeys (document : Document) :
    ListsInOrder document.NonStringKeyAt
      (document.occurrences.filterMap (nonStringKey? document.types)) := by
  refine (document.listsInOrder_occurrences.filterMap _).congr fun place label ↦ ⟨?_, ?_⟩
  · rintro ⟨⟨type, location⟩, hoccurs, hpick⟩
    cases type with
    | map key value =>
      simp only [nonStringKey?] at hpick
      split at hpick
      · cases hpick
      · rename_i hnot
        obtain rfl := Option.some.inj hpick
        exact ⟨key, value, hoccurs, Alias.isString_iff.not.1 hnot⟩
    | _ => cases hpick
  · rintro ⟨key, value, hoccurs, hnot⟩
    refine ⟨_, hoccurs, ?_⟩
    simp only [nonStringKey?]
    rw [if_neg (Alias.isString_iff.not.2 hnot)]

theorem referencesResolve_iff {document : Document} :
    document.ReferencesResolve ↔ ∀ place reference, ¬ document.DanglingAt place reference := by
  constructor
  · rintro h place reference ⟨hoccurs, hnot⟩
    exact hnot (h _ _ _ hoccurs)
  · intro h place name location hoccurs
    by_contra hnot
    exact h place ⟨name, location⟩ ⟨hoccurs, hnot⟩

theorem keysAreStrings_iff {document : Document} :
    document.KeysAreStrings ↔ ∀ place label, ¬ document.NonStringKeyAt place label := by
  constructor
  · rintro h place label ⟨key, value, hoccurs, hnot⟩
    exact hnot (h _ _ _ _ hoccurs)
  · intro h place key value location hoccurs
    by_contra hnot
    exact h place location ⟨key, value, hoccurs, hnot⟩

/-! ### The checks one by one -/

section Verdict

variable {ι α : Type} [LT ι] {R : ι → α → Prop} {offences : List α}

/-- A check passes when it lists no offences, and otherwise fails with what it lists. -/
def verdict (report : List α → Error) : List α → Except Error Unit
  | [] => .ok ()
  | offences => .error (report offences)

/-- Nothing is reported exactly if there is no offence at any place. -/
theorem verdict_eq_ok_iff (h : ListsInOrder R offences) {report : List α → Error} :
    verdict report offences = .ok () ↔ ∀ place offence, ¬ R place offence := by
  rw [← h.eq_nil_iff]
  cases offences <;> simp [verdict]

/-- What is reported is the list of all offences in order, and there is only one such list. -/
theorem verdict_eq_error_iff [Std.Asymm (α := ι) (· < ·)] (h : ListsInOrder R offences)
    {report : List α → Error} {error : Error} :
    verdict report offences = .error error ↔
      ∃ listed, listed ≠ [] ∧ ListsInOrder R listed ∧ error = report listed := by
  cases offences with
  | nil =>
    simp only [verdict, reduceCtorEq, false_iff]
    rintro ⟨listed, hne, hlisted, -⟩
    exact hne (hlisted.unique h)
  | cons offence offences =>
    constructor
    · intro hverdict
      exact ⟨_, List.cons_ne_nil _ _, h, (Except.error.inj hverdict).symm⟩
    · rintro ⟨listed, -, hlisted, rfl⟩
      rw [hlisted.unique h]
      rfl

end Verdict

theorem checkReferences_eq_verdict (document : Document) :
    document.checkReferences =
      verdict .danglingReferences (document.occurrences.filterMap (dangling? document.types)) := by
  rw [checkReferences]
  generalize document.occurrences.filterMap (dangling? document.types) = offences
  cases offences <;> rfl

theorem checkMapKeys_eq_verdict (document : Document) :
    document.checkMapKeys =
      verdict .nonStringKeys (document.occurrences.filterMap (nonStringKey? document.types)) := by
  rw [checkMapKeys]
  generalize document.occurrences.filterMap (nonStringKey? document.types) = offences
  cases offences <;> rfl

theorem checkUnique_eq_verdict (kind : NameKind) (names : List String) :
    checkUnique kind names = verdict (.duplicateNames kind) (repeated names) := by
  rw [checkUnique]
  generalize repeated names = offences
  cases offences <;> rfl

/-- References pass exactly if all of them lead to an entry of the type table. -/
theorem checkReferences_eq_ok_iff {document : Document} :
    document.checkReferences = .ok () ↔ document.ReferencesResolve := by
  rw [checkReferences_eq_verdict, verdict_eq_ok_iff document.listsInOrder_dangling,
    referencesResolve_iff]

theorem checkReferences_eq_error_iff {document : Document} {error : Error} :
    document.checkReferences = .error error ↔
      ∃ references, references ≠ [] ∧ ListsInOrder document.DanglingAt references ∧
        error = .danglingReferences references := by
  rw [checkReferences_eq_verdict, verdict_eq_error_iff document.listsInOrder_dangling]

/-- Keys pass exactly if all of them are the string scalar or aliases of it. -/
theorem checkMapKeys_eq_ok_iff {document : Document} :
    document.checkMapKeys = .ok () ↔ document.KeysAreStrings := by
  rw [checkMapKeys_eq_verdict, verdict_eq_ok_iff document.listsInOrder_nonStringKeys,
    keysAreStrings_iff]

theorem checkMapKeys_eq_error_iff {document : Document} {error : Error} :
    document.checkMapKeys = .error error ↔
      ∃ locations, locations ≠ [] ∧ ListsInOrder document.NonStringKeyAt locations ∧
        error = .nonStringKeys locations := by
  rw [checkMapKeys_eq_verdict, verdict_eq_error_iff document.listsInOrder_nonStringKeys]

/-- Names pass exactly if none comes twice. -/
theorem checkUnique_eq_ok_iff {kind : NameKind} {names : List String} :
    checkUnique kind names = .ok () ↔ names.Nodup := by
  rw [checkUnique_eq_verdict, verdict_eq_ok_iff (listsInOrder_repeated names),
    ← (listsInOrder_repeated names).eq_nil_iff, repeated_eq_nil_iff]

/-- Otherwise those that come twice are reported, in the order of their second occurrences. -/
theorem checkUnique_eq_error_iff {kind : NameKind} {names : List String} {error : Error} :
    checkUnique kind names = .error error ↔
      ∃ found, found ≠ [] ∧ ListsRepeated names found ∧ error = .duplicateNames kind found := by
  simp only [listsRepeated_iff]
  rw [checkUnique_eq_verdict, verdict_eq_error_iff (listsInOrder_repeated names)]

/-! ### All checks -/

/-- The checks run one after the other, and the manifest is that of the document. -/
theorem check_eq_ok_iff {document : Document} {manifest : Manifest} :
    document.check = .ok manifest ↔
      document.ReferencesResolve ∧ document.KeysAreStrings ∧
      (∀ kind, (document.namesOf kind).Nodup) ∧
        manifest = .ofDocument document := by
  rw [check]
  simp only [check_bind_eq_ok_iff, checkReferences_eq_ok_iff, checkMapKeys_eq_ok_iff,
    checkUnique_eq_ok_iff]
  constructor
  · rintro ⟨hreferences, hkeys, hmethods, hevents, htypes, h⟩
    refine ⟨hreferences, hkeys, fun kind ↦ ?_, (Except.ok.inj h).symm⟩
    cases kind with
    | method => exact hmethods
    | event => exact hevents
    | type => exact htypes
  · rintro ⟨hreferences, hkeys, hnames, rfl⟩
    exact ⟨hreferences, hkeys, hnames .method, hnames .event, hnames .type, rfl⟩

/-- The error of a document that does not pass: all offences against the first condition that
fails. -/
inductive Objection (document : Document) : Error → Prop
  | references {references : List DanglingReference} (hne : references ≠ [])
    (h : ListsInOrder document.DanglingAt references) :
    Objection document (.danglingReferences references)
  | mapKeys (hreferences : document.ReferencesResolve) {locations : List String}
    (hne : locations ≠ [])
    (h : ListsInOrder document.NonStringKeyAt locations) :
    Objection document (.nonStringKeys locations)
  | methodNames (hreferences : document.ReferencesResolve) (hkeys : document.KeysAreStrings)
    {names : List String} (hne : names ≠ []) (h : ListsRepeated (document.namesOf .method) names) :
    Objection document (.duplicateNames .method names)
  | eventNames (hreferences : document.ReferencesResolve) (hkeys : document.KeysAreStrings)
    (hmethods : (document.namesOf .method).Nodup) {names : List String} (hne : names ≠ [])
    (h : ListsRepeated (document.namesOf .event) names) :
    Objection document (.duplicateNames .event names)
  | typeNames (hreferences : document.ReferencesResolve) (hkeys : document.KeysAreStrings)
    (hmethods : (document.namesOf .method).Nodup) (hevents : (document.namesOf .event).Nodup)
    {names : List String} (hne : names ≠ []) (h : ListsRepeated (document.namesOf .type) names) :
    Objection document (.duplicateNames .type names)

/-- A document is refused by the first check that objects to it. -/
theorem check_eq_error_iff {document : Document} {error : Error} :
    document.check = .error error ↔ document.Objection error := by
  rw [check]
  simp only [check_bind_eq_error_iff, checkReferences_eq_ok_iff, checkReferences_eq_error_iff,
    checkMapKeys_eq_ok_iff, checkMapKeys_eq_error_iff, checkUnique_eq_ok_iff,
    checkUnique_eq_error_iff]
  constructor
  · rintro (⟨references, hne, h, rfl⟩ | ⟨hreferences, ⟨locations, hne, h, rfl⟩ | ⟨hkeys, hnames⟩⟩)
    · exact .references hne h
    · exact .mapKeys hreferences hne h
    rcases hnames with ⟨names, hne, h, rfl⟩ | ⟨hmethods, ⟨names, hne, h, rfl⟩ | ⟨hevents, hnames⟩⟩
    · exact .methodNames hreferences hkeys hne h
    · exact .eventNames hreferences hkeys hmethods hne h
    rcases hnames with ⟨names, hne, h, rfl⟩ | ⟨-, h⟩
    · exact .typeNames hreferences hkeys hmethods hevents hne h
    · cases h
  · rintro (⟨hne, h⟩ | ⟨hreferences, hne, h⟩ | ⟨hreferences, hkeys, hne, h⟩ |
      ⟨hreferences, hkeys, hmethods, hne, h⟩ | ⟨hreferences, hkeys, hmethods, hevents, hne, h⟩)
    · exact Or.inl ⟨_, hne, h, rfl⟩
    · exact Or.inr ⟨hreferences, Or.inl ⟨_, hne, h, rfl⟩⟩
    · exact Or.inr ⟨hreferences, Or.inr ⟨hkeys, Or.inl ⟨_, hne, h, rfl⟩⟩⟩
    · exact Or.inr ⟨hreferences, Or.inr ⟨hkeys, Or.inr ⟨hmethods, Or.inl ⟨_, hne, h, rfl⟩⟩⟩⟩
    · exact Or.inr ⟨hreferences,
        Or.inr ⟨hkeys, Or.inr ⟨hmethods, Or.inr ⟨hevents, Or.inl ⟨_, hne, h, rfl⟩⟩⟩⟩⟩

/-- The checks are exact. A document passes exactly when its references resolve, the keys of its
maps are strings and no name of a kind is repeated, and the error of any other document is the one
that `Objection` describes. -/
theorem check_exact (document : Document) :
    ((∃ manifest, document.check = .ok manifest) ↔
      document.ReferencesResolve ∧ document.KeysAreStrings ∧
      ∀ kind, (document.namesOf kind).Nodup) ∧
    ∀ error, document.check = .error error ↔ document.Objection error := by
  refine ⟨?_, fun error ↦ check_eq_error_iff⟩
  simp only [check_eq_ok_iff]
  constructor
  · rintro ⟨manifest, hreferences, hkeys, hnames, -⟩
    exact ⟨hreferences, hkeys, hnames⟩
  · rintro ⟨hreferences, hkeys, hnames⟩
    exact ⟨_, hreferences, hkeys, hnames, rfl⟩

end AbiBindings.Document
