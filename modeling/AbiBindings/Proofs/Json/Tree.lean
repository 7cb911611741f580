import AbiBindings.Json.Located
import AbiBindings.Proofs.Outcome
import AbiBindings.Proofs.Table

/-!
# Trees of a text and their plain values

A tree has a plain value when nothing in it breaks off, is nested too deep or faulty, and then its
contents have the contents of that value (`toJson_list_eq_ok_iff`, `toJson_object_eq_ok_iff`). The
entries of an object are taken over as they stand if their keys are distinct, which `distinctKeys`
says of all objects of a tree.
-/

namespace AbiBindings.Json.Located

/-- Induction on a tree, with a hypothesis for each item of a list and each entry of an object. -/
@[elab_as_elim, induction_eliminator]
theorem induction {motive : Located → Prop} (scalar : ∀ value stop, motive (.scalar value stop))
    (list : ∀ start tooDeep items ending, (∀ item ∈ items, motive item) →
      motive (.list start tooDeep items ending))
    (object : ∀ start tooDeep (entries : List (Key × Located)) ending,
      (∀ entry ∈ entries, motive entry.2) →
      motive (.object start tooDeep entries ending))
    (broken : ∀ cut, motive (.broken cut)) : ∀ node, motive node
  | .scalar value stop => scalar value stop
  | .list start tooDeep items ending =>
    list start tooDeep items ending fun item _ ↦ induction scalar list object broken item
  | .object start tooDeep entries ending =>
    object start tooDeep entries ending fun entry _ ↦ induction scalar list object broken entry.2
  | .broken cut => broken cut
decreasing_by
  all_goals simp_wf
  · rename_i hmem
    have hlt := List.sizeOf_lt_of_mem hmem
    omega
  · rename_i hmem
    have hlt := List.sizeOf_lt_of_mem hmem
    obtain ⟨key, node⟩ := entry
    simp only [Prod.mk.sizeOf_spec] at hlt
    show sizeOf node < _
    omega

/-! ### Contents as lists of steps -/

theorem toJsonItems_eq_mapM (items : List Located) : toJsonItems items = items.mapM toJson := by
  induction items with
  | nil => rfl
  | cons item items ih => rw [toJsonItems, List.mapM_cons, ih]

theorem toJsonEntries_eq_mapM (entries : List (Key × Located)) :
    toJsonEntries entries = entries.mapM fun entry ↦ do return (← entry.1.name,
      ← toJson entry.2) := by
  induction entries with
  | nil => rfl
  | cons entry entries ih =>
    rw [toJsonEntries, List.mapM_cons, ih]
    simp only [bind_assoc, pure_bind]

theorem ofJsonItems_eq_map (items : List Json) : ofJsonItems items = items.map ofJson := by
  induction items with
  | nil => rfl
  | cons item items ih => rw [ofJsonItems, List.map_cons, ih]

theorem ofJsonEntries_eq_map (entries : List (String × Json)) :
    ofJsonEntries entries = entries.map fun entry ↦ (⟨.ok entry.1, 0⟩, ofJson entry.2) := by
  induction entries with
  | nil => rfl
  | cons entry entries ih => rw [ofJsonEntries, List.map_cons, ih]

/-! ### Trees with a plain value -/

/-- Contents are taken exactly if their end was found. -/
theorem atEnd_eq_ok_iff {α : Type} {ending : Ending} {contents result : α} :
    atEnd ending contents = .ok result ↔ (∃ stop, ending = .closed stop) ∧ contents = result := by
  cases ending with
  | closed stop => simp [atEnd]
  | broken cut => simp [atEnd]

theorem toJson_scalar_eq_ok_iff {value : Except Fault Scalar} {stop : Nat} {json : Json} :
    (scalar value stop).toJson = .ok json ↔ ∃ s, value = .ok s ∧ json = scalarJson s := by
  rw [toJson, map_eq_ok_iff]
  exact exists_congr fun s ↦ and_congr_right fun _ ↦ eq_comm

/-- A list is a value exactly if it is closed, not too deep, and all its items are values. -/
theorem toJson_list_eq_ok_iff {start : Nat} {tooDeep : Bool} {items : List Located}
    {ending : Ending} {json : Json} :
    (list start tooDeep items ending).toJson = .ok json ↔
      tooDeep = false ∧ (∃ stop, ending = .closed stop) ∧
        ∃ values, List.Forall₂ (fun item value ↦ item.toJson = .ok value) items values ∧
        json = .array values := by
  cases tooDeep with
  | true => simp [toJson, bind, Except.bind]
  | false =>
    rw [toJson, toJsonItems_eq_mapM]
    simp only [Bool.false_eq_true, if_false, bind_eq_ok_iff, mapM_eq_ok_iff, atEnd_eq_ok_iff]
    constructor
    · rintro ⟨values, hvalues, _, ⟨hending, rfl⟩, h⟩
      exact ⟨trivial, hending, values, hvalues, (Except.ok.inj h).symm⟩
    · rintro ⟨-, hending, values, hvalues, rfl⟩
      exact ⟨values, hvalues, values, ⟨hending, rfl⟩, rfl⟩

/-- The plain form of an entry of an object. -/
def IsEntry (entry : Key × Located) (field : String × Json) : Prop :=
  entry.1.name = .ok field.1 ∧ entry.2.toJson = .ok field.2

theorem toJson_entry_eq_ok_iff {entry : Key × Located} {field : String × Json} :
    (do return (← entry.1.name, ← entry.2.toJson)) = .ok field ↔ IsEntry entry field := by
  simp only [bind_eq_ok_iff]
  constructor
  · rintro ⟨name, hname, value, hvalue, h⟩
    cases h
    exact ⟨hname, hvalue⟩
  · rintro ⟨hname, hvalue⟩
    exact ⟨field.1, hname, field.2, hvalue, rfl⟩

/-- So is an object, with the last value for each key. -/
theorem toJson_object_eq_ok_iff {start : Nat} {tooDeep : Bool} {entries : List (Key × Located)}
    {ending : Ending} {json : Json} :
    (object start tooDeep entries ending).toJson = .ok json ↔
      tooDeep = false ∧ (∃ stop, ending = .closed stop) ∧
        ∃ fields, List.Forall₂ IsEntry entries fields ∧
        json = .object (Table.ofEntries fields) := by
  cases tooDeep with
  | true => simp [toJson, bind, Except.bind]
  | false =>
    rw [toJson, toJsonEntries_eq_mapM]
    simp only [Bool.false_eq_true, if_false, bind_eq_ok_iff (x := List.mapM _ _),
      bind_eq_ok_iff (x := atEnd _ _), mapM_eq_ok_iff, toJson_entry_eq_ok_iff, atEnd_eq_ok_iff]
    constructor
    · rintro ⟨fields, hfields, _, ⟨hending, rfl⟩, h⟩
      exact ⟨trivial, hending, fields, hfields, (Except.ok.inj h).symm⟩
    · rintro ⟨-, hending, fields, hfields, rfl⟩
      exact ⟨fields, hfields, fields, ⟨hending, rfl⟩, rfl⟩

/-- A tree with a plain value does not break off. -/
theorem break?_eq_none_of_toJson {node : Located} {json : Json} (h : node.toJson = .ok json) :
    node.break? = none := by
  cases node with
  | scalar value stop => rfl
  | list start tooDeep items ending =>
    obtain ⟨-, ⟨stop, rfl⟩, -⟩ := toJson_list_eq_ok_iff.1 h
    rfl
  | object start tooDeep entries ending =>
    obtain ⟨-, ⟨stop, rfl⟩, -⟩ := toJson_object_eq_ok_iff.1 h
    rfl
  | broken cut => simp [toJson] at h

/-! ### Distinct keys -/

/-- The keys of the entries, as far as they can be read. -/
def keyNames {α : Type} (entries : List (Key × α)) : List String :=
  entries.filterMap fun entry ↦ entry.1.name.toOption

mutual

/-- No object in the tree repeats a key. -/
def distinctKeys : Located → Bool
  | list _ _ items _ => distinctKeysItems items
  | object _ _ entries _ => decide (keyNames entries).Nodup && distinctKeysEntries entries
  | _ => true

/-- `distinctKeys` for the items of a list. -/
def distinctKeysItems : List Located → Bool
  | [] => true
  | item :: items => distinctKeys item && distinctKeysItems items

/-- `distinctKeys` for the entries of an object. -/
def distinctKeysEntries : List (Key × Located) → Bool
  | [] => true
  | (_, node) :: entries => distinctKeys node && distinctKeysEntries entries

end

theorem distinctKeys_list_iff {start : Nat} {tooDeep : Bool} {items : List Located}
    {ending : Ending} :
    (list start tooDeep items ending).distinctKeys = true ↔
      ∀ item ∈ items, item.distinctKeys = true := by
  rw [distinctKeys]
  induction items with
  | nil => simp [distinctKeysItems]
  | cons item items ih => simp [distinctKeysItems, ih]

/-- Keys are distinct in an object exactly if they are distinct at its top and in each entry. -/
theorem distinctKeys_object_iff {start : Nat} {tooDeep : Bool} {entries : List (Key × Located)}
    {ending : Ending} :
    (object start tooDeep entries ending).distinctKeys = true ↔
      (keyNames entries).Nodup ∧ ∀ entry ∈ entries, entry.2.distinctKeys = true := by
  have hentries : distinctKeysEntries entries = true ↔
      ∀ entry ∈ entries, entry.2.distinctKeys = true := by
    induction entries with
    | nil => simp [distinctKeysEntries]
    | cons entry entries ih => simp [distinctKeysEntries, ih]
  rw [distinctKeys, Bool.and_eq_true, decide_eq_true_iff, hentries]

/-- The keys of a tree are those of its plain entries. -/
theorem keyNames_eq_names {entries : List (Key × Located)} {fields : List (String × Json)}
    (h : List.Forall₂ IsEntry entries fields) : keyNames entries = Table.names fields := by
  induction h with
  | nil => rfl
  | @cons entry field entries fields hentry _ ih =>
    rw [keyNames, List.filterMap_cons, hentry.1]
    exact congrArg (field.1 :: ·) ih

/-- The tree of an object has the entries that its fields are built from. -/
theorem exists_entries_of_toJson {node : Located} {fields : List (String × Json)}
    (h : node.toJson = .ok (.object fields)) :
    ∃ start stop entries raw, node = .object start false entries (.closed stop) ∧
      List.Forall₂ IsEntry entries raw ∧
      fields = Table.ofEntries raw := by
  cases node with
  | scalar value stop =>
    obtain ⟨s, -, hs⟩ := toJson_scalar_eq_ok_iff.1 h
    cases s <;> cases hs
  | list start tooDeep items ending =>
    obtain ⟨-, -, values, -, hvalues⟩ := toJson_list_eq_ok_iff.1 h
    cases hvalues
  | object start tooDeep entries ending =>
    obtain ⟨rfl, ⟨stop, rfl⟩, raw, hraw, hfields⟩ := toJson_object_eq_ok_iff.1 h
    exact ⟨start, stop, entries, raw, rfl, hraw, Json.object.inj hfields⟩
  | broken cut => cases h

/-- The tree of an object with distinct keys has its fields, in their order. -/
theorem entries_of_toJson {node : Located} {fields : List (String × Json)}
    (h : node.toJson = .ok (.object fields)) (hkeys : node.distinctKeys = true) :
    ∃ start stop entries, node = .object start false entries (.closed stop) ∧
      List.Forall₂ IsEntry entries fields ∧ (Table.names fields).Nodup ∧
        ∀ entry ∈ entries, entry.2.distinctKeys = true := by
  obtain ⟨start, stop, entries, raw, rfl, hraw, rfl⟩ := exists_entries_of_toJson h
  obtain ⟨hnodup, hentries⟩ := distinctKeys_object_iff.1 hkeys
  rw [keyNames_eq_names hraw] at hnodup
  rw [Table.ofEntries_eq_self hnodup]
  exact ⟨start, stop, entries, rfl, hraw, hnodup, hentries⟩

end AbiBindings.Json.Located
