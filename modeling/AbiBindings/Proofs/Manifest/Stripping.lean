import AbiBindings.Proofs.Manifest.Version
import AbiBindings.Proofs.Manifest.WrittenForm
import Mathlib.Logic.Relation

/-!
# Values without replication fields

Replication fields are removed at every depth, and nothing else is. Both halves are said by paths: a
key of a replication field is nowhere in what is left (`not_hasKey_strip`), and a path that goes by
no such key leads to what is left of the value that it led to (`follow?_strip`).

Two values differ in replication fields only if each can be made into the other by adding and
removing such entries, anywhere and in any number (`DifferInFields`). That is so exactly if the same
is left of both (`differInFields_iff`): one entry more or less is not seen
(`strip_eq_of_dropsField`), and dropping one after the other ends in what is left (`reaches_strip`).
A validator is only ever shown what is left, and what it accepts is read without the rest, so such
values give the same manifest or fail in the same way, whatever the validator.
-/

namespace AbiBindings

open Replication

namespace Json

/-! ### Paths into a value -/

/-- A step from a value to one that it holds. -/
inductive PathStep where
  | key (name : String)
  | index (position : Nat)
deriving DecidableEq

/-- The value that a step leads to. -/
def step? : PathStep → Json → Option Json
  | .key name, value => value.get? name
  | .index position, .array items => items[position]?
  | .index _, _ => none

/-- The value that a path leads to. -/
def follow? : List PathStep → Json → Option Json
  | [], value => some value
  | step :: path, value => (value.step? step).bind (follow? path)

/-- Some object in the value has the key. -/
inductive HasKey (key : String) : Json → Prop
  | here {entries : List (String × Json)} (hkey : key ∈ Table.names entries) :
    HasKey key (.object entries)
  | item {items : List Json} {item : Json} (hitem : item ∈ items) (h : item.HasKey key) :
    HasKey key (.array items)
  | entry {entries : List (String × Json)} {entry : String × Json} (hentry : entry ∈ entries)
    (h : entry.2.HasKey key) : HasKey key (.object entries)

/-- The value holds no others. -/
def IsScalar : Json → Prop
  | .array _ | .object _ => False
  | _ => True

end Json

namespace Replication

open Json

/-- The step goes by no replication field. -/
def Keeps : PathStep → Prop
  | .key name => isField name = false
  | .index _ => True

/-- The steps that go by a replication field. -/
def fieldSteps : List PathStep := [.key "crdt_type", .key "inner_type", .key "state_root"]

theorem keeps_of_not_mem {step : PathStep} (h : step ∉ fieldSteps) : Keeps step := by
  cases step with
  | key name =>
    rw [Keeps, isField, Bool.eq_false_iff, Ne, List.contains_iff_mem]
    intro hname
    exact h (List.mem_map_of_mem (f := PathStep.key) hname)
  | index position => trivial

/-- One value is what is left of another, as far as can be seen without going into it: a scalar is
the same, a list has as many items, and an object has those keys that name no replication field, in
their order. -/
inductive LeftOf : Json → Json → Prop
  | scalar {value : Json} (h : value.IsScalar) : LeftOf value value
  | array {items left : List Json} (h : left.length = items.length) :
    LeftOf (.array items) (.array left)
  | object {entries left : List (String × Json)}
    (h : Table.names left = (Table.names entries).filter (!isField ·)) :
    LeftOf (.object entries) (.object left)

/-! ### What is left -/

/-- Entries are dropped first, then the others are stripped. -/
theorem stripEntries_eq_map (entries : List (String × Json)) :
    stripEntries entries = (entries.filter (!isField ·.1)).map fun entry ↦
    (entry.1, strip entry.2) := by
  induction entries with
  | nil => rfl
  | cons entry entries ih =>
    obtain ⟨key, value⟩ := entry
    rw [stripEntries, ih]
    by_cases hkey : isField key = true
    · rw [if_pos hkey, List.filter_cons_of_neg (by simp [hkey])]
    · rw [if_neg hkey, List.filter_cons_of_pos (by simpa using hkey), List.map_cons]

theorem strip_array (items : List Json) : strip (.array items) = .array (items.map strip) := by
  rw [strip, Manifest.stripItems_eq_map]

theorem strip_object (entries : List (String × Json)) :
    strip (.object entries) =
      .object ((entries.filter (!isField ·.1)).map fun entry ↦ (entry.1, strip entry.2)) := by
  rw [strip, stripEntries_eq_map]

/-- Only entries are dropped, and only those for replication fields. -/
theorem leftOf_strip (value : Json) : LeftOf value (strip value) := by
  cases value with
  | array items =>
    rw [strip_array]
    exact .array (List.length_map strip)
  | object entries =>
    rw [strip_object]
    refine .object ?_
    rw [Table.names, Table.names, List.map_map, List.filter_map]
    rfl
  | _ => exact .scalar trivial

/-- No replication field is left at any depth. -/
theorem not_hasKey_strip {key : String} (hkey : isField key = true) (value : Json) :
    ¬ (strip value).HasKey key := by
  induction value with
  | array items ih =>
    rw [strip_array]
    intro h
    cases h with
    | item hitem h =>
      obtain ⟨original, horiginal, rfl⟩ := List.mem_map.1 hitem
      exact ih original horiginal h
  | object entries ih =>
    rw [strip_object]
    intro h
    cases h with
    | here hmem =>
      rw [Table.names, List.map_map] at hmem
      obtain ⟨entry, hentry, rfl⟩ := List.mem_map.1 hmem
      have hother : isField entry.1 = false := by simpa using (List.mem_filter.1 hentry).2
      exact absurd hkey (Bool.eq_false_iff.1 hother)
    | entry hentry h =>
      obtain ⟨original, horiginal, rfl⟩ := List.mem_map.1 hentry
      exact ih original (List.mem_filter.1 horiginal).1 h
  | _ =>
    intro h
    cases h

/-- A step that does not lead into such a field leads to what is left of where it led. -/
theorem step?_strip {step : PathStep} (h : Keeps step) (value : Json) :
    (strip value).step? step = (value.step? step).map strip := by
  cases step with
  | key name => exact Manifest.get?_strip h value
  | index position =>
    cases value with
    | array items =>
      rw [strip_array]
      exact List.getElem?_map
    | _ => rfl

/-- So does a path, by induction on its steps. -/
theorem follow?_strip {path : List PathStep} (h : ∀ step ∈ path, Keeps step) (value : Json) :
    (strip value).follow? path = (value.follow? path).map strip := by
  induction path generalizing value with
  | nil => rfl
  | cons step path ih =>
    obtain ⟨hstep, hpath⟩ := List.forall_mem_cons.1 h
    rw [follow?, follow?, step?_strip hstep, Option.bind_map, Option.map_bind]
    exact congrArg _ (funext fun child ↦ ih hpath child)

/-! ### Values that differ in replication fields -/

/-- One entry that is a replication field, at any depth, is dropped. -/
inductive DropsField : Json → Json → Prop
  | here (before after : List (String × Json)) {key : String} (hkey : isField key = true)
    (value : Json) :
    DropsField (.object (before ++ (key, value) :: after)) (.object (before ++ after))
  | item (before after : List Json) {item other : Json} (h : DropsField item other) :
    DropsField (.array (before ++ item :: after)) (.array (before ++ other :: after))
  | entry (before after : List (String × Json)) (key : String) {value other : Json}
    (h : DropsField value other) :
    DropsField (.object (before ++ (key, value) :: after))
    (.object (before ++ (key, other) :: after))

/-- The values differ in replication fields only: entries of this kind, dropped and put in, make one
into the other. -/
def DifferInFields : Json → Json → Prop := Relation.EqvGen DropsField

/-- Dropping one such field does not matter to the result. -/
theorem strip_eq_of_dropsField {value other : Json} (h : DropsField value other) :
    strip value = strip other := by
  induction h with
  | here before after hkey value =>
    rw [strip_object, strip_object, List.filter_append, List.filter_append,
      List.filter_cons_of_neg (by simp [hkey])]
  | item before after _ ih =>
    rw [strip_array, strip_array, List.map_append, List.map_append, List.map_cons,
      List.map_cons, ih]
  | entry before after key _ ih =>
    rw [strip_object, strip_object, List.filter_append, List.filter_append]
    by_cases hkey : isField key = true
    · rw [List.filter_cons_of_neg (by simp [hkey]), List.filter_cons_of_neg (by simp [hkey])]
    · rw [List.filter_cons_of_pos (by simpa using hkey),
        List.filter_cons_of_pos (by simpa using hkey)]
      simp only [List.map_append, List.map_cons, ih]

/-- Of a list with a front that is done already, the items are stripped one after the other. -/
theorem reaches_items (before : List Json) {items : List Json}
    (h : ∀ item ∈ items, Relation.ReflTransGen DropsField item (strip item)) :
    Relation.ReflTransGen DropsField (.array (before ++ items))
      (.array (before ++ items.map strip)) := by
  induction items generalizing before with
  | nil => exact .refl
  | cons item items ih =>
    obtain ⟨hitem, hitems⟩ := List.forall_mem_cons.1 h
    have hfirst : Relation.ReflTransGen DropsField (.array (before ++ item :: items))
        (.array (before ++ strip item :: items)) :=
      Relation.ReflTransGen.lift (fun value ↦ Json.array (before ++ value :: items))
        (fun _ _ hdrop ↦ DropsField.item before items hdrop) _ _ hitem
    have hrest := ih (before ++ [strip item]) hitems
    rw [List.append_assoc, List.append_assoc, List.singleton_append, List.singleton_append] at hrest
    exact hfirst.trans hrest

/-- Of an object with a front that is done already, the entries are dropped or stripped one after
the other. -/
theorem reaches_entries (before : List (String × Json)) {entries : List (String × Json)}
    (h : ∀ entry ∈ entries, Relation.ReflTransGen DropsField entry.2 (strip entry.2)) :
    Relation.ReflTransGen DropsField (.object (before ++ entries))
      (.object (before ++ stripEntries entries)) := by
  induction entries generalizing before with
  | nil => exact .refl
  | cons entry entries ih =>
    obtain ⟨key, value⟩ := entry
    obtain ⟨hvalue, hentries⟩ := List.forall_mem_cons.1 h
    rw [stripEntries]
    split
    · rename_i hkey
      exact .head (.here before entries hkey value) (ih before hentries)
    · have hfirst : Relation.ReflTransGen DropsField (.object (before ++ (key, value) :: entries))
          (.object (before ++ (key, strip value) :: entries)) :=
        Relation.ReflTransGen.lift (fun other ↦ Json.object (before ++ (key, other) :: entries))
          (fun _ _ hdrop ↦ DropsField.entry before entries key hdrop) _ _ hvalue
      have hrest := ih (before ++ [(key, strip value)]) hentries
      rw [List.append_assoc, List.append_assoc, List.singleton_append,
        List.singleton_append] at hrest
      exact hfirst.trans hrest

/-- Dropping one replication field after the other ends in what is left. -/
theorem reaches_strip (value : Json) : Relation.ReflTransGen DropsField value (strip value) := by
  induction value with
  | array items ih =>
    rw [strip_array]
    exact reaches_items [] ih
  | object entries ih =>
    rw [strip]
    exact reaches_entries [] ih
  | _ => exact .refl

theorem differInFields_strip (value : Json) : DifferInFields value (strip value) :=
  Relation.EqvGen.reflTransGen_le_eqvGen _ _ _ (reaches_strip value)

/-- The values differ in replication fields only exactly if the same is left of both. -/
theorem differInFields_iff {value other : Json} :
    DifferInFields value other ↔ strip value = strip other := by
  constructor
  · intro h
    have heqv : Equivalence fun value other ↦ strip value = strip other :=
      ⟨fun _ ↦ rfl, fun h ↦ h.symm, fun h hmore ↦ h.trans hmore⟩
    exact heqv.eqvGen_iff.1 (Relation.EqvGen.mono (fun _ _ ↦ strip_eq_of_dropsField) _ _ h)
  · intro h
    have hvalue := differInFields_strip value
    rw [h] at hvalue
    exact .trans _ _ _ hvalue (.symm _ _ (differInFields_strip other))

/-- Stripping twice is stripping once. -/
theorem strip_strip (value : Json) : strip (strip value) = strip value :=
  (differInFields_iff.1 (differInFields_strip value)).symm

end Replication

namespace Manifest

open Json

/-- What is left is all that the outcome depends on. -/
theorem ofJsonWith_eq_of_strip {value other : Json} (h : strip value = strip other)
    (validator : Validator) : ofJsonWith validator value = ofJsonWith validator other := by
  rw [ofJsonWith, ofJsonWith, checkForm, checkForm, h]

/-- Of any value, exactly the entries that are replication fields are removed. No object in what is
left has such a key; a path that goes by no such key leads to something in what is left exactly if
it does so in the value, to the same scalar, to a list of as many items or to an object with the
other keys in their order; and there is nothing more to remove. The values of which the same is left
are those that differ in replication fields only, and under every validator these have the same
outcome. -/
theorem strip_exact (value : Json) :
    (∀ key ∈ ["crdt_type", "inner_type", "state_root"], ¬ (strip value).HasKey key) ∧
      (∀ path : List PathStep, (∀ step ∈ path, step ∉ fieldSteps) →
        Option.Rel LeftOf (value.follow? path) ((strip value).follow? path)) ∧
      strip (strip value) = strip value ∧
      ∀ other, (DifferInFields value other ↔ strip value = strip other) ∧
        (DifferInFields value other →
          ∀ validator, ofJsonWith validator value = ofJsonWith validator other) := by
  refine ⟨fun key hkey ↦ not_hasKey_strip (List.contains_iff_mem.2 hkey) value,
    fun path hpath ↦ ?_, strip_strip value, fun other ↦ ⟨differInFields_iff, fun h validator ↦ ?_⟩⟩
  · rw [follow?_strip fun step hstep ↦ keeps_of_not_mem (hpath step hstep)]
    cases value.follow? path with
    | none => exact .none
    | some found => exact .some (leftOf_strip found)
  · exact ofJsonWith_eq_of_strip (differInFields_iff.1 h) validator

/-- A value with the given entries at its root, beside a type that has the given entries in its
definition and in the type of its field. -/
def counter (root definition type : List (String × Json)) : Json :=
  .object (root ++ [("schema_version", .string "wasm-abi/1"),
    ("types", .object [("Counter", .object (("kind", .string "record") :: definition ++
      [("fields", .array [.object [("name", .string "n"),
        ("type", .object (("kind", .string "u64") :: type))]])]))]),
    ("methods", .array []), ("events", .array [])])

/-- The value with replication fields inside of replication fields, in a list and at the root. -/
def replicated : Json :=
  counter [("state_root", .object [("crdt_type", .null), ("schema_version", .string "wasm-abi/0")])]
    [("crdt_type", .string "counter")]
    [("inner_type", .array [.object [("state_root", .bool true)]])]

theorem strip_exact_replicated :
    "state_root" ∈ ["crdt_type", "inner_type", "state_root"] ∧ replicated.HasKey "state_root" ∧
      ¬ (strip replicated).HasKey "state_root" ∧
      (∀ step ∈ [PathStep.key "types", .key "Counter", .key "fields", .index 0, .key "type"],
        step ∉ fieldSteps) ∧
      (strip replicated).follow? [.key "types", .key "Counter", .key "fields", .index 0,
        .key "type"] =
        some (.object [("kind", .string "u64")]) ∧
      LeftOf (.object [("kind", .string "u64"),
        ("inner_type", .array [.object [("state_root", .bool true)]])])
        (.object [("kind", .string "u64")]) ∧
      DifferInFields replicated (counter [("inner_type", .null)] [] [("crdt_type", .null)]) ∧
      ∃ manifest, ofJsonWith Schema.violations replicated = .ok manifest ∧
        ofJsonWith Schema.violations (counter [("inner_type", .null)] [] [("crdt_type", .null)]) =
        .ok manifest := by
  have hfield : "state_root" ∈ ["crdt_type", "inner_type", "state_root"] := by decide
  have hkey : replicated.HasKey "state_root" := .here List.mem_cons_self
  have hpath :
      ∀ step ∈ [PathStep.key "types", .key "Counter", .key "fields", .index 0, .key "type"],
      step ∉ fieldSteps := by decide
  obtain ⟨hnone, hfollow, -, hother⟩ := strip_exact replicated
  obtain ⟨hdiffer, hsame⟩ := hother (counter [("inner_type", .null)] [] [("crdt_type", .null)])
  cases hfollow _ hpath with
  | some hleft =>
    refine ⟨hfield, hkey, hnone _ hfield, hpath, rfl, hleft, hdiffer.2 rfl, ?_⟩
    rw [← hsame (hdiffer.2 rfl)]
    exact ⟨_, rfl, rfl⟩

end Manifest

end AbiBindings
