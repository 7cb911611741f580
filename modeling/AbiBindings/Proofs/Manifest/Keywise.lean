import AbiBindings.Proofs.Manifest.ReadAlike
import Mathlib.Data.List.Pairwise

/-!
# Objects are read key by key

The entries of a plain object are read in the order in which they stand. The order does not matter
for the outcome: the slots of a shape put what they read in different places, so an object without
repeated keys is read as if each slot looked up its own key, one slot after the other
(`Shape.toOption_ofObject`).

`Slot.Apart` says that two slots do not interfere, and each shape of a manifest has slots that are
pairwise apart (`Shape.Keyed`).
-/

namespace AbiBindings

open Json

variable {σ α : Type}

/-! ### Slots that do not interfere -/

/-- Two slots for different keys, whose values go to different places. -/
structure Slot.Apart (slot other : Slot σ) : Prop where
  key : slot.key ≠ other.key
  comm : ∀ {child child' : Child} {fill fill' : σ → σ}, slot.read child = .ok fill →
    other.read child' = .ok fill' →
    ∀ parts, fill (fill' parts) = fill' (fill parts)
  given : ∀ {child : Child} {fill : σ → σ}, other.read child = .ok fill →
    ∀ parts, slot.given (fill parts) = slot.given parts
  given_other : ∀ {child : Child} {fill : σ → σ}, slot.read child = .ok fill →
    ∀ parts, other.given (fill parts) = other.given parts

theorem Slot.Apart.symm {slot other : Slot σ} (h : slot.Apart other) : other.Apart slot where
  key := h.key.symm
  comm hread hread' parts := (h.comm hread' hread parts).symm
  given := h.given_other
  given_other := h.given

instance : Std.Symm (Slot.Apart (σ := σ)) := ⟨fun _ _ h ↦ h.symm⟩

/-- Slots are apart if setting one value leaves the other alone. -/
theorem Slot.apart_of {β γ : Type} {key key' : String} {get : σ → Option β} {get' : σ → Option γ}
    {set : β → σ → σ} {set' : γ → σ → σ} {read : Child → Except ReadError β}
    {read' : Child → Except ReadError γ} (hkey : key ≠ key')
    (hcomm : ∀ b c parts, set b (set' c parts) = set' c (set b parts))
    (hget : ∀ c parts, get (set' c parts) = get parts)
    (hget' : ∀ b parts, get' (set b parts) = get' parts) :
    (Slot.of key get set read).Apart (.of key' get' set' read') where
  key := hkey
  comm hfill hfill' parts := by
    obtain ⟨b, -, rfl⟩ := map_eq_ok_iff.1 hfill
    obtain ⟨c, -, rfl⟩ := map_eq_ok_iff.1 hfill'
    exact hcomm b c parts
  given hfill parts := by
    obtain ⟨c, -, rfl⟩ := map_eq_ok_iff.1 hfill
    exact congrArg Option.isSome (hget c parts)
  given_other hfill parts := by
    obtain ⟨b, -, rfl⟩ := map_eq_ok_iff.1 hfill
    exact congrArg Option.isSome (hget' b parts)

/-- The slots of the shape are apart and empty at first. -/
structure Shape.Keyed (shape : Shape σ α) : Prop where
  apart : shape.slots.Pairwise Slot.Apart
  empty : ∀ slot ∈ shape.slots, slot.given shape.empty = false

/-! ### Looking up the keys -/

/-- A plain value with its readings. -/
def Child.ofJson (value : Json) : Child := .of .value (.ofJson value)

/-- Lets each slot look up its key and read what it finds. -/
def fillSlots (entries : List (String × Json)) : List (Slot σ) → σ → Option σ
  | [], parts => some parts
  | slot :: slots, parts =>
    match Table.find? slot.key entries with
    | some value =>
      (slot.read (.ofJson value)).toOption.bind fun fill ↦ fillSlots entries slots (fill parts)
    | none => fillSlots entries slots parts

theorem find?_cons_of_ne {key name : String} (h : name ≠ key) (value : α)
    (entries : List (String × α)) :
    Table.find? key ((name, value) :: entries) = Table.find? key entries := by
  rw [Table.find?, if_neg h]

/-- An entry that no slot asks for makes no difference. -/
theorem fillSlots_cons_of_unknown {key : String} (value : Json) (entries : List (String × Json))
    {slots : List (Slot σ)} (h : ∀ slot ∈ slots, slot.key ≠ key) (parts : σ) :
    fillSlots ((key, value) :: entries) slots parts = fillSlots entries slots parts := by
  induction slots generalizing parts with
  | nil => rfl
  | cons slot slots ih =>
    have hslot : key ≠ slot.key := (h slot List.mem_cons_self).symm
    have hrest : ∀ other ∈ slots, other.key ≠ key :=
      fun other hother ↦ h other (List.mem_cons_of_mem slot hother)
    rw [fillSlots, fillSlots, find?_cons_of_ne hslot]
    simp only [ih hrest]

/-- An entry that some slot asks for can be read before all others. -/
theorem fillSlots_cons_of_known {key : String} (value : Json) {entries : List (String × Json)}
    (hkey : Table.find? key entries = none) {slots : List (Slot σ)}
    (hapart : slots.Pairwise Slot.Apart) {slot : Slot σ} (hslot : slot ∈ slots)
    (heq : slot.key = key) (parts : σ) :
    fillSlots ((key, value) :: entries) slots parts =
      (slot.read (.ofJson value)).toOption.bind fun fill ↦
      fillSlots entries slots (fill parts) := by
  induction slots generalizing parts with
  | nil => cases hslot
  | cons first slots ih =>
    obtain ⟨hfirst, hslots⟩ := List.pairwise_cons.1 hapart
    rcases List.mem_cons.1 hslot with rfl | hslot
    · have hother : ∀ other ∈ slots, other.key ≠ key :=
        fun other hother ↦ heq ▸ (hfirst other hother).key.symm
      simp only [fillSlots, heq, hkey, Table.find?, if_true,
        fillSlots_cons_of_unknown value entries hother]
    · have hne : key ≠ first.key := heq ▸ (hfirst slot hslot).key.symm
      rw [fillSlots, find?_cons_of_ne hne]
      cases hfind : Table.find? first.key entries with
      | none => simp only [fillSlots, hfind, ih hslots hslot]
      | some found =>
        -- both values are read in either order, and go to different places
        simp only [fillSlots, hfind, ih hslots hslot]
        rw [Option.bind_comm]
        refine Option.bind_congr fun fill hfill ↦ Option.bind_congr fun fill' hfill' ↦ ?_
        rw [(hfirst slot hslot).comm (toOption_eq_some_iff.1 hfill') (toOption_eq_some_iff.1 hfill)]

/-- Slots whose keys are not among those of the object are left as they are. -/
theorem fillSlots_filter {keys : List String} {entries : List (String × Json)}
    (hkeys : ∀ key ∈ Table.names entries, key ∈ keys) (slots : List (Slot σ)) (parts : σ) :
    fillSlots entries slots parts = fillSlots entries (slots.filter (·.key ∈ keys)) parts := by
  induction slots generalizing parts with
  | nil => rfl
  | cons slot slots ih =>
    by_cases hmem : slot.key ∈ keys
    · rw [List.filter_cons_of_pos (by simpa using hmem)]
      simp only [fillSlots, ih]
    · have habsent : Table.find? slot.key entries = none :=
        Option.not_isSome_iff_eq_none.1 fun hsome ↦ hmem (hkeys _ (Table.find?_isSome_iff.1 hsome))
      rw [List.filter_cons_of_neg (by simpa using hmem), fillSlots, habsent, ih]

theorem break?_ofJson (value : Json) : (Located.ofJson value).break? = none := by
  cases value <;> rfl

/-- The entries of a plain object with their readings. -/
theorem readChildEntries_ofJsonEntries (entries : List (String × Json)) :
    readChildEntries .value (Located.ofJsonEntries entries) =
      entries.map fun entry ↦ (⟨.ok entry.1, 0⟩, .ofJson entry.2) := by
  rw [readChildEntries_eq_map, Located.ofJsonEntries_eq_map, List.map_map]
  rfl

/-- With distinct keys, reading entry by entry comes to the same as filling slot by slot. -/
theorem toOption_readEntries_eq_fillSlots {slots : List (Slot σ)}
    (hapart : slots.Pairwise Slot.Apart) {entries : List (String × Json)}
    (hnd : (Table.names entries).Nodup) {parts : σ}
    (hempty : ∀ slot ∈ slots, slot.key ∈ Table.names entries → slot.given parts = false) :
    (Shape.readEntries .value slots
      (readChildEntries .value (Located.ofJsonEntries entries)) parts).toOption =
      fillSlots entries slots parts := by
  rw [readChildEntries_ofJsonEntries]
  induction entries generalizing parts with
  | nil =>
    induction slots with
    | nil => rfl
    | cons slot slots ih => exact ih hapart.of_cons nofun
  | cons entry entries ih =>
    obtain ⟨key, value⟩ := entry
    rw [Table.names_cons, List.nodup_cons] at hnd
    have hkey : Table.find? key entries = none :=
      Option.not_isSome_iff_eq_none.1 fun hsome ↦ hnd.1 (Table.find?_isSome_iff.1 hsome)
    rw [List.map_cons]
    cases hfind : slots.find? (·.key = key) with
    | none =>
      have hunknown : ∀ slot ∈ slots, slot.key ≠ key := by simpa using hfind
      rw [readEntries_unknown .value 0 _ parts hfind (break?_ofJson value),
        fillSlots_cons_of_unknown value entries hunknown]
      exact ih hnd.2 fun slot hslot hmem ↦ hempty slot hslot (List.mem_cons_of_mem key hmem)
    | some slot =>
      have hslot : slot ∈ slots := List.mem_of_find?_eq_some hfind
      obtain rfl : slot.key = key := by simpa using List.find?_some hfind
      rw [toOption_readEntries_known .value 0 _ parts hfind, hempty slot hslot List.mem_cons_self,
        fillSlots_cons_of_known value hkey hapart hslot rfl]
      refine Option.bind_congr fun fill hfill ↦ ih hnd.2 fun other hother hmem ↦ ?_
      -- the key of the other slot comes later, so it is another slot
      have hne : other ≠ slot := fun heq ↦ hnd.1 (heq ▸ hmem)
      have hpair : other.Apart slot := hapart.forall hother hslot hne
      rw [hpair.given (toOption_eq_some_iff.1 hfill)]
      exact hempty other hother (List.mem_cons_of_mem slot.key hmem)

/-- A plain object without repeated keys is read key by key. -/
theorem Shape.toOption_ofObject {shape : Shape σ α} (hshape : shape.Keyed)
    {entries : List (String × Json)} (hnd : (Table.names entries).Nodup) :
    (shape.ofObject .value 0 false (readChildEntries .value (Located.ofJsonEntries entries))
      (.closed 0)).toOption =
      (fillSlots entries shape.slots shape.empty).bind fun parts ↦
        (shape.build (fun _ key ↦ .missing key) parts).toOption := by
  have hdepth : (checkDepth 0 false).toOption = some () := rfl
  rw [Shape.ofObject, toOption_bind, hdepth, Option.bind_some, toOption_bind,
    toOption_readEntries_eq_fillSlots hshape.apart hnd fun slot hslot _ ↦ hshape.empty slot hslot]
  refine Option.bind_congr fun parts _ ↦ ?_
  exact toOption_mapError _ _

/-! ### Outcomes under a condition -/

/-- Nothing comes out under the condition `P`, and otherwise something that satisfies `W`. -/
structure Follows (P : Prop) (outcome : Option α) (W : α → Prop) : Prop where
  fails : P → outcome = none
  gives : ¬ P → ∃ a, outcome = some a ∧ W a

namespace Follows

variable {β : Type} {P Q : Prop} {outcome : Option α} {W V : α → Prop}

theorem pure {a : α} (h : W a) : Follows False (some a) W :=
  ⟨False.elim, fun _ ↦ ⟨a, rfl, h⟩⟩

theorem imp (h : Follows P outcome W) (hW : ∀ a, W a → V a) : Follows P outcome V where
  fails := h.fails
  gives hP := by
    obtain ⟨a, ha, hWa⟩ := h.gives hP
    exact ⟨a, ha, hW a hWa⟩

theorem congr (h : Follows P outcome W) (hPQ : P ↔ Q) : Follows Q outcome W :=
  ⟨fun hQ ↦ h.fails (hPQ.2 hQ), fun hQ ↦ h.gives fun hP ↦ hQ (hPQ.1 hP)⟩

/-- Of two steps either may fail. -/
theorem bind {f : α → Option β} {U : β → Prop} (h : Follows P outcome W)
    (hf : ∀ a, W a → Follows Q (f a) U) : Follows (P ∨ Q) (outcome.bind f) U := by
  by_cases hP : P
  · refine ⟨fun _ ↦ ?_, fun hnot ↦ absurd (Or.inl hP) hnot⟩
    rw [h.fails hP, Option.bind_none]
  · obtain ⟨a, rfl, ha⟩ := h.gives hP
    exact (hf a ha).congr (or_iff_right hP).symm

theorem map {f : α → β} {U : β → Prop} (h : Follows P outcome W) (hf : ∀ a, W a → U (f a)) :
    Follows P (outcome.map f) U := by
  rw [Option.map_eq_bind]
  exact (h.bind fun a ha ↦ .pure (hf a ha)).congr (or_iff_left id)

end Follows

/-- The items of a plain list are read if each of them is. -/
theorem follows_readItems {read : Located → Except ReadError α} {P : Json → Prop}
    {R : α → Json → Prop} {items : List Json}
    (h : ∀ item ∈ items, Follows (P item) (read (.ofJson item)).toOption (R · item)) :
    Follows (∃ item ∈ items, P item) (readItems .value read (Located.ofJsonItems items)).toOption
      (List.Forall₂ R · items) := by
  rw [Located.ofJsonItems_eq_map]
  induction items with
  | nil => exact (Follows.pure .nil).congr (by simp)
  | cons item items ih =>
    have hitem := h item List.mem_cons_self
    have hitems := ih fun other hother ↦ h other (List.mem_cons_of_mem item hother)
    rw [List.map_cons, readItems, toOption_bind, toOption_mapError]
    simp only [toOption_bind]
    refine (hitem.bind fun a ha ↦ hitems.bind fun as has ↦
      Follows.pure (W := (List.Forall₂ R · (item :: items))) (.cons ha has)).congr ?_
    rw [List.exists_mem_cons_iff, or_false]

/-! ### One key after the other -/

/-- What stands under a key, read in some way, if anything does. -/
def lookUp {β : Type} (entries : List (String × Json)) (key : String)
    (read : Child → Except ReadError β) : Option (Option β) :=
  match Table.find? key entries with
  | some value => (read (.ofJson value)).toOption.map some
  | none => some none

section LookUp

variable {β : Type} {entries : List (String × Json)} {key : String}
    {read : Child → Except ReadError β}
  {P : Json → Prop} {R : β → Json → Prop}

/-- A value is looked up as intended if it is read so wherever it is there. -/
theorem follows_lookUp
    (h : ∀ value, Table.find? key entries = some value →
      Follows (P value) (read (.ofJson value)).toOption (R · value)) :
    Follows (∃ value, Table.find? key entries = some value ∧ P value) (lookUp entries key read)
      (Option.Rel R · (Table.find? key entries)) := by
  rw [lookUp]
  cases hfind : Table.find? key entries with
  | none => exact (Follows.pure .none).congr (by simp)
  | some value => exact ((h value hfind).map fun _ hb ↦ .some hb).congr (by simp)

/-- A slot looks up its key before the slots that follow. -/
theorem Follows.slot {get : σ → Option β} {set : β → σ → σ} {slots : List (Slot σ)}
    {parts : σ} {P Q : Prop} {W : Option β → Prop} {V : σ → Prop}
    (hlook : Follows P (lookUp entries key read) W) (put : Option β → σ)
    (hput : ∀ found, put found = found.elim parts (set · parts))
    (hslots : ∀ found, W found → Follows Q (fillSlots entries slots (put found)) V) :
    Follows (P ∨ Q) (fillSlots entries (.of key get set read :: slots) parts) V := by
  have hfill : fillSlots entries (.of key get set read :: slots) parts =
      (lookUp entries key read).bind fun found ↦ fillSlots entries slots (put found) := by
    simp only [fillSlots, Slot.of, lookUp, toOption_map, hput]
    cases Table.find? key entries with
    | none => rfl
    | some value =>
      show Option.bind (Option.map set _) _ = Option.bind (Option.map some _) _
      rw [Option.bind_map, Option.bind_map]
      rfl
  rw [hfill]
  exact hlook.bind hslots

end LookUp

/-! ### The shapes of a manifest -/

theorem RefParts.keyed : (RefParts.shape .value).Keyed where
  apart := by
    simp only [RefParts.shape, List.pairwise_cons, List.forall_mem_cons, List.not_mem_nil,
      false_imp_iff, implies_true, List.Pairwise.nil, and_true]
    and_intros <;> exact Slot.apart_of (by decide) (fun _ _ _ ↦ rfl) (fun _ _ ↦ rfl) fun _ _ ↦ rfl
  empty := by simp [RefParts.shape, Slot.ofOption, Slot.of]

theorem MemberParts.keyed (wanted : Wanted) : (MemberParts.shape .value wanted).Keyed where
  apart := by
    simp only [MemberParts.shape, List.pairwise_cons, List.forall_mem_cons, List.not_mem_nil,
      false_imp_iff, implies_true, List.Pairwise.nil, and_true]
    and_intros <;> exact Slot.apart_of (by decide) (fun _ _ _ ↦ rfl) (fun _ _ ↦ rfl) fun _ _ ↦ rfl
  empty := by simp [MemberParts.shape, Slot.of]

theorem CaseParts.keyed : (CaseParts.shape .value).Keyed where
  apart := by
    simp only [CaseParts.shape, List.pairwise_cons, List.forall_mem_cons, List.not_mem_nil,
      false_imp_iff, implies_true, List.Pairwise.nil, and_true]
    and_intros <;> exact Slot.apart_of (by decide) (fun _ _ _ ↦ rfl) (fun _ _ ↦ rfl) fun _ _ ↦ rfl
  empty := by simp [CaseParts.shape, Slot.ofOption, Slot.of]

theorem DefParts.keyed : (DefParts.shape .value).Keyed where
  apart := by
    simp only [DefParts.shape, List.pairwise_cons, List.forall_mem_cons, List.not_mem_nil,
      false_imp_iff, implies_true, List.Pairwise.nil, and_true]
    and_intros <;> exact Slot.apart_of (by decide) (fun _ _ _ ↦ rfl) (fun _ _ ↦ rfl) fun _ _ ↦ rfl
  empty := by simp [DefParts.shape, Slot.ofOption, Slot.of]

theorem MethodErrorParts.keyed : (MethodErrorParts.shape .value).Keyed where
  apart := by
    simp only [MethodErrorParts.shape, List.pairwise_cons, List.forall_mem_cons, List.not_mem_nil,
      false_imp_iff, implies_true, List.Pairwise.nil, and_true]
    exact Slot.apart_of (by decide) (fun _ _ _ ↦ rfl) (fun _ _ ↦ rfl) fun _ _ ↦ rfl
  empty := by simp [MethodErrorParts.shape, Slot.ofOption, Slot.of]

theorem MethodParts.keyed : (MethodParts.shape .value).Keyed where
  apart := by
    simp only [MethodParts.shape, List.pairwise_cons, List.forall_mem_cons, List.not_mem_nil,
      false_imp_iff, implies_true, List.Pairwise.nil, and_true]
    and_intros <;> exact Slot.apart_of (by decide) (fun _ _ _ ↦ rfl) (fun _ _ ↦ rfl) fun _ _ ↦ rfl
  empty := by simp [MethodParts.shape, Slot.ofOption, Slot.of]

theorem EventParts.keyed : (EventParts.shape .value).Keyed where
  apart := by
    simp only [EventParts.shape, List.pairwise_cons, List.forall_mem_cons, List.not_mem_nil,
      false_imp_iff, implies_true, List.Pairwise.nil, and_true]
    exact Slot.apart_of (by decide) (fun _ _ _ ↦ rfl) (fun _ _ ↦ rfl) fun _ _ ↦ rfl
  empty := by simp [EventParts.shape, Slot.ofOption, Slot.of]

theorem DocumentParts.keyed {source : Source} : (DocumentParts.shape source).Keyed where
  apart := by
    simp only [DocumentParts.shape, List.pairwise_cons, List.forall_mem_cons, List.not_mem_nil,
      false_imp_iff, implies_true, List.Pairwise.nil, and_true]
    and_intros <;> exact Slot.apart_of (by decide) (fun _ _ _ ↦ rfl) (fun _ _ ↦ rfl) fun _ _ ↦ rfl
  empty := by simp [DocumentParts.shape, Slot.of]

end AbiBindings
