import AbiBindings.Manifest.Reading
import AbiBindings.Manifest.Replication
import AbiBindings.Proofs.Json.Tree

/-!
# Trees that are read alike

Two trees are `Alike` if they hold the same, apart from offsets and from replication fields that
only the first has. Such trees are read alike: whatever the sources are, both readings succeed with
the same part or both fail. Compared are the readings as options, since the errors tell places.

A shape asks for none of the replication fields, so they are passed over where the first tree has
them (`toOption_readEntries`). Type references and the fields of records contain each other, and are
compared by induction on the tree (`Alike.typed`); all other parts are put together from them, slot
by slot.

The type table has free keys. It is read alike only if no entry is left out of it
(`toOption_readTypeTable`).
-/

namespace AbiBindings

open Json

/-! ### Alike trees -/

/-- The entries of two objects. The first may have replication fields that the second lacks, with
values that satisfy `P`; the values under a common key satisfy `R`. -/
inductive EntriesAlike {α β : Type} (R : String → α → β → Prop) (P : α → Prop) :
    List (Key × α) → List (Key × β) → Prop
  | nil : EntriesAlike R P [] []
  | keep {name : String} {stop stop' : Nat} {a : α} {b : β} {as : List (Key × α)}
    {bs : List (Key × β)} (h : R name a b) (rest : EntriesAlike R P as bs) :
    EntriesAlike R P ((⟨.ok name, stop⟩, a) :: as) ((⟨.ok name, stop'⟩, b) :: bs)
  | drop {name : String} {stop : Nat} {a : α} {as : List (Key × α)} {bs : List (Key × β)}
    (hname : Replication.isField name = true) (h : P a) (rest : EntriesAlike R P as bs) :
    EntriesAlike R P ((⟨.ok name, stop⟩, a) :: as) bs

/-- Entries stay alike when their values are mapped. -/
theorem EntriesAlike.map {α β α' β' : Type} {R : String → α → β → Prop} {P : α → Prop}
    {R' : String → α' → β' → Prop} {P' : α' → Prop} {f : α → α'} {g : β → β'} {as : List (Key × α)}
    {bs : List (Key × β)} (h : EntriesAlike R P as bs)
    (hR : ∀ name stop a b, (⟨.ok name, stop⟩, a) ∈ as → R name a b → R' name (f a) (g b))
    (hP : ∀ a, P a → P' (f a)) :
    EntriesAlike R' P' (as.map fun entry ↦ (entry.1, f entry.2))
      (bs.map fun entry ↦ (entry.1, g entry.2)) := by
  induction h with
  | nil => exact .nil
  | keep hab _ ih =>
    exact .keep (hR _ _ _ _ List.mem_cons_self hab)
      (ih fun name stop a b hentry ↦ hR name stop a b (List.mem_cons_of_mem _ hentry))
  | drop hname ha _ ih =>
    exact .drop hname (hP _ ha)
      (ih fun name stop a b hentry ↦ hR name stop a b (List.mem_cons_of_mem _ hentry))

/-- Two trees that hold the same, apart from offsets and from replication fields of the first. -/
inductive Alike : Located → Located → Prop
  | scalar {value : Scalar} {stop stop' : Nat} :
    Alike (.scalar (.ok value) stop) (.scalar (.ok value) stop')
  | list {start start' stop stop' : Nat} {items items' : List Located}
    (h : List.Forall₂ Alike items items') :
    Alike (.list start false items (.closed stop)) (.list start' false items' (.closed stop'))
  | object {start start' stop stop' : Nat} {entries entries' : List (Key × Located)}
    (h : EntriesAlike (fun _ ↦ Alike) (·.break? = none) entries entries') :
    Alike (.object start false entries (.closed stop))
    (.object start' false entries' (.closed stop'))

namespace Alike

variable {node node' : Located}

theorem break?_left (h : Alike node node') : node.break? = none := by
  cases h <;> rfl

theorem break?_right (h : Alike node node') : node'.break? = none := by
  cases h <;> rfl

theorem isNull_eq (h : Alike node node') : isNull node = isNull node' := by
  cases h with
  | scalar => rename_i value _ _; cases value <;> rfl
  | list => rfl
  | object => rfl

/-- Alike nodes are read as the same text, if as any. -/
theorem toOption_readText (h : Alike node node') (source source' : Source) :
    (readText source node).toOption = (readText source' node').toOption := by
  cases h with
  | scalar => rename_i value _ _; cases value <;> rfl
  | list => rfl
  | object => rfl

theorem toOption_readFlag (h : Alike node node') (source source' : Source) :
    (readFlag source node).toOption = (readFlag source' node').toOption := by
  cases h with
  | scalar => rename_i value _ _; cases value <;> rfl
  | list => rfl
  | object => rfl

theorem toOption_readCount (h : Alike node node') (source source' : Source) :
    (readCount source node).toOption = (readCount source' node').toOption := by
  cases h with
  | scalar =>
    rename_i value _ _
    cases value with
    | number n =>
      cases n with
      | whole k =>
        rw [readCount, readCount]
        split <;> rfl
      | double x => rfl
    | _ => rfl
  | list => rfl
  | object => rfl

end Alike

/-! ### Lists -/

variable {α σ : Type} (source source' : Source)

theorem toOption_readItems {read read' : Located → Except ReadError α} {items items' : List Located}
    (h : List.Forall₂ (fun item item' ↦ (read item).toOption = (read' item').toOption)
      items items') :
    (readItems source read items).toOption = (readItems source' read' items').toOption := by
  induction h with
  | nil => rfl
  | cons hitem _ ih => simp only [readItems, toOption_bind, toOption_mapError, hitem, ih]

/-- Two readings that give the same on alike trees. -/
def ReadAlike (read read' : Located → Except ReadError α) : Prop :=
  ∀ ⦃node node'⦄, Alike node node' → (read node).toOption = (read' node').toOption

/-- Lists are read alike if their items are. -/
theorem ReadAlike.readList {read read' : Located → Except ReadError α} (h : ReadAlike read read') :
    ReadAlike (readList source read) (readList source' read') := by
  intro node node' hnode
  cases hnode with
  | scalar => rfl
  | list hitems =>
    simp only [AbiBindings.readList, toOption_bind,
      toOption_readItems source source' (hitems.imp fun _ _ hitem ↦ h hitem)]
    rfl
  | object => rfl

/-! ### Slots and shapes -/

/-- Two values with alike trees and the same readings. -/
structure ChildAlike (child child' : Child) : Prop where
  node : Alike child.node child'.node
  typeRef : (child.typeRef ()).toOption = (child'.typeRef ()).toOption
  fields : (child.fields ()).toOption = (child'.fields ()).toOption

/-- Two slots for one key, which is not that of a replication field. They put the same among the
values read so far, for values that are related by `R`. -/
structure SlotAlike (R : String → Child → Child → Prop) (slot slot' : Slot σ) : Prop where
  key : slot.key = slot'.key
  kept : Replication.isField slot.key = false
  given : slot.given = slot'.given
  read : ∀ child child', R slot.key child child' →
    (slot.read child).toOption = (slot'.read child').toOption

/-- Two shapes that differ at most in how their slots are read. -/
structure ShapeAlike (R : String → Child → Child → Prop) (shape shape' : Shape σ α) : Prop where
  wanted : shape.wanted = shape'.wanted
  slots : List.Forall₂ (SlotAlike R) shape.slots shape'.slots
  empty : shape.empty = shape'.empty
  build : shape.build = shape'.build

theorem SlotAlike.of {β : Type} {R : String → Child → Child → Prop} {key : String}
    {get : σ → Option β} {set : β → σ → σ} {read read' : Child → Except ReadError β}
    (hkey : Replication.isField key = false)
    (hread : ∀ child child', R key child child' → (read child).toOption = (read' child').toOption) :
    SlotAlike R (.of key get set read) (.of key get set read') where
  key := rfl
  kept := hkey
  given := rfl
  read child child' h := by
    simp only [Slot.of, toOption_map, hread child child' h]

/-- Null stands for nothing in both readings. -/
theorem SlotAlike.ofOption {β : Type} {key : String} {get : σ → Option (Option β)}
    {set : Option β → σ → σ} {read read' : Child → Except ReadError β}
    (hkey : Replication.isField key = false)
    (hread : ∀ child child', ChildAlike child child' →
      (read child).toOption = (read' child').toOption) :
    SlotAlike (fun _ ↦ ChildAlike) (.ofOption key get set read) (.ofOption key get set read') := by
  refine .of hkey fun child child' h ↦ ?_
  rw [h.node.isNull_eq]
  split
  · rfl
  · simp only [toOption_map, hread child child' h]

/-- A key is looked for with the same result among alike slots. -/
theorem find?_slots {R : String → Child → Child → Prop} {slots slots' : List (Slot σ)}
    (h : List.Forall₂ (SlotAlike R) slots slots') (name : String) :
    (slots.find? (·.key = name) = none ∧ slots'.find? (·.key = name) = none) ∨
      ∃ slot slot', slots.find? (·.key = name) = some slot ∧
      slots'.find? (·.key = name) = some slot' ∧
        slot.key = name ∧ SlotAlike R slot slot' := by
  induction h with
  | nil => exact .inl ⟨rfl, rfl⟩
  | @cons slot slot' slots slots' hslot _ ih =>
    by_cases hname : slot.key = name
    · exact .inr ⟨slot, slot', by simp [hname], by simp [← hslot.key, hname], hname, hslot⟩
    · simpa [List.find?_cons, hname, ← hslot.key] using ih

/-- No slot has the key of a replication field. -/
theorem find?_slots_replication {R : String → Child → Child → Prop} {slots slots' : List (Slot σ)}
    (h : List.Forall₂ (SlotAlike R) slots slots') {name : String}
    (hname : Replication.isField name = true) : slots.find? (·.key = name) = none := by
  obtain ⟨hnone, -⟩ | ⟨slot, slot', -, -, rfl, hslot⟩ := find?_slots h name
  · exact hnone
  · rw [hslot.kept] at hname
    cases hname

/-- An entry that no slot asks for is passed over. -/
theorem readEntries_unknown {slots : List (Slot σ)} {name : String} (stop : Nat) {child : Child}
    (entries : List (Key × Child)) (parts : σ) (hfind : slots.find? (·.key = name) = none)
    (hbreak : child.node.break? = none) :
    Shape.readEntries source slots ((⟨.ok name, stop⟩, child) :: entries) parts =
      Shape.readEntries source slots entries parts := by
  have hskip : Shape.skip child.node = .ok () := by rw [Shape.skip, hbreak]
  simp only [Shape.readEntries, Except.mapError, bind, Except.bind, hfind, hskip]

/-- An entry with a slot fills it, unless it is filled already. -/
theorem toOption_readEntries_known {slots : List (Slot σ)} {name : String} (stop : Nat)
    {child : Child} (entries : List (Key × Child)) (parts : σ) {slot : Slot σ}
    (hfind : slots.find? (·.key = name) = some slot) :
    (Shape.readEntries source slots ((⟨.ok name, stop⟩, child) :: entries) parts).toOption =
      if slot.given parts then none
      else (slot.read child).toOption.bind fun fill ↦
        (Shape.readEntries source slots entries (fill parts)).toOption := by
  rw [Shape.readEntries, toOption_bind, toOption_mapError, toOption_ok, Option.bind_some]
  simp only [hfind]
  split
  · rfl
  · rw [toOption_bind, toOption_mapError]

/-- Entries are read alike: a key that is left out on one side is known to neither. -/
theorem toOption_readEntries {R : String → Child → Child → Prop}
    (hR : ∀ key child child', R key child child' → ChildAlike child child')
    {slots slots' : List (Slot σ)} (hslots : List.Forall₂ (SlotAlike R) slots slots')
    {entries entries' : List (Key × Child)}
    (h : EntriesAlike R (·.node.break? = none) entries entries') (parts : σ) :
    (Shape.readEntries source slots entries parts).toOption =
      (Shape.readEntries source' slots' entries' parts).toOption := by
  induction h generalizing parts with
  | nil => rfl
  | @keep name stop stop' child child' entries entries' hchild _ ih =>
    obtain ⟨hnone, hnone'⟩ | ⟨slot, slot', hsome, hsome', rfl, hslot⟩ := find?_slots hslots name
    · have hnode := (hR name child child' hchild).node
      rw [readEntries_unknown source stop entries parts hnone hnode.break?_left,
        readEntries_unknown source' stop' entries' parts hnone' hnode.break?_right]
      exact ih parts
    · rw [toOption_readEntries_known source stop entries parts hsome,
        toOption_readEntries_known source' stop' entries' parts hsome', hslot.given,
        hslot.read child child' hchild]
      simp only [ih]
  | @drop name stop child entries entries' hname hbreak _ ih =>
    -- the entry is in the first tree only, and no slot asks for it
    rw [readEntries_unknown source stop entries parts (find?_slots_replication hslots hname) hbreak]
    exact ih parts

/-- Objects are read alike by shapes that are alike. -/
theorem ShapeAlike.toOption_ofObject {R : String → Child → Child → Prop}
    (hR : ∀ key child child', R key child child' → ChildAlike child child')
    {shape shape' : Shape σ α} (hshape : ShapeAlike R shape shape')
    {entries entries' : List (Key × Child)}
    (h : EntriesAlike R (·.node.break? = none) entries entries') (start start' stop stop' : Nat) :
    (shape.ofObject source start false entries (.closed stop)).toOption =
      (shape'.ofObject source' start' false entries' (.closed stop')).toOption := by
  simp only [Shape.ofObject, toOption_bind, toOption_mapError,
    toOption_readEntries source source' hR hshape.slots h, hshape.empty, hshape.build]
  rfl

/-- The values of a list are read in the order of the slots. -/
theorem toOption_readValues {slots slots' : List (Slot σ)}
    (hslots : List.Forall₂ (SlotAlike fun _ ↦ ChildAlike) slots slots')
    {children children' : List Child} (h : List.Forall₂ ChildAlike children children') (parts : σ) :
    (Shape.readValues source slots children parts).toOption =
      (Shape.readValues source' slots' children' parts).toOption := by
  induction hslots generalizing children children' parts with
  | nil => rfl
  | cons hslot _ ih =>
    cases h with
    | nil => rfl
    | cons hchild hrest =>
      simp only [Shape.readValues, toOption_bind, toOption_mapError,
        hslot.read _ _ hchild, ih hrest]

/-- A list ends well unless it goes on after the last slot. -/
theorem isSome_readListEnd (slots : List (Slot σ)) (children : List Child) (stop : Nat) :
    (Shape.readListEnd source slots children (.closed stop)).toOption.isSome =
      decide (children.length ≤ slots.length) := by
  unfold Shape.readListEnd
  by_cases hlt : children.length < slots.length
  · rw [if_pos hlt]
    exact (decide_eq_true (Nat.le_of_lt hlt)).symm
  · rw [if_neg hlt]
    by_cases hgt : slots.length < children.length
    · have hdecide : decide (children.length ≤ slots.length) = false := decide_eq_false (by omega)
      cases source <;> simp [hgt, hdecide, Except.toOption]
    · have hdecide : decide (children.length ≤ slots.length) = true := decide_eq_true (by omega)
      cases source <;> simp [hgt, hdecide, readEnding]

/-- So are lists in place of objects. -/
theorem ShapeAlike.toOption_ofList {shape shape' : Shape σ α}
    (hshape : ShapeAlike (fun _ ↦ ChildAlike) shape shape') {children children' : List Child}
    (h : List.Forall₂ ChildAlike children children') (start start' stop stop' : Nat) :
    (shape.ofList source start false children (.closed stop)).toOption =
      (shape'.ofList source' start' false children' (.closed stop')).toOption := by
  have hconst {β γ : Type} (x : Option β) (y : Option γ) :
      (x.bind fun _ ↦ y) = if x.isSome then y else none := by
    cases x <;> rfl
  simp only [Shape.ofList, toOption_bind, toOption_mapError,
    toOption_readValues source source' hshape.slots h,
    hconst, isSome_readListEnd, hshape.slots.length_eq, h.length_eq, hshape.wanted,
    hshape.empty, hshape.build]
  rfl

/-! ### Type references and fields -/

/-- A value with its readings. -/
def Child.of (source : Source) (node : Located) : Child :=
  ⟨node, fun _ ↦ readTypeRef source node, fun _ ↦ readFields source node⟩

theorem readChildren_eq_map (nodes : List Located) :
    readChildren source nodes = nodes.map (Child.of source) := by
  induction nodes with
  | nil => rw [readChildren]; rfl
  | cons node nodes ih => rw [readChildren, ih]; rfl

theorem readChildEntries_eq_map (entries : List (Key × Located)) :
    readChildEntries source entries =
      entries.map fun entry ↦ (entry.1, Child.of source entry.2) := by
  induction entries with
  | nil => rw [readChildEntries]; rfl
  | cons entry entries ih => rw [readChildEntries, ih]; rfl

theorem readFieldItems_eq_readItems (nodes : List Located) :
    readFieldItems source nodes = readItems source (readField source) nodes := by
  induction nodes with
  | nil => rw [readFieldItems, readItems]
  | cons node nodes ih => rw [readFieldItems, readItems, ih]

/-- The keys of a type reference are read alike from any two sources. -/
theorem RefParts.shapeAlike :
    ShapeAlike (fun _ ↦ ChildAlike) (RefParts.shape source) (RefParts.shape source') where
  wanted := rfl
  empty := rfl
  build := rfl
  slots := by
    refine .cons (.ofOption rfl fun _ _ h ↦ h.node.toOption_readText source source') <|
      .cons (.ofOption rfl fun _ _ h ↦ h.node.toOption_readText source source') <|
      .cons (.ofOption rfl fun _ _ h ↦ h.node.toOption_readCount source source') <|
      .cons (.ofOption rfl fun _ _ h ↦ h.typeRef) <|
      .cons (.ofOption rfl fun _ _ h ↦ h.typeRef) <|
      .cons (.ofOption rfl fun _ _ h ↦ h.typeRef) <|
      .cons (.ofOption rfl fun _ _ h ↦ h.fields) .nil

theorem MemberParts.shapeAlike (wanted : Wanted) :
    ShapeAlike (fun _ ↦ ChildAlike) (MemberParts.shape source wanted)
      (MemberParts.shape source' wanted) where
  wanted := rfl
  empty := rfl
  build := rfl
  slots := by
    refine .cons (.of rfl fun _ _ h ↦ h.node.toOption_readText source source') <|
      .cons (.of rfl fun _ _ h ↦ h.typeRef) <|
      .cons (.of rfl fun _ _ h ↦ h.node.toOption_readFlag source source') .nil

/-- Type reference, field and fields are read alike from two trees. -/
structure TypedAlike (node node' : Located) : Prop where
  typeRef : (readTypeRef source node).toOption = (readTypeRef source' node').toOption
  field : (readField source node).toOption = (readField source' node').toOption
  fields : (readFields source node).toOption = (readFields source' node').toOption

/-- What is read of a child comes out the same on both sides. -/
theorem TypedAlike.child {node node' : Located} (hnode : Alike node node')
    (h : TypedAlike source source' node node') : ChildAlike (.of source node) (.of source' node') :=
  ⟨hnode, h.typeRef, h.fields⟩

theorem childrenAlike {items items' : List Located} (h : List.Forall₂ Alike items items')
    (htyped : ∀ item ∈ items, ∀ item', Alike item item' → TypedAlike source source' item item') :
    List.Forall₂ ChildAlike (readChildren source items) (readChildren source' items') := by
  rw [readChildren_eq_map, readChildren_eq_map, List.forall₂_map_left_iff,
    List.forall₂_map_right_iff]
  refine ((List.forall₂_and_left _ _).2 ⟨htyped, h⟩).imp fun item item' hitem ↦ ?_
  exact (hitem.1 item' hitem.2).child source source' hitem.2

theorem childEntriesAlike {entries entries' : List (Key × Located)}
    (h : EntriesAlike (fun _ ↦ Alike) (·.break? = none) entries entries')
    (htyped : ∀ entry ∈ entries, ∀ node', Alike entry.2 node' →
      TypedAlike source source' entry.2 node') :
    EntriesAlike (fun _ ↦ ChildAlike) (·.node.break? = none) (readChildEntries source entries)
      (readChildEntries source' entries') := by
  rw [readChildEntries_eq_map, readChildEntries_eq_map]
  refine h.map (fun _ _ _ node' hentry hnode ↦ ?_) fun _ hbreak ↦ hbreak
  exact (htyped _ hentry node' hnode).child source source' hnode

/-- Alike nodes are read as the same type reference, the same field and the same list of fields, if
as any. -/
theorem Alike.typed {node node' : Located} (h : Alike node node') :
    TypedAlike source source' node node' := by
  have href := RefParts.shapeAlike source source'
  have hmember := MemberParts.shapeAlike source source' .field
  -- the readings call each other on the nodes below, so all three are compared together
  induction node generalizing node' with
  | scalar value stop =>
    cases h
    exact ⟨by simp only [readTypeRef, Except.toOption], by simp only [readField, Except.toOption],
      by simp only [readFields, Except.toOption]⟩
  | list start tooDeep items ending ih =>
    cases h with
    | list hitems =>
      have hchildren := childrenAlike source source' hitems fun item hitem _ ↦ ih item hitem
      have hfields := toOption_readItems source source'
        (((List.forall₂_and_left _ _).2 ⟨ih, hitems⟩).imp fun _ _ hitem ↦ (hitem.1 hitem.2).field)
      refine ⟨?_, ?_, ?_⟩
      · simp only [readTypeRef, toOption_bind]
        exact congrArg₂ _ (href.toOption_ofList source source' hchildren _ _ _ _) rfl
      · simp only [readField]
        exact hmember.toOption_ofList source source' hchildren _ _ _ _
      · simp only [readFields, readFieldItems_eq_readItems, toOption_bind, hfields]
        rfl
  | object start tooDeep entries ending ih =>
    cases h with
    | object hentries =>
      have hchildren := childEntriesAlike source source' hentries fun entry hentry _ ↦
        ih entry hentry
      refine ⟨?_, ?_, ?_⟩
      · simp only [readTypeRef, toOption_bind]
        exact congrArg₂ _ (href.toOption_ofObject source source' (fun _ _ _ h ↦ h)
          hchildren _ _ _ _) rfl
      · simp only [readField]
        exact hmember.toOption_ofObject source source' (fun _ _ _ h ↦ h) hchildren _ _ _ _
      · simp only [readFields, Except.toOption]
  | broken cut => cases h

/-! ### All other parts -/

theorem ShapeAlike.read {shape shape' : Shape σ α}
    (hshape : ShapeAlike (fun _ ↦ ChildAlike) shape shape') :
    ReadAlike (shape.read source) (shape'.read source') := by
  intro node node' h
  cases h with
  | scalar => rfl
  | list hitems =>
    have hchildren := childrenAlike source source' hitems fun _ _ _ h ↦ h.typed source source'
    exact hshape.toOption_ofList source source' hchildren _ _ _ _
  | object hentries =>
    have hchildren := childEntriesAlike source source' hentries fun _ _ _ h ↦ h.typed source source'
    exact hshape.toOption_ofObject source source' (fun _ _ _ h ↦ h) hchildren _ _ _ _

theorem readAlike_readCase : ReadAlike (readCase source) (readCase source') := by
  refine ShapeAlike.read source source' ⟨rfl, ?_, rfl, rfl⟩
  exact .cons (.of rfl fun _ _ h ↦ h.node.toOption_readText source source') <|
    .cons (.ofOption rfl fun _ _ h ↦ h.node.toOption_readText source source') <|
    .cons (.ofOption rfl fun _ _ h ↦ h.typeRef) .nil

theorem readAlike_readTypeDef : ReadAlike (readTypeDef source) (readTypeDef source') := by
  intro node node' h
  have hcases := (readAlike_readCase source source').readList source source'
  have hshape : ShapeAlike (fun _ ↦ ChildAlike) (DefParts.shape source)
      (DefParts.shape source') := by
    refine ⟨rfl, ?_, rfl, rfl⟩
    exact .cons (.of rfl fun _ _ h ↦ h.node.toOption_readText source source') <|
      .cons (.ofOption rfl fun _ _ h ↦ h.node.toOption_readCount source source') <|
      .cons (.ofOption rfl fun _ _ h ↦ h.fields) <|
      .cons (.ofOption rfl fun _ _ h ↦ hcases h.node) <|
      .cons (.ofOption rfl fun _ _ h ↦ h.typeRef) .nil
  rw [readTypeDef, readTypeDef, toOption_bind, toOption_bind, hshape.read source source' h]

theorem readAlike_readParameter : ReadAlike (readParameter source) (readParameter source') :=
  (MemberParts.shapeAlike source source' .parameter).read source source'

theorem readAlike_readMethodError :
    ReadAlike (readMethodError source) (readMethodError source') := by
  refine ShapeAlike.read source source' ⟨rfl, ?_, rfl, rfl⟩
  exact .cons (.of rfl fun _ _ h ↦ h.node.toOption_readText source source') <|
    .cons (.ofOption rfl fun _ _ h ↦ h.typeRef) .nil

theorem readAlike_readMethod : ReadAlike (readMethod source) (readMethod source') := by
  have hparams := (readAlike_readParameter source source').readList source source'
  have herrors := (readAlike_readMethodError source source').readList source source'
  refine ShapeAlike.read source source' ⟨rfl, ?_, rfl, rfl⟩
  exact .cons (.of rfl fun _ _ h ↦ h.node.toOption_readText source source') <|
    .cons (.of rfl fun _ _ h ↦ hparams h.node) <|
    .cons (.ofOption rfl fun _ _ h ↦ h.typeRef) <|
    .cons (.of rfl fun _ _ h ↦ h.node.toOption_readFlag source source') <|
    .cons (.of rfl fun _ _ h ↦ herrors h.node) .nil

theorem readAlike_readEvent : ReadAlike (readEvent source) (readEvent source') := by
  refine ShapeAlike.read source source' ⟨rfl, ?_, rfl, rfl⟩
  exact .cons (.of rfl fun _ _ h ↦ h.node.toOption_readText source source') <|
    .cons (.ofOption rfl fun _ _ h ↦ h.typeRef) .nil

/-! ### Documents -/

/-- No key of an object is that of a replication field. -/
def KeepsAll : Located → Prop
  | .object _ _ entries _ => ∀ name ∈ Located.keyNames entries, Replication.isField name = false
  | _ => True

theorem toOption_readTypeEntries {entries entries' : List (Key × Located)}
    (h : EntriesAlike (fun _ ↦ Alike) (·.break? = none) entries entries')
    (hkeep : ∀ name ∈ Located.keyNames entries, Replication.isField name = false) :
    (readTypeEntries source entries).toOption = (readTypeEntries source' entries').toOption := by
  induction h with
  | nil => rfl
  | keep hnode _ ih =>
    have ih := ih fun name hname ↦ hkeep name (List.mem_cons_of_mem _ hname)
    simp only [readTypeEntries, toOption_bind, toOption_mapError,
      readAlike_readTypeDef source source' hnode, ih]
  | drop hname _ _ ih =>
    have hkept := hkeep _ List.mem_cons_self
    rw [hname] at hkept
    cases hkept

/-- Type tables are read alike if no type is named like a replication field. -/
theorem toOption_readTypeTable {node node' : Located} (h : Alike node node')
    (hkeep : KeepsAll node) :
    (readTypeTable source node).toOption = (readTypeTable source' node').toOption := by
  cases h with
  | scalar => rfl
  | list => rfl
  | object hentries =>
    simp only [readTypeTable, toOption_bind, toOption_readTypeEntries source source' hentries hkeep]
    rfl

/-- Documents are read alike if no entry is left out of their type tables. -/
theorem toOption_readDocument {entries entries' : List (Key × Located)}
    (h : EntriesAlike (fun _ ↦ Alike) (·.break? = none) entries entries')
    (hkeep : ∀ entry ∈ entries, entry.1.name = .ok "types" → KeepsAll entry.2)
    (start start' stop stop' : Nat) :
    (readDocument source (.object start false entries (.closed stop))).toOption =
      (readDocument source' (.object start' false entries' (.closed stop'))).toOption := by
  have hmethods := (readAlike_readMethod source source').readList source source'
  have hevents := (readAlike_readEvent source source').readList source source'
  -- the type table is the one slot that asks for more than alike values
  have hshape : ShapeAlike
      (fun key child child' ↦ ChildAlike child child' ∧ (key = "types" → KeepsAll child.node))
      (DocumentParts.shape source) (DocumentParts.shape source') := by
    refine ⟨rfl, ?_, rfl, rfl⟩
    exact .cons (.of rfl fun _ _ h ↦ h.1.node.toOption_readText source source') <|
      .cons (.of rfl fun _ _ h ↦ toOption_readTypeTable source source' h.1.node (h.2 rfl)) <|
      .cons (.of rfl fun _ _ h ↦ hmethods h.1.node) <|
      .cons (.of rfl fun _ _ h ↦ hevents h.1.node) .nil
  refine hshape.toOption_ofObject source source' (fun _ _ _ h ↦ h.1) ?_ _ _ _ _
  rw [readChildEntries_eq_map, readChildEntries_eq_map]
  refine h.map (fun name _ node node' hentry hnode ↦ ⟨?_, ?_⟩) fun _ hbreak ↦ hbreak
  · exact (hnode.typed source source').child source source' hnode
  · exact fun hname ↦ hkeep _ hentry (congrArg Except.ok hname)

end AbiBindings
