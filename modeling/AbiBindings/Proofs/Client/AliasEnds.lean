import AbiBindings.Client.Scope
import AbiBindings.Proofs.Client.BinaryTypes
import AbiBindings.Proofs.Manifest.AliasCycles

/-!
# Where chains of aliases end

A type that stands in a manifest starts one chain of aliases. The chain either ends in a type
without a further step (`EndsIn`) or goes on forever (`Endless`). All questions about aliases are
questions about that end: whether it is the string or the unit scalar, and whether it is a variant.
A chain has no end that is a name without a definition, since every type on it stands in the
manifest and references lead to definitions there (`isDefined_of_chain`).

An alias that is part of a cycle is told apart from one that only leads into a cycle: both start
endless chains, but only the first comes back to itself.
-/

namespace AbiBindings.Alias

variable {types : List (String × TypeDef)} {type last : TypeRef}

/-- The chain from the type ends in another, from which there is no step. -/
structure EndsIn (types : List (String × TypeDef)) (type last : TypeRef) : Prop where
  chain : Chain types type last
  stops : ∀ target, ¬ Step types last target

/-- The chain from the type goes on forever. -/
def Endless (types : List (String × TypeDef)) (type : TypeRef) : Prop :=
  ∃ chain : Nat → TypeRef, chain 0 = type ∧ ∀ n, Step types (chain n) (chain (n + 1))

/-- On an endless chain there is a step from every type. -/
theorem Endless.exists_step (h : Endless types type) (hchain : Chain types type last) :
    ∃ target, Step types last target := by
  obtain ⟨chain, rfl, hstep⟩ := h
  -- steps are functions, so the chain is the only one
  obtain ⟨n, rfl⟩ : ∃ n, chain n = last := by
    induction hchain with
    | refl => exact ⟨0, rfl⟩
    | tail _ hnext ih =>
      obtain ⟨n, rfl⟩ := ih
      exact ⟨n + 1, step_unique (hstep n) hnext⟩
  exact ⟨_, hstep n⟩

/-- A chain that can always be continued is endless. -/
theorem endless_of_forall_step (h : ∀ last, Chain types type last →
      ∃ target, Step types last target) :
    Endless types type := by
  let next (current : TypeRef) : TypeRef := (step? types current).getD current
  have hnext {current : TypeRef} (hcurrent : Chain types type current) :
      Step types current (next current) := by
    obtain ⟨target, hstep⟩ := h current hcurrent
    rw [show next current = target by simp only [next, step?_eq_some_iff.2 hstep, Option.getD_some]]
    exact hstep
  have hreach (n : Nat) : Chain types type (next^[n] type) := by
    induction n with
    | zero => exact .refl
    | succ n ih =>
      rw [Function.iterate_succ_apply']
      exact .tail ih (hnext ih)
  refine ⟨fun n ↦ next^[n] type, rfl, fun n ↦ ?_⟩
  simp only [Function.iterate_succ_apply']
  exact hnext (hreach n)

/-- A chain has an end, or it is endless. -/
theorem endless_iff : Endless types type ↔ ∀ last, ¬ EndsIn types type last := by
  constructor
  · intro h last hends
    obtain ⟨target, hstep⟩ := h.exists_step hends.chain
    exact hends.stops target hstep
  · intro h
    refine endless_of_forall_step fun last hchain ↦ ?_
    by_contra hstop
    exact h last ⟨hchain, not_exists.1 hstop⟩

theorem endsIn_scalar_iff {kind : ScalarKind} :
    EndsIn types type (.scalar kind) ↔ Chain types type (.scalar kind) := by
  refine ⟨EndsIn.chain, fun h ↦ ⟨h, fun target hstep ↦ ?_⟩⟩
  cases hstep

/-! ### Following to the end -/

section Defined

variable (hdefined : ∀ last, Chain types type last → followUpTo.isDefined types last = true)
include hdefined

theorem follow_eq_some_iff_endsIn : follow types type = some last ↔ EndsIn types type last := by
  rw [follow_eq_some_iff]
  constructor
  · rintro ⟨hchain, hstop, -⟩
    exact ⟨hchain, hstop⟩
  · intro h
    exact ⟨h.chain, h.stops, hdefined last h.chain⟩

theorem follow_eq_none_iff_endless : follow types type = none ↔ Endless types type := by
  rw [endless_iff, Option.eq_none_iff_forall_ne_some]
  exact forall_congr' fun last ↦ (follow_eq_some_iff_endsIn hdefined).not

theorem variant?_eq_some_iff {name : String} :
    variant? types type = some name ↔
      EndsIn types type (.reference name) ∧
      ∃ cases, Table.find? name types = some (.variant cases) := by
  rw [← follow_eq_some_iff_endsIn hdefined, variant?]
  cases follow types type with
  | none => simp
  | some last =>
    cases last with
    | reference other =>
      simp only [Option.some.injEq, TypeRef.reference.injEq]
      constructor
      · intro h
        split at h
        · rename_i cases hfind
          obtain rfl := Option.some.inj h
          exact ⟨rfl, cases, hfind⟩
        · cases h
      · rintro ⟨rfl, cases, hfind⟩
        rw [hfind]
    | _ => simp

end Defined

end AbiBindings.Alias

namespace AbiBindings.Client

open Alias

/-- A step from a type that is present leads to one that is present. -/
theorem Present.chain {document : Document} {type last : TypeRef} (h : Present document type)
    (hchain : Chain document.types type last) : Present document last := by
  refine h.reach (Relation.ReflTransGen.mono (fun current target hstep ↦ ?_) _ _ hchain)
  obtain ⟨hfind⟩ := hstep
  exact .reference hfind (.target target)

/-- Where references lead to definitions, every type on the chain of an occurrence is defined. -/
theorem isDefined_of_chain {document : Document} (hreferences : document.ReferencesResolve)
    {place : List Nat} {type last : TypeRef} {location : String}
    (hoccurs : document.Occurs place ⟨type, location⟩) (hchain : Chain document.types type last) :
    followUpTo.isDefined document.types last = true := by
  have hpresent : Present document last := Present.chain (.inl ⟨place, location, hoccurs⟩) hchain
  cases last with
  | reference name =>
    obtain ⟨place, location, hoccurs⟩ | ⟨length, h⟩ := hpresent
    · exact Table.contains_iff.2 (hreferences place name location hoccurs)
    · cases h
  | _ => rfl

/-- All questions about aliases are answered by where chains end. For every type that occurs in a
manifest that was obtained, following gives the end of its chain, and nothing exactly if the chain
is endless. The type is a unit, a variant or a string key if the end is one; the last of these is
asked on the entries of the document that the manifest was checked as. An alias is a cycle exactly
if one step or more lead from it back to it. -/
theorem alias_questions_exact {manifest : Manifest} (h : manifest.Obtained) (reserved : List String)
    {place : List Nat} {type : TypeRef} {location : String}
    (hoccurs : manifest.toDocument.Occurs place ⟨type, location⟩) :
    (∀ last, follow manifest.types type = some last ↔ EndsIn manifest.types type last) ∧
      (follow manifest.types type = none ↔ Endless manifest.types type) ∧
      ((Scope.of manifest reserved).isUnit type = true ↔
        EndsIn manifest.types type (.scalar .unit)) ∧
      (∀ name, (Scope.of manifest reserved).variant? type = some name ↔
        EndsIn manifest.types type (.reference name) ∧
        ∃ cases, manifest.typeDef? name = some (.variant cases)) ∧
      (∃ document : Document, document.check = .ok manifest) ∧
      (∀ document : Document, document.check = .ok manifest →
        (isString document.types type = true ↔ EndsIn manifest.types type (.scalar .string))) ∧
      ∀ name, (Scope.of manifest reserved).isAliasCycle name = true ↔
        Relation.TransGen (Step manifest.types) (.reference name) (.reference name) := by
  have hdefined (last : TypeRef) (hchain : Chain manifest.types type last) :
      followUpTo.isDefined manifest.types last = true :=
      isDefined_of_chain h.checked.references hoccurs hchain
  refine ⟨fun last ↦ follow_eq_some_iff_endsIn hdefined, follow_eq_none_iff_endless hdefined, ?_,
    fun name ↦ variant?_eq_some_iff hdefined, h.exists_check,
    fun document hcheck ↦ ?_, fun name ↦ isCycle_iff⟩
  · exact isUnit_iff.trans endsIn_scalar_iff.symm
  · have htypes : document.types = manifest.types := by
      rw [← Manifest.toDocument_of_check hcheck, Manifest.toDocument]
    rw [htypes, isString_iff, endsIn_scalar_iff]

/-- A value in which chains of aliases end in a string, in a unit and in a variant, go around in a
cycle, and lead into that cycle from outside. -/
def aliasChains : Json :=
  .object [("schema_version", .string "wasm-abi/1"),
    ("types", .object [
      ("Key", .object [("kind", .string "alias"), ("target", .object [("$ref", .string "Text")])]),
      ("Text", .object [("kind", .string "alias"),
        ("target", .object [("kind", .string "string")])]),
      ("Nothing", .object [("kind", .string "alias"),
        ("target", .object [("kind", .string "unit")])]),
      ("Choice", .object [("kind", .string "variant"), ("variants", .array [])]),
      ("Chosen", .object [("kind", .string "alias"),
        ("target", .object [("$ref", .string "Choice")])]),
      ("Tail", .object [("kind", .string "alias"), ("target", .object [("$ref", .string "Left")])]),
      ("Left", .object [("kind", .string "alias"),
        ("target", .object [("$ref", .string "Right")])]),
      ("Right", .object [("kind", .string "alias"),
        ("target", .object [("$ref", .string "Left")])])]),
    ("methods", .array [.object [("name", .string "ask"), ("params", .array [
      .object [("name", .string "key"), ("type", .object [("$ref", .string "Key")])],
      .object [("name", .string "chosen"), ("type", .object [("$ref", .string "Chosen")])],
      .object [("name", .string "tail"), ("type", .object [("$ref", .string "Tail")])]])]]),
    ("events", .array [])]

theorem alias_questions_exact_aliasChains :
    ∃ manifest, Manifest.ofJsonWith (fun _ ↦ []) aliasChains = .ok manifest ∧
      manifest.toDocument.Occurs [0, 0, 0, 2] ⟨.reference "Tail", "method.ask.param.tail"⟩ ∧
      EndsIn manifest.types (.reference "Key") (.scalar .string) ∧
      EndsIn manifest.types (.reference "Chosen") (.reference "Choice") ∧
      Endless manifest.types (.reference "Tail") ∧
      Relation.TransGen (Step manifest.types) (.reference "Left") (.reference "Left") ∧
      ¬ Relation.TransGen (Step manifest.types) (.reference "Tail") (.reference "Tail") := by
  obtain ⟨manifest, h, hkey, hchosen, htail⟩ :
      ∃ manifest, Manifest.ofJsonWith (fun _ ↦ []) aliasChains = .ok manifest ∧
      manifest.toDocument.Occurs [0, 0, 0, 0] ⟨.reference "Key", "method.ask.param.key"⟩ ∧
      manifest.toDocument.Occurs [0, 0, 0, 1] ⟨.reference "Chosen", "method.ask.param.chosen"⟩ ∧
      manifest.toDocument.Occurs [0, 0, 0, 2] ⟨.reference "Tail", "method.ask.param.tail"⟩ :=
    ⟨_, rfl, .method rfl (.param rfl (.here _)), .method rfl (.param rfl (.here _)),
      .method rfl (.param rfl (.here _))⟩
  obtain ⟨hfollowKey, -⟩ := alias_questions_exact (.ofJsonWith h) [] hkey
  obtain ⟨-, -, -, hvariant, -⟩ := alias_questions_exact (.ofJsonWith h) [] hchosen
  obtain ⟨-, hnone, -, -, -, -, hcycle⟩ := alias_questions_exact (.ofJsonWith h) [] htail
  cases h
  refine ⟨_, rfl, htail, (hfollowKey _).1 rfl, ((hvariant "Choice").1 rfl).1, hnone.1 rfl,
    (hcycle "Left").1 rfl, fun hloop ↦ ?_⟩
  exact absurd ((hcycle "Tail").2 hloop) (by decide)

end AbiBindings.Client
