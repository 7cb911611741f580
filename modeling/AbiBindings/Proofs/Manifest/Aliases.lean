import AbiBindings.Manifest.Alias
import AbiBindings.Proofs.Table
import Mathlib.Data.List.Nodup
import Mathlib.Data.List.Perm.Subperm
import Mathlib.Logic.Relation

/-!
# Chains of aliases

`Alias.Step` is one step from a reference to an alias to the alias's target, and `Alias.Chain` any
number of them. `Alias.follow` computes the end of a chain (`follow_eq_some_iff`).

That `follow` takes at most as many steps as the table has entries loses nothing. Steps are
functions, so a chain that ends has one length from each of its types, and no name comes twice in
it: the two occurrences would be equally far from the end. Its names are therefore distinct entries
of the table (`LeadsIn.le_length`).
-/

namespace AbiBindings.Alias

variable {types : List (String × TypeDef)}

/-- One step, from a reference to an alias to the alias's target. -/
inductive Step (types : List (String × TypeDef)) : TypeRef → TypeRef → Prop
  | intro {name : String} {target : TypeRef} (h : Table.find? name types = some (.aliasOf target)) :
    Step types (.reference name) target

/-- Any number of steps. -/
abbrev Chain (types : List (String × TypeDef)) : TypeRef → TypeRef → Prop :=
  Relation.ReflTransGen (Step types)

theorem step?_eq_some_iff {type target : TypeRef} :
    step? types type = some target ↔ Step types type target := by
  constructor
  · intro h
    cases type with
    | reference name =>
      simp only [step?] at h
      split at h
      · rename_i hfind
        rw [Option.some.injEq] at h
        exact .intro (h ▸ hfind)
      · cases h
    | _ => simp [step?] at h
  · rintro ⟨hfind⟩
    simp [step?, hfind]

theorem step?_eq_none_iff {type : TypeRef} :
    step? types type = none ↔ ∀ target, ¬ Step types type target := by
  simp only [← step?_eq_some_iff, Option.eq_none_iff_forall_ne_some, ne_eq]

theorem mem_names_of_step {name : String} {target : TypeRef}
    (h : Step types (.reference name) target) : name ∈ Table.names types := by
  obtain ⟨hfind⟩ := h
  exact Table.find?_isSome_iff.1 (by rw [hfind]; rfl)

/-! ### Counted chains -/

/-- A chain of a given number of steps. -/
inductive LeadsIn (types : List (String × TypeDef)) : Nat → TypeRef → TypeRef → Prop
  | here (type : TypeRef) : LeadsIn types 0 type type
  | next {n : Nat} {type target last : TypeRef} (h : Step types type target)
    (rest : LeadsIn types n target last) : LeadsIn types (n + 1) type last

theorem chain_iff_leadsIn {type last : TypeRef} :
    Chain types type last ↔ ∃ n, LeadsIn types n type last := by
  constructor
  · intro h
    induction h using Relation.ReflTransGen.head_induction_on with
    | refl => exact ⟨0, .here last⟩
    | head hstep _ ih =>
      obtain ⟨n, hn⟩ := ih
      exact ⟨n + 1, .next hstep hn⟩
  · rintro ⟨n, hn⟩
    induction hn with
    | here type => exact .refl
    | next hstep _ ih => exact .head hstep ih

theorem step_unique {type target target' : TypeRef} (h : Step types type target)
    (h' : Step types type target') : target = target' := by
  rw [← step?_eq_some_iff] at h h'
  exact Option.some.inj (h.symm.trans h')

/-- All chains from a type that end have the same length. -/
theorem LeadsIn.length_unique {n m : Nat} {type last last' : TypeRef}
    (h : LeadsIn types n type last) (hend : ∀ t, ¬ Step types last t)
    (h' : LeadsIn types m type last') (hend' : ∀ t, ¬ Step types last' t) : n = m := by
  induction h generalizing m with
  | here type =>
    cases h' with
    | here _ => rfl
    | next hstep _ => exact absurd hstep (hend _)
  | next hstep _ ih =>
    cases h' with
    | here _ => exact absurd hstep (hend' _)
    | next hstep' rest' =>
      rw [step_unique hstep' hstep] at rest'
      rw [ih hend rest']

/-- The names on a chain that ends are distinct entries of the table. -/
theorem LeadsIn.exists_names {n : Nat} {type last : TypeRef} (h : LeadsIn types n type last)
    (hend : ∀ t, ¬ Step types last t) :
    ∃ visited : List String, visited.length = n ∧ visited.Nodup ∧ visited ⊆ Table.names types ∧
      ∀ name ∈ visited, ∃ m ≤ n, LeadsIn types m (.reference name) last := by
  induction h with
  | here type => exact ⟨[], rfl, List.nodup_nil, List.nil_subset _, by simp⟩
  | @next n type target last hstep rest ih =>
    obtain ⟨visited, hlength, hnodup, hsub, hvisited⟩ := ih hend
    cases hstep with
    | @intro name target hfind =>
      have hstep : Step types (.reference name) target := .intro hfind
      have hchain : LeadsIn types (n + 1) (.reference name) last := .next hstep rest
      -- a name met again would have two chains of different length to the end
      have hfresh : name ∉ visited := by
        intro hmem
        obtain ⟨m, hm, hlead⟩ := hvisited name hmem
        have := hchain.length_unique hend hlead hend
        omega
      refine ⟨name :: visited, by simp [hlength], List.nodup_cons.2 ⟨hfresh, hnodup⟩,
        List.cons_subset.2 ⟨mem_names_of_step hstep, hsub⟩, ?_⟩
      intro other hother
      rcases List.mem_cons.1 hother with rfl | hother
      · exact ⟨n + 1, Nat.le_refl _, hchain⟩
      · obtain ⟨m, hm, hlead⟩ := hvisited other hother
        exact ⟨m, by omega, hlead⟩

/-- A chain that ends has at most as many steps as the table has entries. -/
theorem LeadsIn.le_length {n : Nat} {type last : TypeRef} (h : LeadsIn types n type last)
    (hend : ∀ t, ¬ Step types last t) : n ≤ types.length := by
  obtain ⟨visited, rfl, hnodup, hsub, -⟩ := h.exists_names hend
  have hle := (hnodup.subperm hsub).length_le
  rwa [Table.names, List.length_map] at hle

/-! ### Following a chain -/

theorem followUpTo_eq_some_iff {fuel : Nat} {type last : TypeRef} :
    followUpTo types fuel type = some last ↔
      ∃ n ≤ fuel, LeadsIn types n type last ∧ (∀ t, ¬ Step types last t) ∧
        followUpTo.isDefined types last = true := by
  induction fuel generalizing type with
  | zero =>
    rw [followUpTo]
    constructor
    · intro h
      split at h
      · rename_i hstop
        obtain rfl := Option.some.inj h
        rw [Option.isNone_iff_eq_none, step?_eq_none_iff] at hstop
        exact ⟨0, Nat.le_refl _, .here type, hstop⟩
      · cases h
    · rintro ⟨n, hn, hlead, hstop⟩
      obtain rfl : n = 0 := by omega
      cases hlead
      rw [← step?_eq_none_iff, ← Option.isNone_iff_eq_none] at hstop
      rw [if_pos hstop]
  | succ fuel ih =>
    rw [followUpTo]
    -- a step costs one unit of fuel; where there is none, the chain is at its end
    cases hstep : step? types type with
    | some target =>
      simp only [ih]
      rw [step?_eq_some_iff] at hstep
      constructor
      · rintro ⟨n, hn, hlead, hstop⟩
        exact ⟨n + 1, by omega, .next hstep hlead, hstop⟩
      · rintro ⟨n, hn, hlead, hstop⟩
        cases hlead with
        | here _ => exact absurd hstep (hstop.1 target)
        | @next n _ target' _ hstep' rest =>
          rw [step_unique hstep' hstep] at rest
          exact ⟨n, by omega, rest, hstop⟩
    | none =>
      rw [step?_eq_none_iff] at hstep
      simp only
      constructor
      · intro h
        split at h
        · rename_i hdefined
          obtain rfl := Option.some.inj h
          exact ⟨0, by omega, .here type, hstep, hdefined⟩
        · cases h
      · rintro ⟨n, hn, hlead, hstop⟩
        cases hlead with
        | here _ => rw [if_pos hstop.2]
        | next hstep' _ => exact absurd hstep' (hstep _)

/-- A chain is followed to its end, if it has one that is defined. -/
theorem follow_eq_some_iff {type last : TypeRef} :
    follow types type = some last ↔
      Chain types type last ∧ (∀ t, ¬ Step types last t) ∧
      followUpTo.isDefined types last = true := by
  rw [follow, followUpTo_eq_some_iff, chain_iff_leadsIn]
  constructor
  · rintro ⟨n, -, hlead, hstop⟩
    exact ⟨⟨n, hlead⟩, hstop⟩
  · rintro ⟨⟨n, hlead⟩, hstop⟩
    exact ⟨n, hlead.le_length hstop.1, hlead, hstop⟩

theorem follow_eq_scalar_iff {type : TypeRef} {kind : ScalarKind} :
    follow types type = some (.scalar kind) ↔ Chain types type (.scalar kind) := by
  rw [follow_eq_some_iff]
  exact ⟨And.left, fun h ↦ ⟨h, nofun, rfl⟩⟩

/-- A type counts as a string exactly when a chain of aliases leads from it to the string scalar. -/
theorem isString_iff {type : TypeRef} :
    isString types type = true ↔ Chain types type (.scalar .string) := by
  rw [← follow_eq_scalar_iff, isString]
  split
  · simp_all
  · simp_all

theorem isUnit_iff {type : TypeRef} :
    isUnit types type = true ↔ Chain types type (.scalar .unit) := by
  rw [← follow_eq_scalar_iff, isUnit]
  split
  · simp_all
  · simp_all

end AbiBindings.Alias
