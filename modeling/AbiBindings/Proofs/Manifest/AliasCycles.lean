import AbiBindings.Proofs.Manifest.Aliases
import Mathlib.Data.Nat.Find

/-!
# Aliases that stand for themselves

An alias can come back to itself by way of other aliases only, and then it stands for nothing.
`Alias.isCycle` finds these aliases: the shortest way back visits no name twice, so it is no longer
than the type table (`isCycle_iff`).

An alias can also come back to itself through maps. The name of an alias is *bare* in a type that is
that name, or a map with such a type for its keys or values. Where aliases that stand for nothing
are left out, an alias comes back to itself through bare names exactly if there is a map on its way
(`transGen_exposes_iff`).
-/

namespace AbiBindings.Alias

variable {types : List (String × TypeDef)}

/-! ### Ways back -/

theorem next?_eq_some_iff {name next : String} :
    next? types name = some next ↔ Step types (.reference name) (.reference next) := by
  rw [next?, Option.bind_eq_some_iff]
  constructor
  · rintro ⟨target, hstep, htarget⟩
    cases target with
    | reference other =>
      obtain rfl := Option.some.inj htarget
      exact step?_eq_some_iff.1 hstep
    | _ => cases htarget
  · intro h
    exact ⟨.reference next, step?_eq_some_iff.2 h, rfl⟩

theorem leadsIn_succ_iff {n : Nat} {type last : TypeRef} :
    LeadsIn types (n + 1) type last ↔ ∃ target, Step types type target ∧
      LeadsIn types n target last := by
  constructor
  · rintro (_ | ⟨hstep, hrest⟩)
    exact ⟨_, hstep, hrest⟩
  · rintro ⟨target, hstep, hrest⟩
    exact .next hstep hrest

theorem leadsIn_zero_iff {type last : TypeRef} : LeadsIn types 0 type last ↔ type = last := by
  constructor
  · rintro ⟨⟩
    rfl
  · rintro rfl
    exact .here type

/-- Before it comes to a name, a chain consists of names. -/
theorem exists_reference_of_leadsIn {n : Nat} {type : TypeRef} {name : String}
    (h : LeadsIn types n type (.reference name)) : ∃ current, type = .reference current := by
  cases h with
  | here => exact ⟨name, rfl⟩
  | next hstep _ =>
    cases hstep with
    | @intro current _ _ => exact ⟨current, rfl⟩

/-- A way from name to name goes by names. -/
theorem exists_next?_of_leadsIn {name current : String} {n : Nat}
    (h : LeadsIn types (n + 1) (.reference current) (.reference name)) :
    ∃ next, next? types current = some next ∧
      LeadsIn types n (.reference next) (.reference name) := by
  obtain ⟨target, hstep, hrest⟩ := leadsIn_succ_iff.1 h
  obtain ⟨next, rfl⟩ := exists_reference_of_leadsIn hrest
  exact ⟨next, next?_eq_some_iff.2 hstep, hrest⟩

theorem leadsTo_iff {name : String} {fuel : Nat} {current : String} :
    leadsTo types name fuel current = true ↔
      ∃ n < fuel, LeadsIn types (n + 1) (.reference current) (.reference name) := by
  induction fuel generalizing current with
  | zero => simp [leadsTo]
  | succ fuel ih =>
    rw [leadsTo]
    cases hnext : next? types current with
    | some next =>
      have hstep := next?_eq_some_iff.1 hnext
      simp only [Bool.or_eq_true, decide_eq_true_eq, ih]
      constructor
      · rintro (rfl | ⟨n, hn, hrest⟩)
        · exact ⟨0, Nat.succ_pos _, .next hstep (.here _)⟩
        · exact ⟨n + 1, Nat.succ_lt_succ hn, .next hstep hrest⟩
      · rintro ⟨n, hn, h⟩
        obtain ⟨next', hnext', hrest⟩ := exists_next?_of_leadsIn h
        cases hnext.symm.trans hnext'
        cases n with
        | zero => exact .inl (TypeRef.reference.inj (leadsIn_zero_iff.1 hrest))
        | succ n => exact .inr ⟨n, Nat.lt_of_succ_lt_succ hn, hrest⟩
    | none =>
      simp only [Bool.false_eq_true, false_iff]
      rintro ⟨n, -, h⟩
      obtain ⟨next, hnext', -⟩ := exists_next?_of_leadsIn h
      cases hnext.symm.trans hnext'

/-- A shortest chain to a name visits distinct entries of the table before it comes there. -/
theorem LeadsIn.exists_names_of_shortest {n : Nat} {type : TypeRef} {name : String}
    (h : LeadsIn types n type (.reference name))
    (hshortest : ∀ m, LeadsIn types m type (.reference name) → n ≤ m) :
    ∃ visited : List String, visited.length = n ∧ visited.Nodup ∧ visited ⊆ Table.names types ∧
      ∀ other ∈ visited, other ≠ name ∧
      ∃ m ≤ n, LeadsIn types m (.reference other) (.reference name) := by
  induction n generalizing type with
  | zero => exact ⟨[], rfl, List.nodup_nil, List.nil_subset _, List.forall_mem_nil _⟩
  | succ n ih =>
    obtain ⟨target, hstep, hrest⟩ := leadsIn_succ_iff.1 h
    obtain ⟨visited, hlength, hnodup, hsub, hvisited⟩ :=
      ih hrest fun m hm ↦ Nat.le_of_succ_le_succ (hshortest (m + 1) (.next hstep hm))
    obtain ⟨first, rfl⟩ := exists_reference_of_leadsIn h
    have hne : first ≠ name := by
      rintro rfl
      exact absurd (hshortest 0 (.here _)) (Nat.not_succ_le_zero n)
    -- a name met again would have a shorter chain than the shortest
    have hfresh : first ∉ visited := by
      intro hmem
      obtain ⟨-, m, hm, hlead⟩ := hvisited first hmem
      exact absurd (hshortest m hlead) (Nat.not_le.2 (Nat.lt_succ_of_le hm))
    refine ⟨first :: visited, congrArg (· + 1) hlength, List.nodup_cons.2 ⟨hfresh, hnodup⟩,
      List.cons_subset.2 ⟨mem_names_of_step hstep, hsub⟩,
      List.forall_mem_cons.2 ⟨⟨hne, n + 1, Nat.le_refl _, h⟩, ?_⟩⟩
    intro other hother
    obtain ⟨hother, m, hm, hlead⟩ := hvisited other hother
    exact ⟨hother, m, Nat.le_succ_of_le hm, hlead⟩

/-- The alias stands for itself, by way of other aliases only. -/
abbrev Loops (types : List (String × TypeDef)) (type : TypeRef) : Prop :=
  Relation.TransGen (Step types) type type

theorem loops_iff_leadsIn {type : TypeRef} :
    Loops types type ↔ ∃ n, LeadsIn types (n + 1) type type := by
  rw [Loops, Relation.TransGen.head'_iff]
  simp only [leadsIn_succ_iff]
  constructor
  · rintro ⟨target, hstep, hchain⟩
    obtain ⟨n, hn⟩ := chain_iff_leadsIn.1 hchain
    exact ⟨n, target, hstep, hn⟩
  · rintro ⟨n, target, hstep, hn⟩
    exact ⟨target, hstep, chain_iff_leadsIn.2 ⟨n, hn⟩⟩

/-- The search for a way back finds one if there is one. -/
theorem isCycle_iff {name : String} :
    isCycle types name = true ↔ Loops types (.reference name) := by
  rw [isCycle, leadsTo_iff, loops_iff_leadsIn]
  constructor
  · rintro ⟨n, -, h⟩
    exact ⟨n, h⟩
  · intro hloop
    classical
    -- the shortest way back, after its first step
    have hfound := Nat.find_spec hloop
    have hleast {n : Nat} (hn : LeadsIn types (n + 1) (.reference name) (.reference name)) :
        Nat.find hloop ≤ n :=
      Nat.find_min' hloop hn
    generalize Nat.find hloop = n at hfound hleast
    obtain ⟨target, hstep, hrest⟩ := leadsIn_succ_iff.1 hfound
    obtain ⟨visited, hlength, hnodup, hsub, hvisited⟩ :=
      hrest.exists_names_of_shortest fun m hm ↦ hleast (.next hstep hm)
    have hname : name ∉ visited := fun hmem ↦ (hvisited name hmem).1 rfl
    have hle := ((List.nodup_cons.2 ⟨hname, hnodup⟩).subperm
      (List.cons_subset.2 ⟨mem_names_of_step hstep, hsub⟩)).length_le
    rw [List.length_cons, hlength, Table.names, List.length_map] at hle
    exact ⟨n, hle, hfound⟩

/-! ### Bare names -/

/-- The names that stand bare in a type: alone or in a map, but not in a list or a record. -/
def bareNames : TypeRef → List String
  | .reference name => [name]
  | .map key value => bareNames key ++ bareNames value
  | _ => []

/-- One step to what a type comes to at once: to the target of an alias, or into a map. -/
inductive Unfold (types : List (String × TypeDef)) : TypeRef → TypeRef → Prop
  | aliasOf {type target : TypeRef} (h : Step types type target) : Unfold types type target
  | key (key value : TypeRef) : Unfold types (.map key value) key
  | value (key value : TypeRef) : Unfold types (.map key value) value

/-- The alias comes to a map that comes back to the alias. -/
def LoopsThroughMap (types : List (String × TypeDef)) (name : String) : Prop :=
  ∃ key value, Relation.ReflTransGen (Unfold types) (.reference name) (.map key value) ∧
    Relation.ReflTransGen (Unfold types) (.map key value) (.reference name)

/-- The alias stands for something, and the name of another alias stands bare in its target. -/
structure Exposes (types : List (String × TypeDef)) (name other : String) : Prop where
  stands : ¬ Loops types (.reference name)
  bare : ∃ target, Step types (.reference name) target ∧ other ∈ bareNames target
  isAlias : ∃ target, Step types (.reference other) target

theorem unfold_of_mem_bareNames {type : TypeRef} {name : String} (h : name ∈ bareNames type) :
    Relation.ReflTransGen (Unfold types) type (.reference name) := by
  fun_induction bareNames type with
  | case1 other =>
    obtain rfl := List.mem_singleton.1 h
    exact .refl
  | case2 key value ihKey ihValue =>
    obtain h | h := List.mem_append.1 h
    · exact .head (.key key value) (ihKey h)
    · exact .head (.value key value) (ihValue h)
  | case3 => cases h

/-- All that an alias comes to that stands for nothing are such aliases. -/
theorem Loops.unfold {type next : TypeRef} (h : Loops types type) (hnext : Unfold types type next) :
    Loops types next := by
  obtain ⟨target, hstep, hchain⟩ := Relation.TransGen.head'_iff.1 h
  cases hnext with
  | aliasOf hstep' =>
    obtain rfl := step_unique hstep hstep'
    exact .tail' hchain hstep
  | key => cases hstep
  | value => cases hstep

theorem Loops.reach {type next : TypeRef} (h : Loops types type)
    (hnext : Relation.ReflTransGen (Unfold types) type next) : Loops types next := by
  induction hnext with
  | refl => exact h
  | tail _ hstep ih => exact ih.unfold hstep

/-! ### Exposed aliases -/

theorem isAlias_of_exposes {first name : String}
    (h : Relation.ReflTransGen (Exposes types) first name)
    (halias : ∃ target, Step types (.reference name) target) :
    ∃ target, Step types (.reference first) target := by
  obtain rfl | ⟨other, hexposes, -⟩ := Relation.ReflTransGen.cases_head h
  · exact halias
  · obtain ⟨target, hstep, -⟩ := hexposes.bare
    exact ⟨target, hstep⟩

/-- What comes to an alias has a bare name from which the alias is exposed. -/
theorem exists_bareName_of_unfold {type : TypeRef} {name : String}
    (h : Relation.ReflTransGen (Unfold types) type (.reference name))
    (hstands : ¬ Loops types (.reference name))
    (halias : ∃ target, Step types (.reference name) target) :
    ∃ first ∈ bareNames type, Relation.ReflTransGen (Exposes types) first name := by
  induction h using Relation.ReflTransGen.head_induction_on with
  | refl => exact ⟨name, List.mem_singleton_self name, .refl⟩
  | @head type next hunfold hrest ih =>
    obtain ⟨first, hfirst, hchain⟩ := ih
    cases hunfold with
    | aliasOf hstep =>
      -- an alias that stands for nothing would not come to one that stands for something
      have hloop : ¬ Loops types type :=
        fun hloop ↦ hstands (hloop.reach (.head (.aliasOf hstep) hrest))
      cases hstep with
      | @intro current _ hfind =>
        have hexposes : Exposes types current first :=
          ⟨hloop, ⟨_, .intro hfind, hfirst⟩, isAlias_of_exposes hchain halias⟩
        exact ⟨current, List.mem_singleton_self current, .head hexposes hchain⟩
    | key => exact ⟨first, List.mem_append_left _ hfirst, hchain⟩
    | value => exact ⟨first, List.mem_append_right _ hfirst, hchain⟩

theorem Exposes.step_or_map {name other : String} (h : Exposes types name other) :
    Step types (.reference name) (.reference other) ∨
      ∃ key value, Step types (.reference name) (.map key value) ∧
        Relation.ReflTransGen (Unfold types) (.map key value) (.reference other) := by
  obtain ⟨target, hstep, hmem⟩ := h.bare
  cases target with
  | reference first =>
    obtain rfl := List.mem_singleton.1 hmem
    exact .inl hstep
  | map key value => exact .inr ⟨key, value, hstep, unfold_of_mem_bareNames hmem⟩
  | _ => cases hmem

/-- From alias to alias there are either aliases only or a map on the way. -/
theorem transGen_step_or_map {name other : String}
    (h : Relation.TransGen (Exposes types) name other) :
    Relation.TransGen (Step types) (.reference name) (.reference other) ∨
      ∃ key value, Relation.ReflTransGen (Unfold types) (.reference name) (.map key value) ∧
        Relation.ReflTransGen (Unfold types) (.map key value) (.reference other) := by
  induction h with
  | single hexposes =>
    obtain hstep | ⟨key, value, hstep, hrest⟩ := hexposes.step_or_map
    · exact .inl (.single hstep)
    · exact .inr ⟨key, value, .single (.aliasOf hstep), hrest⟩
  | @tail middle other _ hexposes ih =>
    have hunfold : Relation.ReflTransGen (Unfold types) (.reference middle) (.reference other) := by
      obtain ⟨target, hstep, hmem⟩ := hexposes.bare
      exact .head (.aliasOf hstep) (unfold_of_mem_bareNames hmem)
    obtain hsteps | ⟨key, value, hmap, hrest⟩ := ih
    · have hreach : Relation.ReflTransGen (Unfold types) (.reference name) (.reference middle) :=
        Relation.ReflTransGen.mono (fun _ _ h ↦ .aliasOf h) _ _ hsteps.to_reflTransGen
      obtain hstep | ⟨key, value, hstep, hrest⟩ := hexposes.step_or_map
      · exact .inl (.tail hsteps hstep)
      · exact .inr ⟨key, value, .tail hreach (.aliasOf hstep), hrest⟩
    · exact .inr ⟨key, value, hmap, hrest.trans hunfold⟩

/-- An alias is exposed to itself exactly if it comes back to itself through a map. -/
theorem transGen_exposes_iff {name : String} :
    Relation.TransGen (Exposes types) name name ↔ LoopsThroughMap types name := by
  constructor
  · intro h
    obtain hloop | hmap := transGen_step_or_map h
    · obtain ⟨next, hexposes, -⟩ := Relation.TransGen.head'_iff.1 h
      exact absurd hloop hexposes.stands
    · exact hmap
  · rintro ⟨key, value, hmap, hback⟩
    have hstands : ¬ Loops types (.reference name) := by
      intro hloop
      obtain ⟨target, hstep, -⟩ := Relation.TransGen.head'_iff.1 (hloop.reach hmap)
      cases hstep
    obtain heq | ⟨target, hunfold, hrest⟩ := Relation.ReflTransGen.cases_head hmap
    · cases heq
    · cases hunfold with
      | aliasOf hstep =>
        obtain ⟨first, hfirst, hchain⟩ :=
          exists_bareName_of_unfold (hrest.trans hback) hstands ⟨target, hstep⟩
        exact .head' ⟨hstands, ⟨target, hstep, hfirst⟩,
          isAlias_of_exposes hchain ⟨target, hstep⟩⟩ hchain

end AbiBindings.Alias
