import AbiBindings.Proofs.Client.BinaryTypes
import AbiBindings.Proofs.Manifest.AliasCycles

/-!
# Searches that keep the names they visited

What a name leads to is found in a number of steps or rounds that is taken from the size of the
type table. The same can be found with a set of visited names that grows until a name comes again.
Here these searches are written out and give the same answers.

* A loop from alias to target comes to the end of the chain, and visits a name twice exactly if
  there is none (`follow_eq_loop`). All questions about the end of a chain are answered by such a
  loop (`isString_eq_loop`, `variant?_eq_loop`).
* A loop from name to name visits one twice if it does not end. That is the first name exactly if
  the first name stands for itself (`isCycle_eq_comesBack`): until it comes back there, every step
  brings it nearer.
* A search for byte sequences may pass over what the names it visited hold, although they are still
  being looked into. If it finds nothing in the end, these names hold no byte sequence and no names
  but each other (`Settled`), so no round finds one of them (`isBinary_eq_search`).
-/

namespace AbiBindings

namespace Alias

variable {types : List (String × TypeDef)} {β : Type}

/-! ### To the end of a chain -/

/-- A loop that goes from alias to target and keeps the names that it visited. It answers for the
type that it comes to, or answers `otherwise` if a name comes again or has no definition. -/
def loop (types : List (String × TypeDef)) (answer : TypeRef → β) (otherwise : β)
    (visited : List String) : TypeRef → β
  | .reference name =>
    if _ : name ∈ visited then otherwise
    else
      match _ : Table.find? name types with
      | none => otherwise
      | some (.aliasOf target) => loop types answer otherwise (name :: visited) target
      | some _ => answer (.reference name)
  | type => answer type
termination_by (Table.unvisited types visited).length
decreasing_by exact Table.length_unvisited_cons_lt ‹_› ‹_›

/-- A chain has the end that it has after its first step. -/
theorem follow_of_step {type target : TypeRef} (h : Step types type target) :
    follow types type = follow types target := by
  refine Option.ext fun last ↦ ?_
  rw [follow_eq_some_iff, follow_eq_some_iff]
  constructor
  · rintro ⟨hchain, hend, hdefined⟩
    obtain rfl | ⟨next, hstep, hrest⟩ := Relation.ReflTransGen.cases_head hchain
    · exact absurd h (hend target)
    · rw [step_unique hstep h] at hrest
      exact ⟨hrest, hend, hdefined⟩
  · rintro ⟨hchain, hend⟩
    exact ⟨.head h hchain, hend⟩

/-- A type that is no alias is the end of its chain, if it is defined. -/
theorem follow_of_not_step {type : TypeRef} (h : ∀ target, ¬ Step types type target) :
    follow types type = if followUpTo.isDefined types type then some type else none := by
  refine Option.ext fun last ↦ ?_
  rw [follow_eq_some_iff, Option.ite_none_right_eq_some, Option.some.injEq]
  constructor
  · rintro ⟨hchain, -, hdefined⟩
    obtain rfl | ⟨next, hstep, -⟩ := Relation.ReflTransGen.cases_head hchain
    · exact ⟨hdefined, rfl⟩
    · exact absurd hstep (h next)
  · rintro ⟨hdefined, rfl⟩
    exact ⟨.refl, h, hdefined⟩

/-- An alias that stands for nothing is not followed to an end. -/
theorem follow_eq_none_of_loops {type : TypeRef} (h : Loops types type) :
    follow types type = none := by
  refine Option.eq_none_iff_forall_ne_some.2 fun last hlast ↦ ?_
  obtain ⟨hchain, hend, -⟩ := follow_eq_some_iff.1 hlast
  have hreach : Relation.ReflTransGen (Unfold types) type last :=
    Relation.ReflTransGen.mono (fun _ _ ↦ .aliasOf) _ _ hchain
  obtain ⟨target, hstep, -⟩ := Relation.TransGen.head'_iff.1 (h.reach hreach)
  exact hend target hstep

/-- The names that were visited lead to where the loop is. So if it is at one of them, that one
leads to itself, and there is no end. -/
theorem loop_eq_of_visited {answer : TypeRef → β} {otherwise : β} {visited : List String}
    {type : TypeRef} (h : ∀ name ∈ visited, Relation.TransGen (Step types) (.reference name) type) :
    loop types answer otherwise visited type = (follow types type).elim otherwise answer := by
  fun_induction loop types answer otherwise visited type with
  | case1 visited name hvisited =>
    rw [follow_eq_none_of_loops (h name hvisited), Option.elim_none]
  | case2 visited name _ hfind =>
    have hend (target : TypeRef) : ¬ Step types (.reference name) target := by
      rintro ⟨hfound⟩
      cases hfind.symm.trans hfound
    rw [follow_of_not_step hend]
    simp [followUpTo.isDefined, Table.contains, hfind]
  | case3 visited name _ target hfind ih =>
    have hstep : Step types (.reference name) target := .intro hfind
    rw [follow_of_step hstep]
    exact ih (List.forall_mem_cons.2
      ⟨.single hstep, fun other hother ↦ .tail (h other hother) hstep⟩)
  | case4 visited name _ typeDef halias hfind =>
    have hend (target : TypeRef) : ¬ Step types (.reference name) target := by
      rintro ⟨hfound⟩
      exact halias target (Option.some.inj (hfind.symm.trans hfound))
    rw [follow_of_not_step hend]
    simp [followUpTo.isDefined, Table.contains, hfind]
  | case5 visited type hinline =>
    cases type with
    | reference name => exact absurd rfl (hinline name)
    | _ =>
      rw [follow_of_not_step (by rintro target ⟨⟩)]
      rfl

/-- A loop that begins with no name visited answers for the end of the chain if there is one. -/
theorem loop_nil (answer : TypeRef → β) (otherwise : β) (type : TypeRef) :
    loop types answer otherwise [] type = (follow types type).elim otherwise answer :=
  loop_eq_of_visited (List.forall_mem_nil _)

/-- The bound on the number of steps gives the same end as a set of visited names. -/
theorem follow_eq_loop (type : TypeRef) : follow types type = loop types some none [] type := by
  rw [loop_nil]
  cases follow types type with
  | none => rfl
  | some last => rfl

def isStringScalar : TypeRef → Bool
  | .scalar .string => true
  | _ => false

/-- Whether a chain ends in the string scalar is asked by such a loop. -/
theorem isString_eq_loop (type : TypeRef) :
    isString types type = loop types isStringScalar false [] type := by
  rw [loop_nil, isString]
  cases follow types type with
  | none => rfl
  | some last =>
    cases last with
    | scalar kind => cases kind <;> rfl
    | _ => rfl

/-- The name of a variant, if the type is one. -/
def variantName? (types : List (String × TypeDef)) : TypeRef → Option String
  | .reference name =>
    match Table.find? name types with
    | some (.variant _) => some name
    | _ => none
  | _ => none

/-- Which variant a chain ends in is asked by such a loop. -/
theorem variant?_eq_loop (type : TypeRef) :
    variant? types type = loop types (variantName? types) none [] type := by
  rw [loop_nil, variant?]
  cases follow types type with
  | none => rfl
  | some last =>
    cases last with
    | reference name => rfl
    | _ => rfl

/-! ### Back to the beginning -/

theorem length_unvisited_of_next? {name next : String} {visited : List String}
    (hnext : next? types name = some next) (h : name ∉ visited) :
    (Table.unvisited types (name :: visited)).length <
      (Table.unvisited types visited).length := by
  obtain ⟨hfind⟩ := next?_eq_some_iff.1 hnext
  exact Table.length_unvisited_cons_lt hfind h

/-- A loop that goes from each name to the name that it stands for, until one of them comes again,
and asks whether that is the given one. -/
def comesBack (types : List (String × TypeDef)) (name : String) (visited : List String)
    (current : String) : Bool :=
  if _ : current ∈ visited then current = name
  else
    match _ : next? types current with
    | none => false
    | some next => comesBack types name (current :: visited) next
termination_by (Table.unvisited types visited).length
decreasing_by exact length_unvisited_of_next? ‹_› ‹_›

/-- If the loop comes back to where it began, it has gone in a circle. -/
theorem loops_of_comesBack {name current : String} {visited : List String}
    (hvisited : ∀ other ∈ visited,
      Relation.TransGen (Step types) (.reference other) (.reference current))
    (h : comesBack types name visited current = true) : Loops types (.reference name) := by
  fun_induction comesBack types name visited current with
  | case1 visited current hmem =>
    obtain rfl := of_decide_eq_true h
    exact hvisited current hmem
  | case2 => cases h
  | case3 visited current _ next hnext ih =>
    have hstep := next?_eq_some_iff.1 hnext
    refine ih (List.forall_mem_cons.2 ⟨.single hstep, fun other hother ↦ ?_⟩) h
    exact .tail (hvisited other hother) hstep

/-- A shortest way to the name is gone to its end, if the other names that were visited are farther
away. -/
theorem comesBack_of_leadsIn {name current : String} {visited : List String} {n : Nat}
    (h : LeadsIn types n (.reference current) (.reference name))
    (hshortest : ∀ m < n, ¬ LeadsIn types m (.reference current) (.reference name))
    (hname : name ∈ visited)
    (hvisited : ∀ other ∈ visited, other ≠ name → ∀ m ≤ n,
      ¬ LeadsIn types m (.reference other) (.reference name)) :
    comesBack types name visited current = true := by
  -- every step comes nearer to the name, so none of those that were left on the way is met again
  fun_induction comesBack types name visited current generalizing n with
  | case1 visited current hmem =>
    by_contra hne
    exact hvisited current hmem (fun heq ↦ hne (decide_eq_true heq)) n (Nat.le_refl n) h
  | case2 visited current hmem hnext =>
    cases n with
    | zero =>
      cases leadsIn_zero_iff.1 h
      exact absurd hname hmem
    | succ n =>
      obtain ⟨next, hnext', -⟩ := exists_next?_of_leadsIn h
      cases hnext.symm.trans hnext'
  | case3 visited current hmem next hnext ih =>
    have hstep := next?_eq_some_iff.1 hnext
    cases n with
    | zero =>
      cases leadsIn_zero_iff.1 h
      exact absurd hname hmem
    | succ n =>
      obtain ⟨next', hnext', hrest⟩ := exists_next?_of_leadsIn h
      cases hnext.symm.trans hnext'
      refine ih hrest (fun m hm hlead ↦ ?_) (List.mem_cons_of_mem current hname)
        (List.forall_mem_cons.2 ⟨fun _ m hm ↦ ?_, fun other hother hne m hm ↦ ?_⟩)
      · exact hshortest (m + 1) (Nat.succ_lt_succ hm) (.next hstep hlead)
      · exact hshortest m (Nat.lt_succ_of_le hm)
      · exact hvisited other hother hne m (Nat.le_succ_of_le hm)

/-- The first name to come again is the first of all exactly if that one stands for itself. -/
theorem isCycle_eq_comesBack (types : List (String × TypeDef)) (name : String) :
    isCycle types name = comesBack types name [] name := by
  rw [Bool.eq_iff_iff, isCycle_iff]
  refine ⟨fun hloop ↦ ?_, loops_of_comesBack (List.forall_mem_nil _)⟩
  obtain ⟨n, hn⟩ := loops_iff_leadsIn.1 hloop
  obtain ⟨next, hnext, hrest⟩ := exists_next?_of_leadsIn hn
  -- the first step is taken by hand: from there on the name itself is among the visited ones
  classical
  have hway : ∃ m, LeadsIn types m (.reference next) (.reference name) := ⟨n, hrest⟩
  have hback : comesBack types name [name] next = true :=
    comesBack_of_leadsIn (Nat.find_spec hway) (fun m hm ↦ Nat.find_min hway hm)
      (List.mem_singleton_self name)
      fun other hother hne ↦ absurd (List.mem_singleton.1 hother) hne
  rw [comesBack, dif_neg List.not_mem_nil]
  split
  · rename_i hnone
    cases hnext.symm.trans hnone
  · rename_i next' hnext'
    cases hnext.symm.trans hnext'
    exact hback

example : (["a", "b", "c"].map fun name ↦ isCycle
    [("a", .aliasOf (.reference "b")), ("b", .aliasOf (.reference "c")),
      ("c", .aliasOf (.reference "b"))] name) = [false, true, true] := by decide

end Alias

namespace Client

variable {types : List (String × TypeDef)}

/-! ### What a definition holds -/

/-- The types that a definition holds, in order. -/
def held : TypeDef → List TypeRef
  | .record fields => fields.map Member.type
  | .variant cases => cases.filterMap Case.payload
  | .bytes length => [.bytes length]
  | .aliasOf target => [target]

/-- The list has what a definition holds. -/
theorem mem_held_iff {typeDef : TypeDef} {type : TypeRef} :
    type ∈ held typeDef ↔ HeldBy typeDef type := by
  constructor
  · intro h
    cases typeDef with
    | record fields =>
      obtain ⟨field, hfield, rfl⟩ := List.mem_map.1 h
      exact .field hfield
    | variant cases =>
      obtain ⟨case, hcase, hpayload⟩ := List.mem_filterMap.1 h
      exact .payload hcase hpayload
    | bytes length =>
      obtain rfl := List.mem_singleton.1 h
      exact .bytes length
    | aliasOf target =>
      obtain rfl := List.mem_singleton.1 h
      exact .target type
  · rintro (hfield | ⟨hcase, hpayload⟩ | _ | _)
    · exact List.mem_map_of_mem hfield
    · exact List.mem_filterMap.2 ⟨_, hcase, hpayload⟩
    · exact List.mem_singleton_self _
    · exact List.mem_singleton_self _

theorem definitionHoldsBytes_eq_any (named : String → Bool) (typeDef : TypeDef) :
    definitionHoldsBytes named typeDef = (held typeDef).any (holdsBytes named) := by
  rw [Bool.eq_iff_iff, definitionHoldsBytes_iff, List.any_eq_true]
  simp only [mem_held_iff]

/-- A record holds the same whether it is defined or inline. -/
theorem holdsBytes_record (named : String → Bool) (fields : List Field) :
    holdsBytes named (.record fields) = (held (.record fields)).any (holdsBytes named) := by
  rw [holdsBytes, ← definitionHoldsBytes_eq_any, definitionHoldsBytes]

/-! ### The search -/

/-- The types in a record are smaller than it, also in front of others. -/
theorem sizeOf_held_append_le (fields : List Field) (pending : List TypeRef) :
    sizeOf (held (.record fields) ++ pending) ≤ sizeOf fields + sizeOf pending := by
  rw [held]
  induction fields with
  | nil =>
    rw [List.map_nil, List.nil_append]
    omega
  | cons field fields ih =>
    obtain ⟨name, type, nullable⟩ := field
    simp only [List.map_cons, List.cons_append, List.cons.sizeOf_spec, Member.mk.sizeOf_spec]
    omega

theorem sizeOf_lt_cons (type : TypeRef) (pending : List TypeRef) :
    sizeOf pending < sizeOf (type :: pending) := by
  rw [List.cons.sizeOf_spec]
  omega

/-- A search for a byte sequence that keeps the names it visited and looks only once at what they
hold. It looks into the first type first, and into the others if it finds nothing there. -/
def search (types : List (String × TypeDef)) (visited : List String) :
    (pending : List TypeRef) → Bool
  | [] => false
  | .bytes _ :: _ => true
  | .scalar _ :: pending => search types visited pending
  | .list items :: pending => search types visited (items :: pending)
  | .map _ value :: pending => search types visited (value :: pending)
  | .record fields :: pending => search types visited (held (.record fields) ++ pending)
  | .reference name :: pending =>
    if _ : name ∈ visited then search types visited pending
    else
      match _ : Table.find? name types with
      | none => search types (name :: visited) pending
      | some typeDef => search types (name :: visited) (held typeDef ++ pending)
termination_by pending => ((Table.unvisited types visited).length, sizeOf pending)
decreasing_by
  · exact .right _ (sizeOf_lt_cons ..)
  · refine .right _ ?_
    simp only [List.cons.sizeOf_spec, TypeRef.list.sizeOf_spec]
    omega
  · refine .right _ ?_
    simp only [List.cons.sizeOf_spec, TypeRef.map.sizeOf_spec]
    omega
  · refine .right _ ((sizeOf_held_append_le fields _).trans_lt ?_)
    rw [List.cons.sizeOf_spec, TypeRef.record.sizeOf_spec]
    omega
  · exact .right _ (sizeOf_lt_cons ..)
  · exact Prod.Lex.right' _ (Table.length_unvisited_cons_le ..) (sizeOf_lt_cons ..)
  · exact .left _ _ (Table.length_unvisited_cons_lt ‹_› ‹_›)

/-- What the search finds is in one of the types, for names that count if their definitions do. -/
theorem any_holdsBytes_of_search {named : String → Bool}
    (hclosed : ∀ name typeDef, Table.find? name types = some typeDef →
      definitionHoldsBytes named typeDef = true → named name = true)
    {visited : List String} {pending : List TypeRef}
    (h : search types visited pending = true) : pending.any (holdsBytes named) = true := by
  fun_induction search types visited pending with
  | case1 => cases h
  | case2 visited length pending => rw [List.any_cons, holdsBytes, Bool.true_or]
  | case3 visited kind pending ih => rw [List.any_cons, ih h, Bool.or_true]
  | case4 visited items pending ih => rw [List.any_cons, holdsBytes, ← List.any_cons, ih h]
  | case5 visited key value pending ih => rw [List.any_cons, holdsBytes, ← List.any_cons, ih h]
  | case6 visited fields pending ih =>
    rw [List.any_cons, holdsBytes_record, ← List.any_append, ih h]
  | case7 visited name pending _ ih => rw [List.any_cons, ih h, Bool.or_true]
  | case8 visited name pending _ _ ih => rw [List.any_cons, ih h, Bool.or_true]
  | case9 visited name pending _ typeDef hfind ih =>
    rw [List.any_cons, holdsBytes, Bool.or_eq_true]
    obtain hheld | hpending := Bool.or_eq_true_iff.1 (List.any_append.symm.trans (ih h))
    · rw [← definitionHoldsBytes_eq_any] at hheld
      exact .inl (hclosed name typeDef hfind hheld)
    · exact .inr hpending

/-- The types hold no byte sequence and no names but the visited ones, and neither do the
definitions of those that were not visited before. -/
structure Settled (types : List (String × TypeDef)) (before visited : List String)
    (pending : List TypeRef) : Prop where
  subset : before ⊆ visited
  pending : pending.any (holdsBytes (· ∉ visited)) = false
  held : ∀ name ∈ visited, name ∉ before → ∀ typeDef, Table.find? name types = some typeDef →
    definitionHoldsBytes (· ∉ visited) typeDef = false

section Settled

variable {name : String} {before visited : List String} {pending others : List TypeRef}

/-- It matters only what is seen in the types, not how they are written. -/
theorem Settled.of_any_eq (h : Settled types before visited pending)
    (heq : ∀ named, others.any (holdsBytes named) = pending.any (holdsBytes named)) :
    Settled types before visited others :=
  { h with pending := (heq _).trans h.pending }

/-- A name that was visited may be put to the types. -/
theorem Settled.cons_visited (h : Settled types before visited pending) (hname : name ∈ visited) :
    Settled types before visited (.reference name :: pending) where
  subset := h.subset
  pending := by
    rw [List.any_cons, h.pending, holdsBytes, Bool.or_false, decide_eq_false (not_not.2 hname)]
  held := h.held

/-- A name is no longer one of those from before once its definition is found to hold no byte
sequence and none but visited names. -/
theorem Settled.visit (h : Settled types (name :: before) visited pending)
    (hheld : ∀ typeDef, Table.find? name types = some typeDef →
      definitionHoldsBytes (· ∉ visited) typeDef = false) :
    Settled types before visited pending where
  subset := (List.cons_subset.1 h.subset).2
  pending := h.pending
  held := by
    intro other hother hnew
    by_cases heq : other = name
    · subst heq
      exact hheld
    · exact h.held other hother (List.not_mem_cons_of_ne_of_not_mem heq hnew)

end Settled

/-- A search that finds nothing visits all names that it meets. -/
theorem exists_settled_of_search {visited : List String} {pending : List TypeRef}
    (h : search types visited pending = false) :
    ∃ after, Settled types visited after pending := by
  fun_induction search types visited pending with
  | case1 visited =>
    exact ⟨visited, List.Subset.refl _, rfl, fun name hname hnew ↦ absurd hname hnew⟩
  | case2 => cases h
  | case3 visited kind pending ih =>
    obtain ⟨after, hafter⟩ := ih h
    exact ⟨after, hafter.of_any_eq fun named ↦ by rw [List.any_cons, holdsBytes, Bool.false_or]⟩
  | case4 visited items pending ih =>
    obtain ⟨after, hafter⟩ := ih h
    exact ⟨after, hafter.of_any_eq fun named ↦ by rw [List.any_cons, holdsBytes, List.any_cons]⟩
  | case5 visited key value pending ih =>
    obtain ⟨after, hafter⟩ := ih h
    exact ⟨after, hafter.of_any_eq fun named ↦ by rw [List.any_cons, holdsBytes, List.any_cons]⟩
  | case6 visited fields pending ih =>
    obtain ⟨after, hafter⟩ := ih h
    exact ⟨after, hafter.of_any_eq fun named ↦ by
      rw [List.any_cons, holdsBytes_record, List.any_append]⟩
  | case7 visited name pending hname ih =>
    obtain ⟨after, hafter⟩ := ih h
    exact ⟨after, hafter.cons_visited (hafter.subset hname)⟩
  -- the recursive call takes the name for one from before; here its definition is looked at
  | case8 visited name pending _ hfind ih =>
    obtain ⟨after, hafter⟩ := ih h
    refine ⟨after, (hafter.visit fun typeDef hfound ↦ ?_).cons_visited
      (hafter.subset List.mem_cons_self)⟩
    cases hfind.symm.trans hfound
  | case9 visited name pending _ typeDef hfind ih =>
    obtain ⟨after, hafter⟩ := ih h
    have hpending := hafter.pending
    rw [List.any_append, Bool.or_eq_false_iff, ← definitionHoldsBytes_eq_any] at hpending
    have hrest : Settled types (name :: visited) after pending :=
      { hafter with pending := hpending.2 }
    refine ⟨after, (hrest.visit fun found hfound ↦ ?_).cons_visited
      (hafter.subset List.mem_cons_self)⟩
    cases hfind.symm.trans hfound
    exact hpending.1

/-- No round finds a name that was visited in vain. -/
theorem Settled.not_mem_visited {visited : List String} {pending : List TypeRef}
    (h : Settled types [] visited pending) (hnd : (Table.names types).Nodup) {rounds : Nat}
    {name : String} (hname : name ∈ bytesNamesAfter types rounds) : name ∉ visited := by
  induction rounds generalizing name with
  | zero => cases hname
  | succ rounds ih =>
    intro hvisited
    obtain ⟨typeDef, hfind, hholds⟩ := (mem_bytesNamesAfter_succ_iff hnd).1 hname
    have hnew : definitionHoldsBytes (· ∉ visited) typeDef = true :=
      definitionHoldsBytes_mono (fun other hother ↦
        decide_eq_true (ih (List.contains_iff_mem.1 hother))) hholds
    rw [h.held name hvisited List.not_mem_nil typeDef hfind] at hnew
    cases hnew

/-- Rounds over the whole table find the same as a search with one set of visited names. -/
theorem isBinary_eq_search (hnd : (Table.names types).Nodup) (type : TypeRef) :
    isBinary types type = search types [] [type] := by
  cases hsearch : search types [] [type] with
  | true =>
    have hany := any_holdsBytes_of_search (contains_bytesNames_of_holds hnd) hsearch
    rwa [List.any_cons, List.any_nil, Bool.or_false] at hany
  | false =>
    obtain ⟨visited, hsettled⟩ := exists_settled_of_search hsearch
    have hpending := hsettled.pending
    rw [List.any_cons, List.any_nil, Bool.or_false] at hpending
    rw [← Bool.not_eq_true, isBinary]
    intro hholds
    have hnew : holdsBytes (· ∉ visited) type = true :=
      holdsBytes_mono (fun other hother ↦
        decide_eq_true (hsettled.not_mem_visited hnd (List.contains_iff_mem.1 hother))) hholds
    rw [hpending] at hnew
    cases hnew

end Client

end AbiBindings
