import AbiBindings.Proofs.TypeScript.Allocation
import Mathlib.Order.Bounds.Basic

/-!
# What a run of allocations gives

Whatever is taken at the start and whatever the bases are, each base has its turn with the names of
the start and the names given so far taken (`TakenBefore`). Its name is the base if that is free.
Otherwise numbers are tried from two on, one after the other and without a bound; `SearchEnds` is a
search that comes to its end, which it does at the least number that makes the name free
(`searchEnds_iff`).

`fresh` looks at finitely many candidates only, and this is no restriction (`firstFree_fresh`): that
the search without a bound ends rests on `exists_free`, as there are more candidates than taken
names. All else about a run follows from what each name is: a name is not taken before it is given,
so it differs from those of the start and from the ones given before it.
-/

namespace AbiBindings.TypeScript.NameSet

/-! ### The search for a number -/

/-- Trying one number after the other, from the given one on, ends with a name that is not taken. -/
inductive SearchEnds (taken : String → Prop) (base : String) : Nat → String → Prop
  | free {k : Nat} (hfree : ¬ taken (base ++ toString k)) :
    SearchEnds taken base k (base ++ toString k)
  | next {k : Nat} {name : String} (htaken : taken (base ++ toString k))
    (rest : SearchEnds taken base (k + 1) name) :
    SearchEnds taken base k name

/-- The numbers, from the given one on, that make the base a free name. -/
def freeNumbers (taken : String → Prop) (base : String) (start : Nat) : Set Nat :=
  {k | start ≤ k ∧ ¬ taken (base ++ toString k)}

variable {taken : String → Prop} {base name : String}

/-- A number that is taken may be left out of the search for the least one that is free. -/
theorem isLeast_freeNumbers_succ {start k : Nat} (htaken : taken (base ++ toString start)) :
    IsLeast (freeNumbers taken base (start + 1)) k ↔ IsLeast (freeNumbers taken base start) k := by
  have hset : freeNumbers taken base (start + 1) = freeNumbers taken base start := by
    ext j
    refine and_congr_left fun hfree ↦ ⟨Nat.le_of_succ_le, fun hle ↦ ?_⟩
    refine Nat.lt_of_le_of_ne hle ?_
    rintro rfl
    exact hfree htaken
  rw [hset]

/-- A search ends exactly with the least number that makes the name free. -/
theorem searchEnds_iff {start : Nat} :
    SearchEnds taken base start name ↔
      ∃ k, IsLeast (freeNumbers taken base start) k ∧ name = base ++ toString k := by
  constructor
  · intro h
    induction h with
    | @free k hfree => exact ⟨k, ⟨⟨le_rfl, hfree⟩, fun j hj ↦ hj.1⟩, rfl⟩
    | next htaken _ ih =>
      obtain ⟨k, hleast, rfl⟩ := ih
      exact ⟨k, (isLeast_freeNumbers_succ htaken).1 hleast, rfl⟩
  · rintro ⟨k, hleast, rfl⟩
    -- the search goes up to `k`, so the induction is on what is left to it
    induction hgap : k - start generalizing start with
    | zero =>
      obtain rfl : k = start := le_antisymm (Nat.sub_eq_zero_iff_le.1 hgap) hleast.1.1
      exact .free hleast.1.2
    | succ gap ih =>
      have htaken : taken (base ++ toString start) := by
        by_contra hfree
        have hle := hleast.2 ⟨le_rfl, hfree⟩
        omega
      exact .next htaken (ih ((isLeast_freeNumbers_succ htaken).2 hleast) (by omega))

/-! ### The name for one base -/

/-- The name is the base if that is free, and otherwise the base with the least number from two on
that makes it free, which is where the search ends. -/
structure FirstFree (taken : String → Prop) (base name : String) : Prop where
  of_free : ¬ taken base → name = base
  of_taken : taken base → ∃ k, IsLeast (freeNumbers taken base 2) k ∧ name = base ++ toString k
  search_ends : taken base → SearchEnds taken base 2 name

namespace FirstFree

theorem not_taken (h : FirstFree taken base name) : ¬ taken name := by
  by_cases hbase : taken base
  · obtain ⟨k, hleast, rfl⟩ := h.of_taken hbase
    exact hleast.1.2
  · rw [h.of_free hbase]
    exact hbase

theorem exists_candidate (h : FirstFree taken base name) : ∃ k, name = candidate base k := by
  by_cases hbase : taken base
  · obtain ⟨k, hleast, rfl⟩ := h.of_taken hbase
    obtain ⟨j, rfl⟩ := Nat.exists_eq_add_of_le' hleast.1.1
    exact ⟨j + 1, rfl⟩
  · exact ⟨0, h.of_free hbase⟩

theorem isIdentifier (h : FirstFree taken base name) (hbase : isIdentifier base = true) :
    isIdentifier name = true := by
  obtain ⟨k, rfl⟩ := h.exists_candidate
  exact isIdentifier_candidate hbase k

end FirstFree

/-- A fresh name is the base, or the base with the least number that makes it free. -/
theorem firstFree_fresh (set : NameSet) (base : String) :
    FirstFree (· ∈ set.names) base (set.fresh base) := by
  obtain ⟨k, heq, hfree, hbefore⟩ := set.exists_fresh_least base
  rw [heq]
  cases k with
  | zero =>
    have habsurd {p : Prop} (hbase : base ∈ set.names) : p := absurd hbase hfree
    exact ⟨fun _ ↦ rfl, habsurd, habsurd⟩
  | succ k =>
    have hleast : IsLeast (freeNumbers (· ∈ set.names) base 2) (k + 2) := by
      refine ⟨⟨by omega, hfree⟩, ?_⟩
      rintro j ⟨hj, hjfree⟩
      by_contra hlt
      obtain ⟨i, rfl⟩ := Nat.exists_eq_add_of_le' hj
      exact hjfree (hbefore (i + 1) (by omega))
    refine ⟨fun hbase ↦ absurd (hbefore 0 (Nat.succ_pos k)) hbase,
      fun _ ↦ ⟨k + 2, hleast, rfl⟩, fun _ ↦ ?_⟩
    exact searchEnds_iff.2 ⟨k + 2, hleast, rfl⟩

/-! ### Runs -/

/-- What is taken when the base at a position has its turn: the names of the start and those given
so far. -/
def TakenBefore (set : NameSet) (names : List String) (position : Nat) (name : String) : Prop :=
  name ∈ set.names ∨ name ∈ names.take position

/-- Taking the first name and going on is one step of the run. -/
theorem takenBefore_insert (set : NameSet) (first : String) (names : List String) (position : Nat) :
    TakenBefore (set.insert first) names position =
      TakenBefore set (first :: names) (position + 1) := by
  ext name
  rw [TakenBefore, TakenBefore, mem_insert_iff, List.take_succ_cons, List.mem_cons]
  tauto

/-- Each base has the first free name for it, in its turn. -/
theorem firstFree_allocate (set : NameSet) {bases : List String} {position : Nat}
    (hbase : bases[position]? = some base) :
    ∃ name, (set.allocate bases).1[position]? = some name ∧
      FirstFree (TakenBefore set (set.allocate bases).1 position) base name := by
  induction bases generalizing set position with
  | nil => cases hbase
  | cons first bases ih =>
    cases position with
    | zero =>
      obtain rfl : first = base := Option.some.inj hbase
      have htaken : TakenBefore set (set.allocate (first :: bases)).1 0 = (· ∈ set.names) := by
        ext name
        simp [TakenBefore]
      rw [htaken]
      exact ⟨set.fresh first, rfl, set.firstFree_fresh first⟩
    | succ position =>
      obtain ⟨name, hname, hfirst⟩ := ih (set.insert (set.fresh first)) hbase
      rw [takenBefore_insert] at hfirst
      exact ⟨name, hname, hfirst⟩

theorem mem_allocate_iff (set : NameSet) (bases : List String) :
    name ∈ (set.allocate bases).2.names ↔ name ∈ set.names ∨ name ∈ (set.allocate bases).1 := by
  induction bases generalizing set with
  | nil => exact (or_iff_left List.not_mem_nil).symm
  | cons base bases ih =>
    have hrest := ih (set.insert (set.fresh base))
    rw [mem_insert_iff] at hrest
    rw [allocate, List.mem_cons, hrest]
    tauto

/-- No name is given that was taken before. -/
theorem not_takenBefore_of_allocate (set : NameSet) {bases : List String} {position : Nat}
    (hname : (set.allocate bases).1[position]? = some name) :
    ¬ TakenBefore set (set.allocate bases).1 position name := by
  obtain ⟨hlt, -⟩ := List.getElem?_eq_some_iff.1 hname
  rw [length_allocate] at hlt
  obtain ⟨other, hother, hfirst⟩ := set.firstFree_allocate (List.getElem?_eq_getElem hlt)
  obtain rfl : name = other := Option.some.inj (hname.symm.trans hother)
  exact hfirst.not_taken

theorem nodup_allocate (set : NameSet) (bases : List String) : (set.allocate bases).1.Nodup := by
  refine List.nodup_iff_getElem?_ne_getElem?.2 fun i j hij hj heq ↦ ?_
  -- the name at `j` would have been given at `i` already
  have hname := List.getElem?_eq_getElem hj
  refine set.not_takenBefore_of_allocate hname (.inr ?_)
  exact List.mem_iff_getElem?.2 ⟨i, (List.getElem?_take_of_lt hij).trans (heq.trans hname)⟩

/-- A run of allocations, from any set and for any bases. There is a name for each base, namely the
base if it is free in its turn and otherwise the base with the least number from two on that makes
it free, where the search for such a number ends; it is an identifier if the base is. The names are
distinct, none of them was taken at the start, and taken at the end are the names of the start and
these. -/
theorem allocate_gives_firstFree (set : NameSet) (bases : List String) :
    (set.allocate bases).1.length = bases.length ∧
      (∀ position base, bases[position]? = some base →
        ∃ name, (set.allocate bases).1[position]? = some name ∧
          FirstFree (TakenBefore set (set.allocate bases).1 position) base name ∧
          (isIdentifier base = true → isIdentifier name = true)) ∧
      (set.allocate bases).1.Nodup ∧
      (∀ name ∈ (set.allocate bases).1, name ∉ set.names) ∧
      ∀ name, name ∈ (set.allocate bases).2.names ↔ name ∈ set.names ∨
        name ∈ (set.allocate bases).1 := by
  refine ⟨set.length_allocate bases, fun position base hbase ↦ ?_, set.nodup_allocate bases,
    fun name hname ↦ ?_, fun name ↦ set.mem_allocate_iff bases⟩
  · obtain ⟨name, hname, hfirst⟩ := set.firstFree_allocate hbase
    exact ⟨name, hname, hfirst, hfirst.isIdentifier⟩
  · obtain ⟨position, hposition⟩ := List.mem_iff_getElem?.1 hname
    exact fun hmem ↦ set.not_takenBefore_of_allocate hposition (.inl hmem)

/-- Bases whose names with a number are taken, or are bases themselves. -/
def crowdedBases : List String := ["Foo", "Foo2", "Foo", "class", "Bar"]

theorem allocate_gives_firstFree_crowded :
    ((ofList ["Foo", "Foo3"]).allocate crowdedBases).1 = ["Foo2", "Foo22", "Foo4", "class", "Bar"] ∧
      crowdedBases[2]? = some "Foo" ∧ isIdentifier "Foo" = true ∧
      FirstFree (TakenBefore (ofList ["Foo", "Foo3"]) ["Foo2", "Foo22", "Foo4", "class", "Bar"] 2)
        "Foo" "Foo4" ∧
      isIdentifier "Foo4" = true ∧ "Foo4" ∉ (ofList ["Foo", "Foo3"]).names ∧
      "Foo4" ∈ ((ofList ["Foo", "Foo3"]).allocate crowdedBases).2.names := by
  have hnames : ((ofList ["Foo", "Foo3"]).allocate crowdedBases).1 =
      ["Foo2", "Foo22", "Foo4", "class", "Bar"] := by
    decide +kernel
  have hbase : crowdedBases[2]? = some "Foo" := rfl
  have hid : isIdentifier "Foo" = true := by decide
  obtain ⟨-, hturn, -, hfree, htaken⟩ :=
    allocate_gives_firstFree (ofList ["Foo", "Foo3"]) crowdedBases
  rw [hnames] at hturn hfree htaken
  obtain ⟨name, hname, hfirst, hkeeps⟩ := hturn 2 "Foo" hbase
  obtain rfl : "Foo4" = name := Option.some.inj hname
  have hmem : "Foo4" ∈ ["Foo2", "Foo22", "Foo4", "class", "Bar"] := List.mem_of_getElem? hname
  exact ⟨hnames, hbase, hid, hfirst, hkeeps hid, hfree _ hmem, (htaken _).2 (.inr hmem)⟩

end AbiBindings.TypeScript.NameSet
