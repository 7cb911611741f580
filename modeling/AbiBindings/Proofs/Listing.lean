import Mathlib.Data.List.Lex
import Mathlib.Data.List.Sort

/-!
# Exact listings

Many results are lists that leave nothing out, add nothing and keep an order. `ListsInOrder R as`
says that `as` lists exactly the values that `R` places, one entry for each place and in the order
of the places. There is at most one such list (`ListsInOrder.unique`).

A place of a tree is a list of numbers, which tell at each node which way to go. Lists of numbers
are ordered lexicographically and a node comes before what is below it, so the order of places is
the order in which the tree is walked. `ListsInOrder.under`, `append` and `flatMap` follow such a
walk.
-/

namespace AbiBindings

variable {ι α β : Type}

/-- The list has one entry for each place of a value, in the order of the places. -/
def ListsInOrder [LT ι] (R : ι → α → Prop) (as : List α) : Prop :=
  ∃ found : List (ι × α), as = found.map Prod.snd ∧ (found.map Prod.fst).Pairwise (· < ·) ∧
    ∀ place a, (place, a) ∈ found ↔ R place a

namespace ListsInOrder

section Order

variable [LT ι] {R S : ι → α → Prop} {as bs : List α}

theorem congr (h : ListsInOrder R as) (hRS : ∀ place a, R place a ↔ S place a) :
    ListsInOrder S as := by
  obtain ⟨found, heq, hsorted, hall⟩ := h
  exact ⟨found, heq, hsorted, fun place a ↦ (hall place a).trans (hRS place a)⟩

theorem mem_iff (h : ListsInOrder R as) {a : α} : a ∈ as ↔ ∃ place, R place a := by
  obtain ⟨found, rfl, -, hall⟩ := h
  rw [List.mem_map]
  constructor
  · rintro ⟨⟨place, b⟩, hmem, rfl⟩
    exact ⟨place, (hall place b).1 hmem⟩
  · rintro ⟨place, hR⟩
    exact ⟨(place, a), (hall place a).2 hR, rfl⟩

theorem eq_nil_iff (h : ListsInOrder R as) : as = [] ↔ ∀ place a, ¬ R place a := by
  rw [List.eq_nil_iff_forall_not_mem]
  constructor
  · intro hnot place a hR
    exact hnot a (h.mem_iff.2 ⟨place, hR⟩)
  · intro hnot a hmem
    obtain ⟨place, hR⟩ := h.mem_iff.1 hmem
    exact hnot place a hR

/-- There is only one exact listing. -/
theorem unique [Std.Asymm (α := ι) (· < ·)] (h : ListsInOrder R as) (h' : ListsInOrder R bs) :
    as = bs := by
  obtain ⟨found, rfl, hsorted, hall⟩ := h
  obtain ⟨found', rfl, hsorted', hall'⟩ := h'
  rw [List.pairwise_map] at hsorted hsorted'
  have hasymm : Std.Antisymm (α := ι × α) fun e e' ↦ e.1 < e'.1 :=
    ⟨fun e e' hlt hgt ↦ absurd hgt (Std.Asymm.asymm _ _ hlt)⟩
  have hirrefl : Std.Irrefl (α := ι × α) fun e e' ↦ e.1 < e'.1 :=
    ⟨fun e hlt ↦ Std.Asymm.asymm _ _ hlt hlt⟩
  rw [hsorted.eq_of_mem_iff hsorted' fun e ↦ (hall e.1 e.2).trans (hall' e.1 e.2).symm]

/-- Nothing is listed where nothing has a place. -/
theorem nil (h : ∀ place a, ¬ R place a) : ListsInOrder R [] :=
  ⟨[], rfl, List.Pairwise.nil, fun place a ↦ by simp [h place a]⟩

/-- One value at one place. -/
theorem singleton (place : ι) (a : α) : ListsInOrder (fun p b ↦ p = place ∧ b = a) [a] :=
  ⟨[(place, a)], rfl, by simp, fun p b ↦ by simp⟩

/-- Listings whose places come one after the other. -/
theorem append (hR : ListsInOrder R as) (hS : ListsInOrder S bs)
    (hlt : ∀ p a q b, R p a → S q b → p < q) :
    ListsInOrder (fun place a ↦ R place a ∨ S place a) (as ++ bs) := by
  obtain ⟨front, rfl, hfront, hfrontAll⟩ := hR
  obtain ⟨back, rfl, hback, hbackAll⟩ := hS
  refine ⟨front ++ back, by rw [List.map_append], ?_, fun place a ↦ ?_⟩
  · rw [List.map_append, List.pairwise_append]
    refine ⟨hfront, hback, fun p hp q hq ↦ ?_⟩
    obtain ⟨⟨p, a⟩, hpa, rfl⟩ := List.mem_map.1 hp
    obtain ⟨⟨q, b⟩, hqb, rfl⟩ := List.mem_map.1 hq
    exact hlt p a q b ((hfrontAll p a).1 hpa) ((hbackAll q b).1 hqb)
  · rw [List.mem_append, hfrontAll, hbackAll]

/-- Picking from a listing. -/
theorem filterMap (h : ListsInOrder R as) (pick : α → Option β) :
    ListsInOrder (fun place b ↦ ∃ a, R place a ∧ pick a = some b) (as.filterMap pick) := by
  obtain ⟨found, rfl, hsorted, hall⟩ := h
  refine ⟨found.filterMap fun entry ↦ (pick entry.2).map fun b ↦ (entry.1, b), ?_, ?_,
    fun place b ↦ ?_⟩
  · rw [List.filterMap_map, List.map_filterMap]
    refine congrArg (fun f ↦ found.filterMap f) (funext fun entry ↦ ?_)
    cases h : pick entry.2 <;> simp [h]
  · rw [List.pairwise_map] at hsorted ⊢
    refine hsorted.filterMap _ fun entry entry' hlt b hb b' hb' ↦ ?_
    obtain ⟨_, -, rfl⟩ := Option.map_eq_some_iff.1 hb
    obtain ⟨_, -, rfl⟩ := Option.map_eq_some_iff.1 hb'
    exact hlt
  · rw [List.mem_filterMap]
    constructor
    · rintro ⟨⟨p, a⟩, hmem, hpick⟩
      obtain ⟨b', hb', heq⟩ := Option.map_eq_some_iff.1 hpick
      obtain ⟨rfl, rfl⟩ := Prod.mk.inj heq
      exact ⟨a, (hall p a).1 hmem, hb'⟩
    · rintro ⟨a, hR, hpick⟩
      exact ⟨(place, a), (hall place a).2 hR, by simp [hpick]⟩

/-- The values of a listing, changed one by one. -/
theorem map (h : ListsInOrder R as) (f : α → β) :
    ListsInOrder (fun place b ↦ ∃ a, R place a ∧ f a = b) (as.map f) := by
  rw [← List.filterMap_eq_map]
  refine (h.filterMap _).congr fun place b ↦ exists_congr fun a ↦ ?_
  rw [Function.comp_apply, Option.some.injEq]

end Order

/-! ### Places in a tree -/

variable {R S : List Nat → α → Prop} {as bs : List α}

/-- What is below a node, as seen from the node. -/
theorem under (k : Nat) (h : ListsInOrder R as) :
    ListsInOrder (fun place a ↦ ∃ rest, place = k :: rest ∧ R rest a) as := by
  obtain ⟨found, rfl, hsorted, hall⟩ := h
  refine ⟨found.map fun entry ↦ (k :: entry.1, entry.2), by simp [Function.comp_def], ?_,
    fun place a ↦ ?_⟩
  · rw [List.pairwise_map] at hsorted
    rw [List.map_map, List.pairwise_map]
    exact hsorted.imp fun hlt ↦ List.cons_lt_cons_iff.2 (Or.inr ⟨rfl, hlt⟩)
  · rw [List.mem_map]
    constructor
    · rintro ⟨⟨rest, b⟩, hmem, heq⟩
      obtain ⟨rfl, rfl⟩ := Prod.mk.inj heq
      exact ⟨rest, rfl, (hall rest b).1 hmem⟩
    · rintro ⟨rest, rfl, hR⟩
      exact ⟨(rest, a), (hall rest a).2 hR, rfl⟩

/-- A node, followed by what is below it. -/
theorem cons (a : α) (h : ListsInOrder R as) (hR : ∀ place b, R place b → place ≠ []) :
    ListsInOrder (fun place b ↦ (place = [] ∧ b = a) ∨ R place b) (a :: as) := by
  refine append (singleton [] a) h ?_
  rintro p b q c ⟨rfl, -⟩ hq
  cases q with
  | nil => exact absurd rfl (hR _ _ hq)
  | cons k q => exact List.nil_lt_cons k q

/-- The listings of the members of a list, numbered by the members. -/
theorem flatMap {σ : Type} {T : σ → List Nat → α → Prop} {list : σ → List α} (xs : List σ)
    (h : ∀ x ∈ xs, ListsInOrder (T x) (list x)) :
    ListsInOrder (fun place a ↦ ∃ i rest x, place = i :: rest ∧ xs[i]? = some x ∧ T x rest a)
      (xs.flatMap list) := by
  -- the induction needs members that are numbered from any number on
  suffices hfrom : ∀ k, ListsInOrder
      (fun place a ↦ ∃ i rest x, place = (k + i) :: rest ∧ xs[i]? = some x ∧ T x rest a)
      (xs.flatMap list) by
    exact (hfrom 0).congr fun place a ↦ by simp only [Nat.zero_add]
  induction xs with
  | nil =>
    intro k
    refine nil ?_
    rintro place a ⟨i, rest, x, -, hx, -⟩
    simp at hx
  | cons x xs ih =>
    intro k
    have hhead := (h x List.mem_cons_self).under k
    have htail := ih (fun y hy ↦ h y (List.mem_cons_of_mem x hy)) (k + 1)
    rw [List.flatMap_cons]
    refine (append hhead htail ?_).congr fun place a ↦ ⟨?_, ?_⟩
    · rintro p a q b ⟨rest, rfl, -⟩ ⟨i, rest', y, rfl, -⟩
      exact List.cons_lt_cons_iff.2 (Or.inl (by omega))
    · rintro (⟨rest, rfl, hT⟩ | ⟨i, rest, y, rfl, hy, hT⟩)
      · exact ⟨0, rest, x, rfl, rfl, hT⟩
      · exact ⟨i + 1, rest, y, by rw [Nat.add_assoc, Nat.add_comm 1 i], by simpa using hy, hT⟩
    · rintro ⟨i, rest, y, rfl, hy, hT⟩
      cases i with
      | zero =>
        obtain rfl : x = y := by simpa using hy
        exact Or.inl ⟨rest, rfl, hT⟩
      | succ i =>
        exact Or.inr ⟨i, rest, y, by rw [Nat.add_assoc, Nat.add_comm 1 i], by simpa using hy, hT⟩

end ListsInOrder

end AbiBindings
