import AbiBindings.Manifest.Check
import AbiBindings.Proofs.Listing
import Mathlib.Data.List.Nodup

/-!
# Repeated names

`Document.repeated` goes once through a list of names with two records: the names seen, and those
known to be repeated. The scan is described by *second occurrences*: a name has one exactly when it
occurs at least twice (`exists_secondAt_iff`), and then has only one (`secondAt_unique`). So a list
of the second occurrences in order is a list of the repeated names, each once.

The invariant of the scan is on the part of the list that is done (`Records`): `seen` are the names
in it and `found` those that occur in it at least twice. The next name is a first, a second or a
later occurrence.
-/

namespace AbiBindings.Document

/-- The second occurrence of a name is at an index. -/
def SecondAt (names : List String) (index : Nat) (name : String) : Prop :=
  names[index]? = some name ∧ (names.take index).count name = 1

/-- The list has exactly the names that occur at least twice, each once, in the order of their
second occurrences. -/
structure ListsRepeated (names found : List String) : Prop where
  mem_iff : ∀ name, name ∈ found ↔ 2 ≤ names.count name
  nodup : found.Nodup
  inOrder : ListsInOrder (SecondAt names) found

/-! ### Second occurrences -/

/-- Every occurrence but those before it is somewhere: `k` occurrences come before one of them. -/
theorem exists_occurrence {names : List String} {name : String} {k : Nat}
    (h : k < names.count name) : ∃ i, names[i]? = some name ∧ (names.take i).count name = k := by
  induction names generalizing k with
  | nil => simp at h
  | cons n names ih =>
    by_cases hn : n = name
    · subst hn
      cases k with
      | zero => exact ⟨0, by simp, by simp⟩
      | succ k =>
        rw [List.count_cons_self] at h
        obtain ⟨i, hi, hcount⟩ := ih (k := k) (by omega)
        exact ⟨i + 1, by simpa using hi, by simp [hcount]⟩
    · rw [List.count_cons_of_ne hn] at h
      obtain ⟨i, hi, hcount⟩ := ih h
      exact ⟨i + 1, by simpa using hi, by simp [List.count_cons_of_ne hn, hcount]⟩

theorem count_take_succ {names : List String} {i : Nat} {name : String}
    (h : names[i]? = some name) :
    (names.take (i + 1)).count name = (names.take i).count name + 1 := by
  rw [List.take_add_one, h, Option.toList_some, List.count_append, List.count_singleton_self]

theorem exists_secondAt_iff {names : List String} {name : String} :
    (∃ i, SecondAt names i name) ↔ 2 ≤ names.count name := by
  constructor
  · rintro ⟨i, hi, hcount⟩
    have hle : (names.take (i + 1)).count name ≤ names.count name :=
      (List.take_sublist _ _).count_le name
    rw [count_take_succ hi, hcount] at hle
    exact hle
  · intro h
    exact exists_occurrence h

theorem secondAt_unique {names : List String} {name : String} {i j : Nat}
    (hi : SecondAt names i name) (hj : SecondAt names j name) : i = j := by
  -- two occurrences at different places have different numbers of occurrences before them
  have hlt : ∀ {i j : Nat}, SecondAt names i name → SecondAt names j name → ¬ i < j := by
    intro i j hi hj hij
    have hle : (names.take (i + 1)).count name ≤ (names.take j).count name :=
      (List.take_sublist_take_left hij).count_le name
    rw [count_take_succ hi.1, hi.2, hj.2] at hle
    omega
  have h₁ := hlt hi hj
  have h₂ := hlt hj hi
  omega

/-! ### The scan -/

/-- One step of the scan over the name after those that are done. -/
theorem secondAt_append_cons {done names : List String} {n : String} {i : Nat} {name : String} :
    done.length ≤ i ∧ SecondAt (done ++ n :: names) i name ↔
      (i = done.length ∧ n = name ∧ done.count n = 1) ∨
        ((done ++ [n]).length ≤ i ∧ SecondAt ((done ++ [n]) ++ names) i name) := by
  rw [List.append_assoc, List.singleton_append, List.length_append, List.length_singleton]
  constructor
  · rintro ⟨hle, hsecond⟩
    rcases Nat.eq_or_lt_of_le hle with rfl | hlt
    · obtain ⟨hget, hcount⟩ := hsecond
      rw [List.getElem?_append_right (Nat.le_refl _), Nat.sub_self, List.getElem?_cons_zero,
        Option.some.injEq] at hget
      rw [List.take_left, ← hget] at hcount
      exact Or.inl ⟨rfl, hget, hcount⟩
    · exact Or.inr ⟨hlt, hsecond⟩
  · rintro (⟨rfl, rfl, hcount⟩ | ⟨hle, hsecond⟩)
    · exact ⟨Nat.le_refl _, by simp, by rw [List.take_left]; exact hcount⟩
    · exact ⟨by omega, hsecond⟩

/-- Only a second occurrence makes a name repeated. -/
theorem two_le_count_snoc {done : List String} {name : String} (h : done.count name ≠ 1)
    (n : String) : 2 ≤ (done ++ [name]).count n ↔ 2 ≤ done.count n := by
  rw [List.count_append, List.count_singleton]
  by_cases hn : name = n
  · subst hn
    simp only [BEq.rfl, if_true]
    omega
  · simp [hn]

/-- Where the next name is no second occurrence, the second occurrences from there on are those
after it. -/
theorem secondAt_append_cons_of_ne {done names : List String} {n : String}
    (h : done.count n ≠ 1) {i : Nat} {name : String} :
    done.length ≤ i ∧ SecondAt (done ++ n :: names) i name ↔
      (done ++ [n]).length ≤ i ∧ SecondAt ((done ++ [n]) ++ names) i name := by
  rw [secondAt_append_cons]
  exact ⟨fun h' ↦ h'.resolve_left fun h'' ↦ h h''.2.2, Or.inr⟩

/-- The two records of the scan, for the names that are done. -/
structure Records (done seen found : List String) : Prop where
  mem_seen : ∀ name, name ∈ seen ↔ name ∈ done
  mem_found : ∀ name, name ∈ found ↔ 2 ≤ done.count name

namespace Records

variable {done seen found : List String} (h : Records done seen found) {name : String}
include h

theorem count_eq_zero (hmem : name ∉ seen) : done.count name = 0 := by
  rw [List.count_eq_zero, ← h.mem_seen]
  exact hmem

theorem count_eq_one (hmem : name ∈ seen) (hknown : name ∉ found) : done.count name = 1 := by
  have hpos : 0 < done.count name := List.count_pos_iff.2 ((h.mem_seen name).1 hmem)
  have hlt : ¬ 2 ≤ done.count name := (h.mem_found name).not.1 hknown
  omega

theorem mem_seen_snoc (hmem : name ∈ seen) (other : String) :
    other ∈ seen ↔ other ∈ done ++ [name] := by
  rw [List.mem_append, List.mem_singleton, h.mem_seen]
  exact ⟨Or.inl, fun hother ↦ hother.elim id fun heq ↦ heq ▸ (h.mem_seen name).1 hmem⟩

/-- A name that was not seen is seen then. -/
theorem first (hmem : name ∉ seen) : Records (done ++ [name]) (name :: seen) found := by
  have hne : done.count name ≠ 1 := by
    rw [h.count_eq_zero hmem]
    decide
  constructor
  · intro other
    rw [List.mem_cons, List.mem_append, List.mem_singleton, h.mem_seen, or_comm]
  · intro other
    rw [two_le_count_snoc hne, h.mem_found]

/-- A name that was seen once is repeated then. -/
theorem second (hmem : name ∈ seen) (hknown : name ∉ found) :
    Records (done ++ [name]) seen (name :: found) := by
  refine ⟨h.mem_seen_snoc hmem, fun other ↦ ?_⟩
  rw [List.mem_cons, List.count_append, List.count_singleton, h.mem_found]
  by_cases heq : name = other
  · subst heq
    simp [h.count_eq_one hmem hknown]
  · simp [heq, Ne.symm heq]

/-- A name that is known to be repeated changes nothing. -/
theorem later (hmem : name ∈ seen) (hknown : name ∈ found) :
    Records (done ++ [name]) seen found := by
  have hle : 2 ≤ done.count name := (h.mem_found name).1 hknown
  refine ⟨h.mem_seen_snoc hmem, fun other ↦ ?_⟩
  rw [two_le_count_snoc (by omega), h.mem_found]

end Records

/-- The scan lists the second occurrences among the names that are not done. -/
theorem listsInOrder_repeatedFrom {done seen found : List String} (h : Records done seen found)
    (names : List String) :
    ListsInOrder (fun i n ↦ done.length ≤ i ∧ SecondAt (done ++ names) i n)
      (repeatedFrom seen found names) := by
  induction names generalizing done seen found with
  | nil =>
    refine .nil ?_
    rintro i n ⟨hle, hget, -⟩
    rw [List.append_nil, List.getElem?_eq_none hle] at hget
    cases hget
  | cons name names ih =>
    by_cases hmem : name ∈ seen
    · by_cases hknown : name ∈ found
      · have hle : 2 ≤ done.count name := (h.mem_found name).1 hknown
        rw [repeatedFrom, if_pos hmem, if_pos hknown]
        exact (ih (h.later hmem hknown)).congr fun i n ↦
          (secondAt_append_cons_of_ne (by omega)).symm
      · -- the name is listed, and its place comes before those of the rest
        have hone := h.count_eq_one hmem hknown
        rw [repeatedFrom, if_pos hmem, if_neg hknown]
        refine (ListsInOrder.append (.singleton done.length name)
          (ih (h.second hmem hknown)) ?_).congr fun i n ↦ ?_
        · rintro i n j m ⟨rfl, -⟩ ⟨hle, -⟩
          rw [List.length_append, List.length_singleton] at hle
          exact hle
        · rw [secondAt_append_cons]
          refine or_congr_left ⟨?_, ?_⟩
          · rintro ⟨rfl, rfl⟩
            exact ⟨rfl, rfl, hone⟩
          · rintro ⟨rfl, rfl, -⟩
            exact ⟨rfl, rfl⟩
    · have hzero := h.count_eq_zero hmem
      rw [repeatedFrom, if_neg hmem]
      exact (ih (h.first hmem)).congr fun i n ↦ (secondAt_append_cons_of_ne (by omega)).symm

/-! ### The repeated names -/

/-- The scan lists exactly the second occurrences. -/
theorem listsInOrder_repeated (names : List String) :
    ListsInOrder (SecondAt names) (repeated names) :=
  have hnone : Records [] [] [] := ⟨by simp, by simp⟩
  (listsInOrder_repeatedFrom hnone names).congr fun i n ↦ by simp

theorem mem_repeated_iff {names : List String} {name : String} :
    name ∈ repeated names ↔ 2 ≤ names.count name := by
  rw [(listsInOrder_repeated names).mem_iff, exists_secondAt_iff]

theorem repeated_nodup (names : List String) : (repeated names).Nodup := by
  obtain ⟨seconds, heq, hsorted, hall⟩ := listsInOrder_repeated names
  rw [List.pairwise_map] at hsorted
  rw [heq, List.Nodup, List.pairwise_map]
  refine hsorted.imp_of_mem fun {a b} ha hb hlt hname ↦ ?_
  have hsame : a.1 = b.1 := by
    refine secondAt_unique ((hall a.1 a.2).1 ha) ?_
    rw [hname]
    exact (hall b.1 b.2).1 hb
  omega

theorem listsRepeated_iff {names found : List String} :
    ListsRepeated names found ↔ ListsInOrder (SecondAt names) found := by
  refine ⟨ListsRepeated.inOrder, fun h ↦ ?_⟩
  obtain rfl := h.unique (listsInOrder_repeated names)
  exact ⟨fun _ ↦ mem_repeated_iff, repeated_nodup names, h⟩

theorem repeated_eq_nil_iff {names : List String} : repeated names = [] ↔ names.Nodup := by
  rw [List.eq_nil_iff_forall_not_mem, List.nodup_iff_count_le_one]
  refine forall_congr' fun name ↦ ?_
  rw [mem_repeated_iff]
  omega

end AbiBindings.Document
