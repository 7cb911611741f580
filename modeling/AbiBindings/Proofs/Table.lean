import AbiBindings.Table
import Mathlib.Data.List.Nodup

/-!
# Lookup in tables

What `find?` and `contains` see of a table is its list of names, and with each name its first value.
The table that entries build has the last value of each name (`find?_ofEntries`). A table without
repeated names is what its entries build (`ofEntries_eq_self`), and there a lookup gives exactly the
entries (`find?_eq_some_iff`), in whatever order they stand (`find?_perm`). A loop that visits
entries and none of them twice comes to an end, since each one that it visits leaves fewer
(`length_unvisited_cons_lt`).
-/

namespace AbiBindings.Table

variable {α β : Type}

@[simp] theorem names_cons (name : String) (value : α) (entries : List (String × α)) :
    names ((name, value) :: entries) = name :: names entries := rfl

theorem mem_names_iff {name : String} {entries : List (String × α)} :
    name ∈ names entries ↔ ∃ value, (name, value) ∈ entries := by
  simp [names]

/-! ### Lookup -/

theorem find?_isSome_iff {name : String} {entries : List (String × α)} :
    (find? name entries).isSome ↔ name ∈ names entries := by
  induction entries with
  | nil => simp [find?, names]
  | cons entry entries ih =>
    obtain ⟨n, a⟩ := entry
    by_cases h : n = name
    · simp [find?, h]
    · simp [find?, h, ih, Ne.symm h]

theorem contains_iff {name : String} {entries : List (String × α)} :
    contains name entries = true ↔ name ∈ names entries :=
  find?_isSome_iff

theorem exists_find?_eq_some {name : String} {entries : List (String × α)}
    (h : name ∈ names entries) : ∃ value, find? name entries = some value :=
  Option.isSome_iff_exists.1 (find?_isSome_iff.2 h)

theorem mem_of_find?_eq_some {name : String} {value : α} {entries : List (String × α)}
    (h : find? name entries = some value) : (name, value) ∈ entries := by
  induction entries with
  | nil => simp [find?] at h
  | cons entry entries ih =>
    obtain ⟨n, a⟩ := entry
    by_cases hn : n = name
    · rw [find?, if_pos hn, Option.some.injEq] at h
      rw [hn, h]
      exact List.mem_cons_self
    · rw [find?, if_neg hn] at h
      exact List.mem_cons_of_mem _ (ih h)

/-- Without repeated names, the entries are the lookups. -/
theorem find?_eq_some_iff {name : String} {value : α} {entries : List (String × α)}
    (hnd : (names entries).Nodup) : find? name entries = some value ↔ (name, value) ∈ entries := by
  refine ⟨mem_of_find?_eq_some, fun hmem ↦ ?_⟩
  induction entries with
  | nil => simp at hmem
  | cons entry entries ih =>
    obtain ⟨n, a⟩ := entry
    rw [names_cons, List.nodup_cons] at hnd
    rcases List.mem_cons.1 hmem with heq | hmem
    · obtain ⟨rfl, rfl⟩ := Prod.mk.inj heq
      rw [find?, if_pos rfl]
    · have hne : n ≠ name := fun h ↦ hnd.1 (h ▸ mem_names_iff.2 ⟨value, hmem⟩)
      rw [find?, if_neg hne]
      exact ih hnd.2 hmem

/-- Without repeated names, the order of the entries makes no difference to a lookup. -/
theorem find?_perm {entries others : List (String × α)} (h : entries.Perm others)
    (hnd : (names entries).Nodup) (name : String) : find? name entries = find? name others := by
  have hndOthers : (names others).Nodup := (h.map Prod.fst).nodup_iff.1 hnd
  refine Option.ext fun value ↦ ?_
  rw [find?_eq_some_iff hnd, find?_eq_some_iff hndOthers, h.mem_iff]

theorem find?_append (name : String) (entries more : List (String × α)) :
    find? name (entries ++ more) = (find? name entries).or (find? name more) := by
  induction entries with
  | nil => rfl
  | cons entry entries ih =>
    obtain ⟨n, a⟩ := entry
    rw [List.cons_append, find?, find?]
    split
    · rfl
    · exact ih

/-! ### Tables built from entries -/

theorem find?_insert (name other : String) (value : α) (entries : List (String × α)) :
    find? other (insert name value entries) =
      if name = other then some value else find? other entries := by
  induction entries with
  | nil => rfl
  | cons entry entries ih =>
    obtain ⟨n, a⟩ := entry
    rw [insert]
    by_cases hn : n = name
    · subst hn
      rw [if_pos rfl, find?, find?]
      split <;> rfl
    · rw [if_neg hn, find?, find?, ih]
      by_cases hother : name = other
      · subst hother
        rw [if_neg hn, if_pos rfl, if_pos rfl]
      · rw [if_neg hother, if_neg hother]

/-- Of the entries with one name, the table that they build has the last. -/
theorem find?_ofEntries (name : String) (entries : List (String × α)) :
    find? name (ofEntries entries) = find? name entries.reverse := by
  -- what the table has so far counts only for names that do not come again
  have hfold (front : List (String × α)) :
      find? name (entries.foldl (fun table entry ↦ insert entry.1 entry.2 table) front) =
        (find? name entries.reverse).or (find? name front) := by
    induction entries generalizing front with
    | nil => rfl
    | cons entry entries ih =>
      obtain ⟨n, a⟩ := entry
      rw [List.foldl_cons, ih, find?_insert, List.reverse_cons, find?_append, Option.or_assoc]
      congr 1
      rw [find?]
      split <;> rfl
  exact (hfold []).trans (Option.or_none ..)

example : find? "a" (ofEntries [("a", 1), ("b", 2), ("a", 3)]) = some 3 ∧
    find? "a" [("a", 1), ("b", 2), ("a", 3)] = some 1 := by decide

theorem insert_of_not_mem {name : String} {value : α} {entries : List (String × α)}
    (h : name ∉ names entries) : insert name value entries = entries ++ [(name, value)] := by
  induction entries with
  | nil => rfl
  | cons entry entries ih =>
    obtain ⟨n, a⟩ := entry
    rw [names_cons, List.mem_cons, not_or] at h
    rw [insert, if_neg (Ne.symm h.1), ih h.2]
    rfl

/-- Inserting entries whose names do not come again puts them at the end, in order. -/
theorem foldl_insert (front : List (String × α)) {rest : List (String × α)}
    (hnd : (names (front ++ rest)).Nodup) :
    rest.foldl (fun table entry ↦ insert entry.1 entry.2 table) front = front ++ rest := by
  induction rest generalizing front with
  | nil => simp
  | cons entry rest ih =>
    obtain ⟨n, a⟩ := entry
    have hfresh : n ∉ names front := by
      intro hmem
      rw [names, List.map_append, List.nodup_append] at hnd
      exact hnd.2.2 n hmem n (by simp) rfl
    rw [List.foldl_cons, insert_of_not_mem hfresh, ih _ (by simpa using hnd)]
    simp

/-- Entries with distinct names build the table that lists them. -/
theorem ofEntries_eq_self {entries : List (String × α)} (hnd : (names entries).Nodup) :
    ofEntries entries = entries :=
  foldl_insert [] hnd

/-- The names of values listed against names. -/
theorem names_zip {keys : List String} {values : List β} (h : keys.length = values.length) :
    names (keys.zip values) = keys :=
  List.map_fst_zip (Nat.le_of_eq h)

/-! ### Names not visited yet -/

/-- The names of a table that were not visited. -/
def unvisited (entries : List (String × α)) (visited : List String) : List String :=
  (names entries).filter fun name ↦ name ∉ visited

theorem unvisited_cons (entries : List (String × α)) (name : String) (visited : List String) :
    unvisited entries (name :: visited) =
      (unvisited entries visited).filter fun other ↦ other ≠ name := by
  rw [unvisited, unvisited, List.filter_filter]
  refine List.filter_congr fun other _ ↦ ?_
  simp only [List.mem_cons, not_or, ne_eq, Bool.decide_and]

theorem length_unvisited_cons_le (entries : List (String × α)) (name : String)
    (visited : List String) :
    (unvisited entries (name :: visited)).length ≤ (unvisited entries visited).length := by
  rw [unvisited_cons]
  exact List.length_filter_le ..

/-- Visiting an entry of the table for the first time leaves fewer of them. -/
theorem length_unvisited_cons_lt {entries : List (String × α)} {visited : List String}
    {name : String} {value : α} (hfind : find? name entries = some value) (h : name ∉ visited) :
    (unvisited entries (name :: visited)).length < (unvisited entries visited).length := by
  have hname : name ∈ names entries := mem_names_iff.2 ⟨value, mem_of_find?_eq_some hfind⟩
  rw [unvisited_cons, List.length_filter_lt_length_iff_exists]
  exact ⟨name, List.mem_filter.2 ⟨hname, decide_eq_true h⟩, by simp⟩

end AbiBindings.Table
