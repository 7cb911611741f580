import AbiBindings.Proofs.TypeScript.NeutralText
import Mathlib.Data.List.Nodup
import Mathlib.Data.List.Perm.Subperm

/-!
# Allocated names

`NameSet.fresh` searches one candidate more than there are names in the set. Candidates for
different numbers are different texts, so one of them is free and the search never falls back on the
base (`fresh_not_mem`).

`NameSet.Allocates` is a run of allocations: a name for each base in turn, each taken before the
next one is looked for. What holds of a run is that its names are distinct, that none of them was
taken before, and that all of them are taken afterwards. Runs are put together by
`Allocates.append`, so it does not matter which part of a program makes which part of the run, as
long as the set is handed on.

Bases of a run are identifiers, and a number at the end keeps a text one. The reserved words are in
lower case: a capital letter, a digit or an underscore anywhere keeps a text apart from all of them
(`not_isReserved_of_mem`).
-/

namespace AbiBindings.TypeScript

/-! ### Identifiers -/

/-- All reserved words are in lower case, so a name with a digit or an underscore is none. -/
theorem isLower_of_isReserved {text : String} (h : isReserved text = true) :
    ∀ c ∈ text.toList, c.isLower = true := by
  have hwords : reservedWords.all (fun word ↦ word.toList.all Char.isLower) =
      true := by simp [reservedWords]
  exact List.all_eq_true.1 (List.all_eq_true.1 hwords text (List.contains_iff_mem.1 h))

/-- A character that is no small letter keeps a text apart from the reserved words. -/
theorem not_isReserved_of_mem {text : String} {c : Char} (hc : c ∈ text.toList)
    (hlower : c.isLower = false) : isReserved text = false := by
  by_contra h
  have hreserved : isReserved text = true := by simpa using h
  have hmem := isLower_of_isReserved hreserved c hc
  rw [hlower] at hmem
  exact absurd hmem (by decide)

theorem isIdentifierStart_of_isIdentifierChar {c : Char} (h : isIdentifierChar c = true)
    (hdigit : c.isDigit = false) : isIdentifierStart c = true := by
  simpa [isIdentifierChar, isIdentifierStart, Char.isAlphanum, hdigit] using h

/-- A word starts with a character that can start one and goes on with any characters of names. -/
theorem isWord_cons_iff {c : Char} {cs : List Char} :
    isWord (c :: cs) = true ↔ isIdentifierStart c = true ∧ ∀ d ∈ cs, isIdentifierChar d = true := by
  rw [isWord, Bool.and_eq_true_iff, List.all_eq_true]

/-- Every text is made into a word: other characters are replaced, and a first digit gets an
underscore. -/
theorem isWord_wordOf (text : List Char) : isWord (wordOf text) = true := by
  have hchars := isName_wordOf text
  unfold wordOf at hchars ⊢
  generalize text.map (fun c ↦ if isIdentifierChar c then c else '_') = mapped at hchars ⊢
  cases mapped with
  | nil => rfl
  | cons c cs =>
    dsimp only at hchars ⊢
    by_cases hdigit : c.isDigit = true
    · rw [if_pos hdigit] at hchars ⊢
      exact isWord_cons_iff.2 ⟨rfl, fun d hd ↦ hchars d (List.mem_cons_of_mem _ hd)⟩
    · rw [if_neg hdigit] at hchars ⊢
      have hstart := isIdentifierStart_of_isIdentifierChar (hchars c List.mem_cons_self)
        (by simpa using hdigit)
      exact isWord_cons_iff.2 ⟨hstart, fun d hd ↦ hchars d (List.mem_cons_of_mem _ hd)⟩

/-- A word may go on with characters that could not start it. -/
theorem isWord_append {front back : List Char} (hfront : isWord front = true)
    (hback : ∀ c ∈ back, isIdentifierChar c = true) : isWord (front ++ back) = true := by
  cases front with
  | nil => exact absurd hfront (by decide)
  | cons c cs =>
    obtain ⟨hstart, hrest⟩ := isWord_cons_iff.1 hfront
    exact isWord_cons_iff.2 ⟨hstart, List.forall_mem_append.2 ⟨hrest, hback⟩⟩

/-- An identifier goes on with characters of identifiers, one of which is no small letter. -/
theorem isIdentifier_append {text more : String} (h : isIdentifier text = true)
    (hmore : IsName more) {c : Char} (hc : c ∈ more.toList) (hlower : c.isLower = false) :
    isIdentifier (text ++ more) = true := by
  have hword := isWord_append (Bool.and_eq_true_iff.1 h).1 hmore
  have hreserved : isReserved (text ++ more) = false :=
    not_isReserved_of_mem (by rw [String.toList_append]; exact List.mem_append_right _ hc) hlower
  rw [isIdentifier, String.toList_append, hword, hreserved]
  rfl

/-- Every text is made into an identifier. A word that is reserved gets an underscore, with which it
is not. -/
theorem isIdentifier_identifier (text : String) : isIdentifier (identifier text) = true := by
  have hword : isWord (String.ofList (wordOf text.toList)).toList = true := by
    rw [String.toList_ofList]
    exact isWord_wordOf text.toList
  rw [identifier]
  split
  · -- an underscore is in no reserved word
    have hscore : '_' ∈ (String.ofList (wordOf text.toList) ++ "_").toList := by simp
    have hname : IsName "_" := by decide
    rw [isIdentifier, not_isReserved_of_mem hscore rfl, String.toList_append,
      isWord_append hword hname]
    rfl
  · rename_i hreserved
    rw [isIdentifier, hword, Bool.eq_false_iff.2 hreserved]
    rfl

/-- What is replaced becomes an underscore, so a word without one was not changed. -/
theorem wordOf_eq_of_not_mem {text : List Char} (h : '_' ∉ wordOf text) : wordOf text = text := by
  have hmapped : wordOf text = text.map fun c ↦ if isIdentifierChar c then c else '_' := by
    unfold wordOf at h ⊢
    split at h
    · exact absurd List.mem_cons_self h
    · rename_i c cs heq
      split at h
      · exact absurd List.mem_cons_self h
      · rename_i hdigit
        rw [heq, if_neg hdigit]
  rw [hmapped] at h ⊢
  refine (List.map_congr_left fun c hc ↦ ?_).trans (List.map_id text)
  by_cases hchar : isIdentifierChar c = true
  · exact if_pos hchar
  · refine absurd ?_ h
    exact List.mem_map.2 ⟨c, hc, if_neg hchar⟩

/-- Making an identifier leaves an underscore wherever it changes a text. -/
theorem eq_of_identifier_eq {text word : String} (h : identifier text = word)
    (hword : '_' ∉ word.toList) : text = word := by
  rw [identifier] at h
  split at h
  · rw [← h, String.toList_append] at hword
    exact absurd (List.mem_append_right _ List.mem_cons_self) hword
  · rw [← h, String.toList_ofList] at hword
    rw [← h, wordOf_eq_of_not_mem hword, String.ofList_toList]

namespace NameSet

/-! ### Candidates -/

/-- Numbers are told apart by their digits. -/
theorem toDigits_injective : Function.Injective (Nat.toDigits 10) := by
  intro n m h
  have hvalue := congrArg (fun digits ↦ Nat.ofDigitChars 10 digits 0) h
  simpa using hvalue

/-- The candidates for a name are told apart: the first has no number, and the others end with
different numbers. -/
theorem candidate_injective (base : String) : Function.Injective (candidate base) := by
  have hlist (k : Nat) : (candidate base (k + 1)).toList = base.toList ++
      Nat.toDigits 10 (k + 2) := by
    simp [candidate]
  -- a number is never empty, so the base is no candidate with a number
  have hbase (k : Nat) : candidate base (k + 1) ≠ base := by
    intro h
    have hnil := hlist k
    rw [h, List.self_eq_append_right] at hnil
    exact Nat.toDigits_ne_nil hnil
  intro j k h
  rcases j with _ | j <;> rcases k with _ | k
  · rfl
  · exact absurd h.symm (hbase k)
  · exact absurd h (hbase j)
  · have hdigits : Nat.toDigits 10 (j + 2) = Nat.toDigits 10 (k + 2) := by
      have := congrArg String.toList h
      rw [hlist, hlist] at this
      exact List.append_cancel_left this
    have := toDigits_injective hdigits
    omega

theorem isLower_eq_false_of_isDigit {c : Char} (h : c.isDigit = true) : c.isLower = false := by
  have hlower : c.isLower = (decide (97 ≤ c.val) && decide (c.val ≤ 122)) := rfl
  have hdigit : c.val ≤ 57 := of_decide_eq_true (Bool.and_eq_true_iff.1 h).2
  have hlt : ¬ 97 ≤ c.val := fun hle ↦ absurd (UInt32.le_trans hle hdigit) (by decide)
  rw [hlower, decide_eq_false hlt, Bool.false_and]

/-- A number makes no identifier into a reserved word, since these have no digits. -/
theorem isIdentifier_candidate {base : String} (h : isIdentifier base = true) (k : Nat) :
    isIdentifier (candidate base k) = true := by
  cases k with
  | zero => exact h
  | succ k =>
    obtain ⟨c, cs, hcs⟩ := List.exists_cons_of_ne_nil (Nat.toDigits_ne_nil (b := 10) (n := k + 2))
    have hc : c ∈ (toString (k + 2)).toList := by simp [hcs]
    have hdigit : c.isDigit = true :=
      Nat.isDigit_of_mem_toDigits (by decide) (by decide) (hcs ▸ List.mem_cons_self)
    exact isIdentifier_append h (isName_toString _) hc (isLower_eq_false_of_isDigit hdigit)

/-! ### Taking names -/

theorem contains_iff {set : NameSet} {name : String} :
    set.contains name = true ↔ name ∈ set.names :=
  List.contains_iff_mem

theorem mem_insert_iff {set : NameSet} {name other : String} :
    other ∈ (set.insert name).names ↔ other = name ∨ other ∈ set.names := by
  rw [insert]
  split
  · rename_i h
    have hmem := contains_iff.1 h
    exact ⟨Or.inr, fun hor ↦ hor.elim (fun heq ↦ heq ▸ hmem) id⟩
  · exact List.mem_cons

/-- Inserting names keeps those that were there. -/
theorem mem_foldl_insert_iff {names : List String} {set : NameSet} {name : String} :
    name ∈ (names.foldl insert set).names ↔ name ∈ names ∨ name ∈ set.names := by
  induction names generalizing set with
  | nil => simp
  | cons first names ih =>
    rw [List.foldl_cons, ih, mem_insert_iff, List.mem_cons]
    tauto

theorem mem_ofList_iff {names : List String} {name : String} :
    name ∈ (ofList names).names ↔ name ∈ names := by
  rw [ofList, mem_foldl_insert_iff]
  simp

/-- One of the candidates that are looked at is free: they are more than there are names to take
them. -/
theorem exists_free (set : NameSet) (base : String) :
    ∃ k ∈ List.range (set.names.length + 1), candidate base k ∉ set.names := by
  by_contra h
  push Not at h
  have hsub : (List.range (set.names.length + 1)).map (candidate base) ⊆ set.names := by
    intro name hname
    obtain ⟨k, hk, rfl⟩ := List.mem_map.1 hname
    exact h k hk
  have hnodup : ((List.range (set.names.length + 1)).map (candidate base)).Nodup :=
    List.nodup_range.map (candidate_injective base)
  have hlength := (hnodup.subperm hsub).length_le
  rw [List.length_map, List.length_range] at hlength
  omega

/-- The search stops at a free candidate, and all candidates before it are taken. -/
theorem exists_fresh_least (set : NameSet) (base : String) :
    ∃ k, set.fresh base = candidate base k ∧ candidate base k ∉ set.names ∧
      ∀ j < k, candidate base j ∈ set.names := by
  obtain ⟨k, hk, hfree⟩ := set.exists_free base
  rw [fresh]
  split
  · rename_i j hj
    obtain ⟨hfound, i, hi, hval, hbefore⟩ := List.find?_eq_some_iff_getElem.1 hj
    obtain rfl : i = j := by simpa using hval
    refine ⟨i, rfl, fun hmem ↦ by simp [contains_iff.2 hmem] at hfound, fun m hm ↦ ?_⟩
    exact contains_iff.1 (by simpa using hbefore m hm)
  · rename_i hnone
    have hall := List.find?_eq_none.1 hnone k hk
    exact absurd (contains_iff.1 (by simpa using hall)) hfree

/-- A fresh name is one of the candidates, and free. -/
theorem exists_fresh_eq (set : NameSet) (base : String) :
    ∃ k, set.fresh base = candidate base k ∧ candidate base k ∉ set.names := by
  obtain ⟨k, heq, hfree, -⟩ := set.exists_fresh_least base
  exact ⟨k, heq, hfree⟩

/-- A fresh name is not in the set. -/
theorem fresh_not_mem (set : NameSet) (base : String) : set.fresh base ∉ set.names := by
  obtain ⟨k, heq, hfree⟩ := set.exists_fresh_eq base
  rwa [heq]

/-- A fresh name is an identifier if the one that was asked for is. -/
theorem isIdentifier_fresh (set : NameSet) {base : String} (h : isIdentifier base = true) :
    isIdentifier (set.fresh base) = true := by
  obtain ⟨k, heq, -⟩ := set.exists_fresh_eq base
  rw [heq]
  exact isIdentifier_candidate h k

/-! ### Runs of allocations -/

theorem length_allocate (set : NameSet) (bases : List String) :
    (set.allocate bases).1.length = bases.length := by
  induction bases generalizing set with
  | nil => rfl
  | cons base bases ih => exact congrArg (· + 1) (ih _)

/-- From one set to another, the names are allocated in turn, each for a base that is an
identifier. -/
inductive Allocates : NameSet → List String → NameSet → Prop
  | done (set : NameSet) : Allocates set [] set
  | next {set after : NameSet} {base : String} {names : List String}
    (hbase : isIdentifier base = true)
    (rest : Allocates (set.insert (set.fresh base)) names after) :
    Allocates set (set.fresh base :: names) after

namespace Allocates

variable {set middle after : NameSet} {names more : List String}

/-- Allocations that follow each other are one. -/
theorem append (h : Allocates set names middle) (hmore : Allocates middle more after) :
    Allocates set (names ++ more) after := by
  induction h with
  | done set => exact hmore
  | next hbase _ ih => exact .next hbase (ih hmore)

/-- No name that was in the set before is given. -/
theorem not_mem_set (h : Allocates set names after) : ∀ name ∈ names, name ∉ set.names := by
  induction h with
  | done set => exact nofun
  | @next set after base names _ _ ih =>
    refine List.forall_mem_cons.2 ⟨set.fresh_not_mem base, fun name hname hmem ↦ ?_⟩
    exact ih name hname (mem_insert_iff.2 (Or.inr hmem))

/-- No name is given twice. -/
theorem nodup (h : Allocates set names after) : names.Nodup := by
  induction h with
  | done set => exact List.nodup_nil
  | next _ rest ih =>
    -- the first name is taken when the others are looked for
    refine List.nodup_cons.2 ⟨fun hmem ↦ ?_, ih⟩
    exact rest.not_mem_set _ hmem (mem_insert_iff.2 (Or.inl rfl))

theorem isIdentifier (h : Allocates set names after) :
    ∀ name ∈ names, isIdentifier name = true := by
  induction h with
  | done set => exact nofun
  | @next set after base names hbase _ ih =>
    exact List.forall_mem_cons.2 ⟨set.isIdentifier_fresh hbase, ih⟩

end Allocates

/-- What `allocate` does is an allocation, name by name. -/
theorem allocates_allocate (set : NameSet) {bases : List String}
    (h : ∀ base ∈ bases, isIdentifier base = true) :
    Allocates set (set.allocate bases).1 (set.allocate bases).2 := by
  induction bases generalizing set with
  | nil => exact .done set
  | cons base bases ih =>
    obtain ⟨hbase, hbases⟩ := List.forall_mem_cons.1 h
    exact .next hbase (ih _ hbases)

end NameSet

end AbiBindings.TypeScript
