import AbiBindings.Files.Tree
import AbiBindings.Proofs.Outcome
import AbiBindings.Proofs.Text.Pieces
import AbiBindings.Proofs.Text.Utf8

/-!
# Writing into a tree of files

A path is followed through directories, so it leads where it led as long as these stay
(`walk_mono`). A file is put at a place that is no directory, so every directory stays one
(`walk_insert`). What was written is there then, and what is at another place is as it was
(`resolve_insert`).

All files of one directory are in the same place: the path of one leads there exactly if the path of
any other does (`exists_leadsTo`). So two of them are at one place only if they have the same name.
-/

namespace AbiBindings.Files.Tree

/-! ### Places -/

section Insert

variable {tree : Tree} {location other : Location} {content : Content}

theorem find?_insert_self (h : location ≠ []) :
    (tree.insert location content).find? location = some content := by
  rw [find?, if_neg h, insert]
  induction tree.entries with
  | nil => simp [insert.set]
  | cons entry entries ih =>
    obtain ⟨l, c⟩ := entry
    rw [insert.set]
    split
    · rename_i heq
      rw [heq, List.lookup_cons_self]
    · rename_i hne
      rw [List.lookup_cons, beq_false_of_ne (Ne.symm hne)]
      exact ih

theorem find?_insert_of_ne (h : other ≠ location) :
    (tree.insert location content).find? other = tree.find? other := by
  rw [find?, find?, insert]
  congr 1
  induction tree.entries with
  | nil => simp [insert.set, List.lookup_cons, beq_false_of_ne h]
  | cons entry entries ih =>
    obtain ⟨l, c⟩ := entry
    rw [insert.set]
    split
    · rename_i heq
      subst heq
      rw [List.lookup_cons, List.lookup_cons, beq_false_of_ne h]
    · rw [List.lookup_cons, List.lookup_cons]
      split
      · rfl
      · exact ih

end Insert

/-! ### Paths -/

theorem enter_eq_ok_iff {tree : Tree} {location : Location} :
    tree.enter location = .ok () ↔ tree.find? location = some .directory := by
  unfold enter
  split <;> simp_all

theorem walk_cons_eq_ok_iff {tree : Tree} {location place : Location} {name : String}
    {names : List String} :
    tree.walk location (name :: names) = .ok place ↔
      tree.find? location = some .directory ∧ tree.walk (step location name) names = .ok place := by
  rw [walk, check_bind_eq_ok_iff, enter_eq_ok_iff]

theorem walk_snoc_eq_ok_iff {tree : Tree} {location place : Location} {names : List String}
    {name : String} :
    tree.walk location (names ++ [name]) = .ok place ↔
      ∃ last, tree.walk location names = .ok last ∧ tree.find? last = some .directory ∧
      step last name = place := by
  induction names generalizing location with
  | nil =>
    rw [List.nil_append, walk_cons_eq_ok_iff]
    simp [walk]
  | cons first names ih => simp [walk_cons_eq_ok_iff, ih, and_assoc]

/-- Paths lead where they led as long as directories stay. -/
theorem walk_mono {tree after : Tree}
    (h : ∀ location, tree.find? location = some .directory → after.find? location = some .directory)
    {location last : Location} {names : List String} (hwalk : tree.walk location names = .ok last) :
    after.walk location names = .ok last := by
  induction names generalizing location with
  | nil => exact hwalk
  | cons name names ih =>
    obtain ⟨hdirectory, hrest⟩ := walk_cons_eq_ok_iff.1 hwalk
    exact walk_cons_eq_ok_iff.2 ⟨h location hdirectory, ih hrest⟩

theorem resolve_eq_ok_iff {tree : Tree} {path : String} {place : Location} {content : Content} :
    tree.resolve path = .ok (place, content) ↔
      path ≠ "" ∧ tree.walk (tree.start path) (pathNames path) = .ok place ∧
      tree.find? place = some content := by
  by_cases hpath : path = ""
  · rw [resolve, if_pos hpath]
    exact iff_of_false (fun h ↦ by cases h) fun h ↦ h.1 hpath
  · rw [resolve, if_neg hpath]
    refine bind_eq_ok_iff.trans ?_
    constructor
    · rintro ⟨location, hwalk, h⟩
      split at h
      · rename_i found hfound
        cases h
        exact ⟨hpath, hwalk, hfound⟩
      · cases h
    · rintro ⟨-, hwalk, hfind⟩
      refine ⟨place, hwalk, ?_⟩
      rw [hfind]
      rfl

theorem pathNames_eq_snoc (path : String) :
    (pathNames path).dropLast ++ [(pathNames path).getLastD ""] = pathNames path := by
  have hne : pathNames path ≠ [] := fun h ↦ Text.pieces_ne_nil _ _ (List.map_eq_nil_iff.1 h)
  rw [List.getLastD_eq_getLast?, List.getLast?_eq_some_getLast hne, Option.getD_some]
  exact List.dropLast_append_getLast hne

/-- Writing puts a file where the path leads, unless a directory is there. -/
theorem writeBytes_eq_ok_iff {tree after : Tree} {path : String} {bytes : List UInt8} :
    tree.writeBytes path bytes = .ok after ↔
      path ≠ "" ∧ ∃ place, tree.walk (tree.start path) (pathNames path) = .ok place ∧
        tree.find? place ≠ some .directory ∧ after = tree.insert place (.file bytes) := by
  by_cases hpath : path = ""
  · rw [writeBytes, if_pos hpath]
    exact iff_of_false (fun h ↦ by cases h) fun h ↦ h.1 hpath
  · rw [writeBytes, if_neg hpath]
    refine bind_eq_ok_iff.trans ?_
    have hnames := pathNames_eq_snoc path
    generalize (pathNames path).dropLast = names, (pathNames path).getLastD "" = name at hnames ⊢
    rw [← hnames]
    simp only [bind_eq_ok_iff, walk_snoc_eq_ok_iff]
    constructor
    · rintro ⟨last, hwalk, ⟨⟩, henter, h⟩
      split at h
      · cases h
      · rename_i hfree
        exact ⟨hpath, step last name, ⟨last, hwalk, enter_eq_ok_iff.1 henter, rfl⟩, hfree,
          (Except.ok.inj h).symm⟩
    · rintro ⟨-, _, ⟨last, hwalk, hlast, rfl⟩, hfree, rfl⟩
      refine ⟨last, hwalk, (), enter_eq_ok_iff.2 hlast, ?_⟩
      split
      · contradiction
      · rfl

/-! ### Writing -/

section Write

variable {tree : Tree} {place : Location} {bytes : List UInt8}
    (hplace : tree.find? place ≠ some .directory)
include hplace

theorem ne_of_directory {location : Location} (h : tree.find? location = some .directory) :
    location ≠ place := by
  rintro rfl
  exact hplace h

/-- Paths lead where they led. -/
theorem walk_insert {location last : Location} {names : List String}
    (h : tree.walk location names = .ok last) :
    (tree.insert place (.file bytes)).walk location names = .ok last := by
  refine walk_mono (fun other hother ↦ ?_) h
  rw [find?_insert_of_ne (ne_of_directory hplace hother), hother]

/-- What is put there is found again. -/
theorem resolve_insert_self {path : String} (hpath : path ≠ "")
    (hwalk : tree.walk (tree.start path) (pathNames path) = .ok place) :
    (tree.insert place (.file bytes)).resolve path = .ok (place, .file bytes) := by
  have hroot : place ≠ [] := (ne_of_directory hplace rfl).symm
  exact resolve_eq_ok_iff.2 ⟨hpath, walk_insert hplace hwalk, find?_insert_self hroot⟩

/-- What is elsewhere is found as it was. -/
theorem resolve_insert {path : String} {location : Location} {content : Content}
    (h : tree.resolve path = .ok (location, content)) (hne : location ≠ place) :
    (tree.insert place (.file bytes)).resolve path = .ok (location, content) := by
  obtain ⟨hpath, hwalk, hfind⟩ := resolve_eq_ok_iff.1 h
  refine resolve_eq_ok_iff.2 ⟨hpath, walk_insert hplace hwalk, ?_⟩
  rw [find?_insert_of_ne hne, hfind]

end Write

/-- The file at the path has exactly the text. -/
def HasText (tree : Tree) (path text : String) : Prop :=
  ∃ place, tree.resolve path = .ok (place, .file (Text.Utf8.encode text))

theorem HasText.readText {tree : Tree} {path text : String} (h : tree.HasText path text) :
    tree.readText path = .ok text := by
  obtain ⟨place, hresolve⟩ := h
  refine bind_eq_ok_iff.2 ⟨_, hresolve, ?_⟩
  dsimp only
  rw [Text.Utf8.decode?_encode]
  rfl

theorem HasText.unique {tree : Tree} {path text other : String} (h : tree.HasText path text)
    (hother : tree.HasText path other) : text = other :=
  Except.ok.inj (h.readText.symm.trans hother.readText)

theorem writeText_eq_ok_iff {tree after : Tree} {path text : String} :
    tree.writeText path text = (after, .ok ()) ↔ tree.writeBytes path (Text.Utf8.encode text) =
      .ok after := by
  unfold writeText
  split <;> simp_all

/-! ### Files of one directory -/

/-- A name that a file can have. -/
structure IsFileName (file : String) : Prop where
  slash : '/' ∉ file.toList
  proper : file ∉ ["", ".", ".."]

theorem IsFileName.step {file : String} (h : IsFileName file) (location : Location) :
    step location file = location ++ [file] := by
  have hproper := h.proper
  simp only [List.mem_cons, List.not_mem_nil, or_false, not_or] at hproper
  obtain ⟨hempty, hdot, hdots⟩ := hproper
  rw [Tree.step, if_neg (not_or.2 ⟨hempty, hdot⟩), if_neg hdots]

theorem IsFileName.pathNames {file : String} (h : IsFileName file) : pathNames file = [file] := by
  have hpieces : Text.pieces (· = '/') file.toList = [file.toList] :=
    Text.pieces_of_forall fun c hc ↦ decide_eq_false fun heq ↦ h.slash (heq ▸ hc)
  rw [Tree.pathNames, hpieces, List.map_singleton, String.ofList_toList]

theorem IsFileName.isAbsolute {file : String} (h : IsFileName file) : isAbsolute file = false := by
  refine decide_eq_false fun heq ↦ h.slash ?_
  exact List.mem_of_mem_head? heq

/-- A directory that is named has a slash between it and its files. -/
theorem exists_join_eq {directory : String} (h : directory ≠ "") :
    ∃ start, ∀ file, IsFileName file → join directory file = String.ofList (start ++
      ['/']) ++ file := by
  by_cases hlast : directory.toList.getLast? = some '/'
  · obtain ⟨start, hstart⟩ := List.getLast?_eq_some_iff.1 hlast
    refine ⟨start, fun file hfile ↦ ?_⟩
    rw [join, hfile.isAbsolute, if_neg Bool.false_ne_true, if_pos (.inr hlast), ← hstart,
      String.ofList_toList]
  · refine ⟨directory.toList, fun file hfile ↦ ?_⟩
    rw [join, hfile.isAbsolute, if_neg Bool.false_ne_true, if_neg (not_or.2 ⟨h, hlast⟩),
      String.ofList_append, String.ofList_toList]

/-- The path of a file in a directory starts like that of any other one there, and has one more
name. -/
theorem exists_names_join (directory : String) :
    ∃ names absolute, ∀ file, IsFileName file →
      pathNames (join directory file) = names ++ [file] ∧
      isAbsolute (join directory file) = absolute := by
  by_cases hempty : directory = ""
  · refine ⟨[], false, fun file hfile ↦ ?_⟩
    have hjoin : join directory file = file := by
      rw [join, hfile.isAbsolute, if_neg Bool.false_ne_true, if_pos (.inl hempty), hempty,
        String.empty_append]
    rw [hjoin]
    exact ⟨hfile.pathNames, hfile.isAbsolute⟩
  · obtain ⟨start, hjoin⟩ := exists_join_eq hempty
    refine ⟨pathNames (String.ofList start), (start ++ ['/']).head? = some '/', fun file hfile ↦ ?_⟩
    have hchars : (join directory file).toList = start ++ '/' :: file.toList := by
      rw [hjoin file hfile, String.toList_append, String.toList_ofList, List.append_assoc,
        List.singleton_append]
    constructor
    · rw [pathNames, hchars, Text.pieces_append (by decide), List.map_append]
      exact congrArg₂ (· ++ ·) (by rw [pathNames, String.toList_ofList]) hfile.pathNames
    · rw [isAbsolute, hchars]
      cases start <;> rfl

/-- The files in a directory are at a place. -/
def LeadsTo (tree : Tree) (directory : String) (place : Location) : Prop :=
  ∀ file, IsFileName file →
    tree.walk (tree.start (join directory file)) (pathNames (join directory file)) =
    .ok (place ++ [file])

/-- Where the path of one file leads into a place, so do those of all others. -/
theorem exists_leadsTo {tree : Tree} {directory file : String} (hfile : IsFileName file)
    {location : Location}
    (h : tree.walk (tree.start (join directory file)) (pathNames (join directory file)) =
      .ok location) :
    ∃ place, location = place ++ [file] ∧ tree.LeadsTo directory place := by
  obtain ⟨names, absolute, hjoin⟩ := exists_names_join directory
  have hstart {other : String} (hother : IsFileName other) :
      tree.start (join directory other) = if absolute then [] else tree.current := by
    rw [start, (hjoin other hother).2]
  rw [hstart hfile, (hjoin file hfile).1, walk_snoc_eq_ok_iff] at h
  obtain ⟨place, hwalk, hplace, rfl⟩ := h
  refine ⟨place, hfile.step place, fun other hother ↦ ?_⟩
  rw [hstart hother, (hjoin other hother).1, walk_snoc_eq_ok_iff]
  exact ⟨place, hwalk, hplace, hother.step place⟩

/-- What two files of a directory have after one is written and then the other. If they are the same
file, it is the second text. -/
theorem hasText_of_writeText_writeText {tree between after : Tree}
    {directory file other text more : String} (hfile : IsFileName file) (hother : IsFileName other)
    (hfirst : tree.writeText (join directory file) text = (between, .ok ()))
    (hsecond : between.writeText (join directory other) more = (after, .ok ())) :
    after.HasText (join directory file) (if file = other then more else text) ∧
      after.HasText (join directory other) more := by
  obtain ⟨hpath, location, hwalk, hfree, rfl⟩ :=
    writeBytes_eq_ok_iff.1 (writeText_eq_ok_iff.1 hfirst)
  obtain ⟨hpath', location', hwalk', hfree', rfl⟩ :=
    writeBytes_eq_ok_iff.1 (writeText_eq_ok_iff.1 hsecond)
  obtain ⟨place, rfl, hleads⟩ := exists_leadsTo hfile hwalk
  obtain rfl : place ++ [other] = location' :=
    Except.ok.inj ((walk_insert hfree (hleads other hother)).symm.trans hwalk')
  refine ⟨?_, place ++ [other], resolve_insert_self hfree' hpath' hwalk'⟩
  by_cases heq : file = other
  · subst heq
    rw [if_pos rfl]
    exact ⟨place ++ [file], resolve_insert_self hfree' hpath' hwalk'⟩
  · have hne : place ++ [file] ≠ place ++ [other] := by simpa using heq
    rw [if_neg heq]
    exact ⟨place ++ [file], resolve_insert hfree' (resolve_insert_self hfree hpath hwalk) hne⟩

end AbiBindings.Files.Tree
