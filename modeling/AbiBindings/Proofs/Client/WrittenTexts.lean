import AbiBindings.Client.Output
import AbiBindings.Proofs.Client.SharedDeclarations
import AbiBindings.Proofs.Files.Tree
import AbiBindings.Proofs.TypeScript.Allocation

/-!
# Generated texts in files

The declarations are written first, then the client class, both into one directory. If the two files
have different names, they are in different places, and writing the second leaves the first as it
is. The file of the declarations has a fixed name, and that of the client class is named after the
class, so the names are the same for one class only: `types`. Its file is written over the
declarations.
-/

namespace AbiBindings.Client

open TypeScript Files

/-! ### The two texts -/

theorem imports_differ (rest more : String) :
    "import type \x7b AbiBytes \x7d from " ++ rest ≠
    "import \x7b\n  CalimeroApp,\n  Context,\n\x7d from " ++ more := by
  intro heq
  have hchar := congrArg (fun text ↦ text.toList[7]?) heq
  simp only [String.toList_append] at hchar
  rw [List.getElem?_append_left (by decide), List.getElem?_append_left (by decide)] at hchar
  exact absurd hchar (by decide)

/-- The texts are never the same: they import different things. -/
theorem types_ne_client {manifest : Manifest} {config : Config} {generated : Generated}
    (h : generate manifest config = .ok generated) : generated.types ≠ generated.client := by
  simp only [generate, generateTypes, generateClient, bind_eq_ok_iff] at h
  obtain ⟨types, ⟨declarations, -, htypes⟩, client, ⟨declarations', -, all, -, hclient⟩,
      hgenerated⟩ := h
  cases htypes
  cases hclient
  cases hgenerated
  intro heq
  dsimp only at heq
  rw [render_typesNodes, render_clientNodes] at heq
  simp only [String.append_assoc] at heq
  exact imports_differ _ _ ((String.append_right_inj _).1 ((String.append_right_inj _).1 heq))

/-! ### Names of files -/

theorem isFileName_typesFile : Tree.IsFileName typesFile :=
  ⟨by decide, by decide⟩

theorem isFileName_clientFile {config : Config} (h : isIdentifier config.clientName = true) :
    Tree.IsFileName config.clientFile := by
  have hchars : config.clientFile.toList = config.clientName.toList ++ ['.', 't', 's'] :=
    String.toList_append
  constructor
  · rw [hchars, List.mem_append]
    rintro (hslash | hslash)
    · exact absurd (isName_of_isIdentifier h '/' hslash) (by decide)
    · exact absurd hslash (by decide)
  · -- all the names that are excluded are shorter
    have hlength : 3 ≤ config.clientFile.toList.length := by simp [hchars]
    intro hmem
    have hall : ∀ name ∈ ["", ".", ".."], name.toList.length < 3 := by decide
    exact absurd hlength (Nat.not_le.2 (hall _ hmem))

theorem clientFile_eq_typesFile_iff {config : Config} :
    config.clientFile = typesFile ↔ config.clientName = "types" := by
  have htypes : typesFile = "types" ++ ".ts" := by decide
  rw [Config.clientFile, htypes, String.append_left_inj]

theorem identifier_eq_types_iff {name : String} : identifier name = "types" ↔ name = "types" := by
  constructor
  · intro h
    exact eq_of_identifier_eq h (by decide)
  · rintro rfl
    decide

/-! ### Two writes -/

/-- The directory is made, then the two texts are written, and the first failure ends it. -/
theorem run_writeTo (generated : Generated) (directory : String) (config : Config) (tree : Tree) :
    (generated.writeTo Tree.storage directory config).run tree =
      let paths := OutputPaths.inDirectory directory config
      match tree.makeDirectory directory with
      | (made, .error fault) => (.error (.file directory fault), made)
      | (made, .ok ()) =>
        match made.writeText paths.types generated.types with
        | (between, .error fault) => (.error (.file paths.types fault), between)
        | (between, .ok ()) =>
          match between.writeText paths.client generated.client with
          | (after, .error fault) => (.error (.file paths.client fault), after)
          | (after, .ok ()) => (.ok paths, after) := by
  simp only [Generated.writeTo, writeFile, Tree.storage]
  rcases hmake : tree.makeDirectory directory with ⟨made, fault | ⟨⟩⟩
  · simp [hmake]
    rfl
  rcases htypes : made.writeText (OutputPaths.inDirectory directory config).types
    generated.types with ⟨between, fault | ⟨⟩⟩
  · simp [hmake, htypes, Except.mapError]
    rfl
  rcases hclient : between.writeText (OutputPaths.inDirectory directory config).client
    generated.client with ⟨after, fault | ⟨⟩⟩
  · simp [hmake, htypes, hclient, Except.mapError]
    rfl
  · simp [hmake, htypes, hclient, Except.mapError]
    rfl

theorem writes_of_writeTo {generated : Generated} {directory : String} {config : Config}
    {tree after : Tree} {paths : OutputPaths}
    (h : (generated.writeTo Tree.storage directory config).run tree = (.ok paths, after)) :
    paths = .inDirectory directory config ∧
      ∃ made between : Tree, made.writeText paths.types generated.types = (between, .ok ()) ∧
        between.writeText paths.client generated.client = (after, .ok ()) := by
  rw [run_writeTo] at h
  dsimp only at h
  split at h
  · cases h
  split at h
  · cases h
  split at h
  · cases h
  · rename_i htypes _ _ hclient
    cases h
    exact ⟨rfl, _, _, htypes, hclient⟩

theorem hasText_of_writeTo {config : Config} (hname : isIdentifier config.clientName = true)
    {generated : Generated} {directory : String} {tree after : Tree} {paths : OutputPaths}
    (h : (generated.writeTo Tree.storage directory config).run tree = (.ok paths, after)) :
    after.HasText paths.types (if config.clientName = "types" then generated.client
      else generated.types) ∧
      after.HasText paths.client generated.client := by
  obtain ⟨rfl, made, between, htypes, hclient⟩ := writes_of_writeTo h
  have hwrites := Tree.hasText_of_writeText_writeText isFileName_typesFile
    (isFileName_clientFile hname) htypes hclient
  simp only [eq_comm (a := typesFile), clientFile_eq_typesFile_iff] at hwrites
  exact hwrites

/-- The file of the client class has the client class. The file of the declarations has the
declarations exactly if the class is not named after that file; otherwise the two are one file, and
the declarations are gone. Both files are read back as they are. -/
theorem written_texts_read_back {manifest : Manifest} {name importPath directory : String}
    {tree after : Tree} {generated : Generated} {paths : OutputPaths}
    (hgenerated : generate manifest { Config.named name with importPath } = .ok generated)
    (hwritten : (generated.writeTo Tree.storage directory
      { Config.named name with importPath }).run tree =
      (.ok paths, after)) :
    after.HasText paths.client generated.client ∧
      (after.HasText paths.types generated.types ↔ name ≠ "types") ∧
      after.readText paths.client = .ok generated.client ∧
      after.readText paths.types =
      .ok (if name = "types" then generated.client else generated.types) := by
  have hidentifier : isIdentifier (Config.mk (identifier name) importPath).clientName = true :=
    isIdentifier_identifier name
  obtain ⟨hfirst, hsecond⟩ := hasText_of_writeTo hidentifier hwritten
  simp only [identifier_eq_types_iff] at hfirst
  refine ⟨hsecond, ⟨fun hhas hname ↦ ?_, fun hname ↦ ?_⟩, hsecond.readText, hfirst.readText⟩
  · rw [if_pos hname] at hfirst
    exact types_ne_client hgenerated (hhas.unique hfirst)
  · rw [if_neg hname] at hfirst
    exact hfirst

/-- A manifest without types, methods and events has both texts, whatever the settings. -/
theorem exists_generate_bare (config : Config) :
    ∃ manifest generated, Manifest.ofJsonWith (fun _ ↦ []) bare = .ok manifest ∧
      generate manifest config = .ok generated := by
  obtain ⟨manifest, hbare⟩ :
      ∃ manifest, Manifest.ofJsonWith (fun _ ↦ []) bare = .ok manifest := ⟨_, rfl⟩
  obtain ⟨declarations, all, hdeclarations, hall⟩ :=
    exists_texts (Manifest.Obtained.ofJsonWith hbare).checked config
  exact ⟨manifest, _, hbare, (generate_eq_ok hdeclarations hall).2.2⟩

theorem written_texts_read_back_ledger :
    ∃ manifest generated after, Manifest.ofJsonWith (fun _ ↦ []) bare = .ok manifest ∧
      generate manifest { Config.named "Ledger" with importPath := "./runtime" } = .ok generated ∧
      (generated.writeTo Tree.storage "out/" { Config.named "Ledger" with importPath :=
        "./runtime" }).run (Tree.empty "work") = (.ok ⟨"out/types.ts", "out/Ledger.ts"⟩, after) ∧
      after.readText "out/types.ts" = .ok generated.types ∧
        after.readText "out/Ledger.ts" = .ok generated.client := by
  obtain ⟨manifest, generated, hbare, hgenerated⟩ :=
    exists_generate_bare { Config.named "Ledger" with importPath := "./runtime" }
  have hwritten : (generated.writeTo Tree.storage "out/" { Config.named "Ledger" with importPath :=
    "./runtime" }).run
      (Tree.empty "work") = (.ok ⟨"out/types.ts", "out/Ledger.ts"⟩, _) := rfl
  have hname : "Ledger" ≠ "types" := by decide
  obtain ⟨-, -, hclient, htypes⟩ := written_texts_read_back hgenerated hwritten
  rw [if_neg hname] at htypes
  exact ⟨manifest, generated, _, hbare, hgenerated, hwritten, htypes, hclient⟩

/-- A class that is named `types` has its file written over the declarations. -/
theorem declarations_overwritten :
    ∃ manifest generated after, Manifest.ofJsonWith (fun _ ↦ []) bare = .ok manifest ∧
      generate manifest (.named "types") = .ok generated ∧
      (generated.writeTo Tree.storage "out" (.named "types")).run (Tree.empty "work") =
        (.ok ⟨"out/types.ts", "out/types.ts"⟩, after) ∧
      after.readText "out/types.ts" = .ok generated.client ∧
        generated.client ≠ generated.types := by
  obtain ⟨manifest, generated, hbare, hgenerated⟩ := exists_generate_bare (.named "types")
  have hwritten : (generated.writeTo Tree.storage "out" (.named "types")).run (Tree.empty "work") =
      (.ok ⟨"out/types.ts", "out/types.ts"⟩, _) := rfl
  have hclient := (hasText_of_writeTo (isIdentifier_identifier "types") hwritten).2.readText
  exact ⟨manifest, generated, _, hbare, hgenerated, hwritten, hclient,
    (types_ne_client hgenerated).symm⟩

end AbiBindings.Client
