import AbiBindings.Command.Run
import AbiBindings.Proofs.Client.WrittenTexts
import AbiBindings.Proofs.Files.Frame
import AbiBindings.Proofs.Manifest.Version

/-!
# What a run does to files

A run looks at its input before it does anything else, and only looks. It goes on to write if a
manifest is accepted and not only to be checked, and then a client is generated for certain, so the
one thing that can still fail is the writing (`ran_runOptions`). What is written is framed by the
directory and the two files in it (`frame_writeTo`), also when a failure leaves it half done.
-/

namespace AbiBindings.Command

open Client Files

/-- The file at a path is the text of a manifest. There is none if no file is there, if it cannot be
read or is no text, or if the text is no manifest. -/
def Accepts (tree : Tree) (input : String) (manifest : Manifest) : Prop :=
  ∃ text, tree.readText input = .ok text ∧ Manifest.ofTextFrom (.file input) text = .ok manifest

namespace Accepts

variable {tree : Tree} {input : String} {manifest : Manifest}

theorem unique (h : Accepts tree input manifest) {other : Manifest}
    (hother : Accepts tree input other) : manifest = other := by
  obtain ⟨text, htext, hmanifest⟩ := h
  obtain ⟨text', htext', hmanifest'⟩ := hother
  cases htext.symm.trans htext'
  exact Except.ok.inj (hmanifest.symm.trans hmanifest')

theorem isPresent (h : Accepts tree input manifest) : tree.isPresent input = true := by
  obtain ⟨text, htext, -⟩ := h
  obtain ⟨found, hfound, -⟩ := bind_eq_ok_iff.1 htext
  rw [Tree.isPresent, hfound]
  rfl

/-- A manifest that a file is accepted as has files generated for it, whatever the settings. -/
theorem exists_generate (h : Accepts tree input manifest) (config : Config) :
    ∃ generated, generate manifest config = .ok generated := by
  obtain ⟨text, -, hmanifest⟩ := h
  have hchecked := (Manifest.Obtained.ofTextFrom hmanifest).checked
  obtain ⟨declarations, all, hdeclarations, hall⟩ := exists_texts hchecked config
  exact ⟨_, (generate_eq_ok hdeclarations hall).2.2⟩

end Accepts

/-! ### Runs -/

theorem run_bind_of_eq {α β : Type} {first : StateM Tree α} {rest : α → StateM Tree β}
    {tree after : Tree} {value : α} (h : first.run tree = (value, after)) :
    (first >>= rest).run tree = (rest value).run after := by
  rw [StateT.run_bind, h]
  rfl

/-- Loading reads, and gives the manifest that is accepted. -/
theorem run_loadManifest (tree : Tree) (path : String) :
    ∃ result, (loadManifest Tree.storage path).run tree = (result, tree) ∧
      ∀ manifest, result = .ok manifest ↔ Accepts tree path manifest := by
  have hrun : (Tree.storage.readText path).run tree = (tree.readText path, tree) := rfl
  rw [loadManifest, run_bind_of_eq hrun]
  cases hread : tree.readText path with
  | error fault =>
    refine ⟨_, rfl, fun manifest ↦ iff_of_false (fun h ↦ by cases h) ?_⟩
    rintro ⟨text, htext, -⟩
    cases hread.symm.trans htext
  | ok text =>
    refine ⟨_, rfl, fun manifest ↦ ⟨fun h ↦ ⟨text, hread, h⟩, ?_⟩⟩
    rintro ⟨other, hother, h⟩
    cases hread.symm.trans hother
    exact h

/-- How a run can go: nothing is accepted, a manifest is checked, or a client is written for it. -/
inductive Ran (options : Options) (tree : Tree) : Outcome → Tree → Prop
  | refused {outcome : Outcome} (hcode : outcome.code = 1)
    (hnone : ∀ manifest, ¬ Accepts tree options.input manifest) : Ran options tree outcome tree
  | checked {outcome : Outcome} {manifest : Manifest} (hcode : outcome.code = 0)
    (haccepts : Accepts tree options.input manifest) (hvalidate : options.validate = true) :
    Ran options tree outcome tree
  | written {outcome : Outcome} {manifest : Manifest} {generated : Generated}
    {result : Except Error OutputPaths}
    {after : Tree} (hcode : outcome.code = if result.isOk then 0 else 1)
    (haccepts : Accepts tree options.input manifest) (hvalidate : options.validate = false)
    (hgenerated : generate manifest options.config = .ok generated)
    (hwritten : (generated.writeTo Tree.storage options.outDir options.config).run tree =
      (result, after)) :
    Ran options tree outcome after

/-- A run that validates changes nothing, and has one of the outcomes that it may have. -/
theorem ran_runValidate {options : Options} (tree : Tree) (hvalidate : options.validate = true) :
    ∃ outcome, (runValidate Tree.storage options.input).run tree = (outcome, tree) ∧
      Ran options tree outcome tree := by
  obtain ⟨result, hload, hresult⟩ := run_loadManifest tree options.input
  rw [runValidate, run_bind_of_eq hload]
  cases result with
  | error error =>
    refine ⟨_, rfl, .refused rfl fun manifest haccepts ↦ ?_⟩
    cases (hresult manifest).2 haccepts
  | ok manifest => exact ⟨_, rfl, .checked rfl ((hresult manifest).1 rfl) hvalidate⟩

/-- A run that generates has one of the outcomes that it may have. -/
theorem ran_runGenerate {options : Options} (tree : Tree) (hvalidate : options.validate = false) :
    ∃ outcome after, (runGenerate Tree.storage options).run tree = (outcome, after) ∧
      Ran options tree outcome after := by
  obtain ⟨result, hload, hresult⟩ := run_loadManifest tree options.input
  rw [runGenerate, run_bind_of_eq hload]
  cases result with
  | error error =>
    refine ⟨_, _, rfl, .refused rfl fun manifest haccepts ↦ ?_⟩
    cases (hresult manifest).2 haccepts
  | ok manifest =>
    have haccepts := (hresult manifest).1 rfl
    obtain ⟨generated, hgenerated⟩ := haccepts.exists_generate options.config
    dsimp only
    rw [hgenerated]
    dsimp only
    rcases hwritten : (generated.writeTo Tree.storage options.outDir options.config).run tree with
      ⟨error | paths, after⟩
    · rw [run_bind_of_eq hwritten]
      exact ⟨_, after, rfl, .written rfl haccepts hvalidate hgenerated hwritten⟩
    · rw [run_bind_of_eq hwritten]
      exact ⟨_, after, rfl, .written rfl haccepts hvalidate hgenerated hwritten⟩

/-- So has every run. -/
theorem ran_runOptions (options : Options) (tree : Tree) :
    ∃ outcome after, (runOptions Tree.storage options).run tree = (outcome, after) ∧
      Ran options tree outcome after := by
  have hpresent : (Tree.storage.isPresent options.input).run tree =
      (tree.isPresent options.input, tree) := rfl
  rw [runOptions, run_bind_of_eq hpresent]
  cases hinput : tree.isPresent options.input with
  | false =>
    refine ⟨_, tree, rfl, .refused rfl fun manifest haccepts ↦ ?_⟩
    rw [haccepts.isPresent] at hinput
    cases hinput
  | true =>
    show ∃ outcome after, StateT.run (if options.validate = true then _ else _) tree = _ ∧ _
    cases hvalidate : options.validate with
    | false => exact ran_runGenerate tree hvalidate
    | true =>
      obtain ⟨outcome, hrun, hran⟩ := ran_runValidate tree hvalidate
      exact ⟨outcome, tree, hrun, hran⟩

/-! ### Effects -/

section Written

variable {generated : Generated} {directory : String} {config : Config} {tree after : Tree}
  {result : Except Error OutputPaths}
  (h : (generated.writeTo Tree.storage directory config).run tree = (result, after))
  {paths : OutputPaths} (hpaths : paths = .inDirectory directory config)
include h hpaths

/-- However far the writing comes, it stays within its frame. -/
theorem frame_writeTo :
    tree.Frame after directory [(paths.types, generated.types),
      (paths.client, generated.client)] := by
  have hmakes := Tree.Frame.of_makes (tree.makes_makeDirectory directory)
  rw [run_writeTo, ← hpaths] at h
  dsimp only at h
  split at h
  · rename_i hmade
    cases h
    rw [hmade] at hmakes
    exact hmakes.mono (List.nil_subset _)
  · rename_i hmade
    rw [hmade] at hmakes
    split at h
    · rename_i htypes
      cases h
      exact (hmakes.write htypes).mono (by simp)
    · rename_i htypes
      split at h
      · rename_i hclient
        cases h
        exact (hmakes.write htypes).write hclient
      · rename_i hclient
        cases h
        exact (hmakes.write htypes).write hclient

/-- Writing succeeds exactly if the directory is made and both files are written, one after the
other. -/
theorem isOk_writeTo_iff :
    result.isOk = true ↔ ∃ made between, tree.makeDirectory directory = (made, .ok ()) ∧
      made.writeText paths.types generated.types = (between, .ok ()) ∧
      between.writeText paths.client generated.client = (after, .ok ()) := by
  rw [run_writeTo, ← hpaths] at h
  constructor
  · intro hok
    dsimp only at h
    split at h
    · cases h
      cases hok
    · rename_i made hmade
      split at h
      · cases h
        cases hok
      · rename_i between htypes
        split at h
        · cases h
          cases hok
        · rename_i hclient
          cases h
          exact ⟨made, between, hmade, htypes, hclient⟩
  · rintro ⟨made, between, hmade, htypes, hclient⟩
    rw [hmade] at h
    dsimp only at h
    rw [htypes] at h
    dsimp only at h
    rw [hclient] at h
    cases h
    rfl

end Written

namespace Ran

variable {options : Options} {tree after : Tree} {outcome : Outcome}
    (h : Ran options tree outcome after)
include h

/-- Nothing is changed if the run validates or if the file is accepted as no manifest. -/
theorem eq_of_quiet (hquiet : options.validate = true ∨
      ∀ manifest, ¬ Accepts tree options.input manifest) :
    after = tree := by
  cases h with
  | refused => rfl
  | checked => rfl
  | written hcode haccepts hvalidate =>
    obtain hcheck | hnone := hquiet
    · rw [hcheck] at hvalidate
      cases hvalidate
    · exact absurd haccepts (hnone _)

theorem code_eq : outcome.code = 0 ∨ outcome.code = 1 := by
  cases h with
  | refused hcode => exact .inr hcode
  | checked hcode => exact .inl hcode
  | written hcode =>
    rw [hcode]
    split
    · exact .inl rfl
    · exact .inr rfl

variable {paths : OutputPaths} (hpaths : paths = .inDirectory options.outDir options.config)
include hpaths

/-- A run changes nothing but the output directory, the way to it and the two files. -/
theorem exists_frame : ∃ texts : Generated,
    (∀ manifest, Accepts tree options.input manifest →
      generate manifest options.config = .ok texts) ∧
      tree.Frame after options.outDir [(paths.types, texts.types),
        (paths.client, texts.client)] := by
  cases h with
  | refused _ hnone =>
    exact ⟨⟨"", ""⟩, fun manifest haccepts ↦ absurd haccepts (hnone manifest), .refl _ _ _⟩
  | checked _ haccepts =>
    obtain ⟨texts, htexts⟩ := haccepts.exists_generate options.config
    exact ⟨texts, fun manifest hmanifest ↦ haccepts.unique hmanifest ▸ htexts, .refl _ _ _⟩
  | written _ haccepts _ hgenerated hwritten =>
    exact ⟨_, fun manifest hmanifest ↦ haccepts.unique hmanifest ▸ hgenerated,
      frame_writeTo hwritten hpaths⟩

/-- A run succeeds exactly if the file is accepted and, unless it validates, all is written. -/
theorem code_eq_zero_iff : outcome.code = 0 ↔ ∃ manifest, Accepts tree options.input manifest ∧
    (options.validate = false → ∃ texts made between, generate manifest options.config = .ok texts ∧
      tree.makeDirectory options.outDir = (made, .ok ()) ∧
      made.writeText paths.types texts.types = (between, .ok ()) ∧
      between.writeText paths.client texts.client = (after, .ok ())) := by
  cases h with
  | refused hcode hnone =>
    refine iff_of_false (by rw [hcode]; decide) ?_
    rintro ⟨manifest, haccepts, -⟩
    exact hnone manifest haccepts
  | checked hcode haccepts hvalidate =>
    refine iff_of_true hcode ⟨_, haccepts, fun hwrite ↦ ?_⟩
    rw [hvalidate] at hwrite
    cases hwrite
  | written hcode haccepts hvalidate hgenerated hwritten =>
    have hok := isOk_writeTo_iff hwritten hpaths
    have hzero {b : Bool} : (if b = true then (0 : UInt32) else 1) = 0 ↔
        b = true := by cases b <;> decide
    rw [hcode, hzero, hok]
    constructor
    · rintro ⟨made, between, hwrites⟩
      exact ⟨_, haccepts, fun _ ↦ ⟨_, made, between, hgenerated, hwrites⟩⟩
    · rintro ⟨manifest, hmanifest, hwrites⟩
      obtain ⟨texts, made, between, htexts, hwrites⟩ := hwrites hvalidate
      cases haccepts.unique hmanifest
      cases hgenerated.symm.trans htexts
      exact ⟨made, between, hwrites⟩

end Ran

/-- What a run does to files, and how it ends. Nothing changes if the manifest is only checked or
none is accepted. Else the directory is made with those on the way to it, and the two files are
written in it; every other place has what it had, and paths that led somewhere lead there still. The
run ends well exactly if a manifest was accepted and, unless it was only checked, the directory was
made and both files were written. -/
theorem run_frame {args : List String} {options : Options}
    (hoptions : Options.ofArguments args = .ok options) {paths : OutputPaths}
    (hpaths : paths = .inDirectory options.outDir options.config) (tree : Tree) :
    ∃ outcome after, (run Tree.storage args).run tree = (outcome, after) ∧
      (options.validate = true ∨ (∀ manifest, ¬ Accepts tree options.input manifest) →
        after = tree) ∧
      (∃ texts : Generated,
        (∀ manifest, Accepts tree options.input manifest →
          generate manifest options.config = .ok texts) ∧
        tree.Frame after options.outDir [(paths.types, texts.types),
          (paths.client, texts.client)]) ∧
      (∀ path place content, tree.resolve path = .ok (place, content) →
        after.resolve path = .ok (place, content) ∨
          ∃ out ∈ [paths.types, paths.client], after.resolve path = after.resolve out) ∧
      (outcome.code = 0 ∨ outcome.code = 1) ∧
      (outcome.code = 0 ↔ ∃ manifest, Accepts tree options.input manifest ∧
        (options.validate = false →
          ∃ texts made between, generate manifest options.config = .ok texts ∧
          tree.makeDirectory options.outDir = (made, .ok ()) ∧
          made.writeText paths.types texts.types = (between, .ok ()) ∧
          between.writeText paths.client texts.client = (after, .ok ()))) := by
  have hrun : run Tree.storage args = runOptions Tree.storage options := by
    rw [run, hoptions]
  obtain ⟨outcome, after, hafter, hran⟩ := ran_runOptions options tree
  obtain ⟨texts, htexts, hframe⟩ := hran.exists_frame hpaths
  refine ⟨outcome, after, by rw [hrun, hafter], hran.eq_of_quiet, ⟨texts, htexts, hframe⟩,
    fun path place content hpath ↦ ?_, hran.code_eq, hran.code_eq_zero_iff hpaths⟩
  refine (hframe.resolve hpath).imp_right ?_
  rintro ⟨out, text, hmem, hout⟩
  have hfirst : out ∈ [(paths.types, texts.types), (paths.client, texts.client)].map Prod.fst :=
    List.mem_map_of_mem hmem
  exact ⟨out, hfirst, hout⟩

/-- A directory with a manifest in it that has no types, methods or events. -/
def workTree : Tree :=
  ⟨[(["work"], .directory),
    (["work", "abi.json"], .file (Text.Utf8.encode Manifest.escapedVersionText))], ["work"]⟩

theorem accepts_workTree : Accepts workTree "abi.json" ⟨"wasm-abi/1", [], [], []⟩ := by
  have htext : workTree.HasText "abi.json" Manifest.escapedVersionText :=
    ⟨["work", "abi.json"], rfl⟩
  exact ⟨_, htext.readText, Manifest.ofTextFrom_escapedVersionText _⟩

/-- The manifest is checked, and a client is written for it in a directory that was not there. -/
theorem run_frame_workTree :
    (∃ outcome, (run Tree.storage ["--validate"]).run workTree = (outcome, workTree) ∧
      outcome.code = 0) ∧
    ∃ outcome after, (run Tree.storage ["-o", "out/deep"]).run workTree = (outcome, after) ∧
      outcome.code = 0 ∧
      after.find? ["work", "out", "deep"] = some .directory ∧
      after.find? ["work", "abi.json"] = workTree.find? ["work", "abi.json"] := by
  constructor
  · have hoptions : Options.ofArguments ["--validate"] =
        .ok ⟨"abi.json", "src", none, none, defaultImportPath, true, false⟩ := rfl
    obtain ⟨outcome, after, hrun, hquiet, -, -, -, hcode⟩ := run_frame hoptions rfl workTree
    obtain rfl := hquiet (.inl rfl)
    exact ⟨outcome, hrun, hcode.2 ⟨_, accepts_workTree, fun hvalidate ↦ by cases hvalidate⟩⟩
  · have hoptions : Options.ofArguments ["-o", "out/deep"] =
        .ok ⟨"abi.json", "out/deep", none, none, defaultImportPath, false, false⟩ := rfl
    obtain ⟨outcome, after, hrun, -, ⟨texts, htexts, -⟩, -, -, hcode⟩ :=
      run_frame hoptions rfl workTree
    have hgenerated := htexts _ accepts_workTree
    obtain ⟨outcome', after', hrun', hran⟩ :=
      ran_runOptions ⟨"abi.json", "out/deep", none, none, defaultImportPath, false, false⟩ workTree
    obtain ⟨rfl, rfl⟩ : outcome = outcome' ∧ after = after' := Prod.mk.inj (hrun.symm.trans hrun')
    cases hran with
    | refused _ hnone => exact absurd accepts_workTree (hnone _)
    | checked _ _ hvalidate => cases hvalidate
    | written _ haccepts _ hwas hwritten =>
      cases haccepts.unique accepts_workTree
      cases hwas.symm.trans hgenerated
      obtain ⟨rfl, rfl⟩ : _ = _ ∧ _ = after := Prod.mk.inj hwritten
      have hwrites :=
        hcode.2 ⟨_, accepts_workTree, fun _ ↦ ⟨texts, _, _, hgenerated, rfl, rfl, rfl⟩⟩
      exact ⟨outcome, _, hrun, hwrites, rfl, rfl⟩

end AbiBindings.Command
