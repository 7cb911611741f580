import AbiBindings.Proofs.Client.ClientMembers
import AbiBindings.Proofs.Client.SharedDeclarations
import AbiBindings.Proofs.Text.Pieces

/-!
# Names of client classes

The name of a client class is made from the last part of a path (`isLastPart_iff`). Whatever stands
there, it is made of ASCII letters and digits and ends in `Client`, and it starts with no digit
(`exists_clientName_eq`). So it is an identifier, as none of the reserved words has a capital
letter.

Making an identifier leaves identifiers as they are (`identifier_eq_self`). That is why a name that
was made from a path is not changed when the settings are made from it, and why the class, its file
and the module from which the type declarations take the class of byte sequences go by the same name
(`goesBy_named`).
-/

namespace AbiBindings.TypeScript

/-! ### Identifiers -/

theorem isAlpha_eq_false_of_isDigit {c : Char} (h : c.isDigit = true) : c.isAlpha = false := by
  have hdigit : c.val ≤ 57 := of_decide_eq_true (Bool.and_eq_true_iff.1 h).2
  have hupper : c.isUpper = false := by
    refine decide_eq_false fun hle ↦ ?_
    exact absurd (UInt32.le_trans hle.1 hdigit) (by decide)
  have halpha : c.isAlpha = (c.isUpper || c.isLower) := rfl
  rw [halpha, hupper, NameSet.isLower_eq_false_of_isDigit h]
  rfl

theorem isDigit_eq_false_of_isIdentifierStart {c : Char} (h : isIdentifierStart c = true) :
    c.isDigit = false := by
  rw [Bool.eq_false_iff]
  intro hdigit
  rw [isIdentifierStart, isAlpha_eq_false_of_isDigit hdigit, Bool.or_false, Bool.or_eq_true,
    decide_eq_true_eq, decide_eq_true_eq] at h
  obtain rfl | rfl := h <;> exact absurd hdigit (by decide)

/-- A word is kept as it is. -/
theorem wordOf_eq_self {text : String} (h : isWord text.toList = true) :
    wordOf text.toList = text.toList := by
  have hmap : text.toList.map (fun c ↦ if isIdentifierChar c then c else '_') = text.toList :=
    (List.map_congr_left fun c hc ↦ if_pos (isName_of_isWord h c hc)).trans (List.map_id _)
  rw [wordOf, hmap]
  cases hchars : text.toList with
  | nil =>
    rw [hchars] at h
    cases h
  | cons c cs =>
    rw [hchars] at h
    have hdigit := isDigit_eq_false_of_isIdentifierStart (isWord_cons_iff.1 h).1
    exact if_neg (Bool.eq_false_iff.1 hdigit)

theorem identifier_eq_self {text : String} (h : isIdentifier text = true) :
    identifier text = text := by
  obtain ⟨hword, hreserved⟩ := Bool.and_eq_true_iff.1 h
  rw [identifier, wordOf_eq_self hword, String.ofList_toList]
  exact if_neg (by simpa using hreserved)

/-- Normalizing leaves exactly the identifiers as they are. -/
theorem identifier_eq_self_iff {text : String} :
    identifier text = text ↔ isIdentifier text = true :=
  ⟨fun h ↦ h ▸ isIdentifier_identifier text, identifier_eq_self⟩

/-! ### The last part of a path -/

/-- The character stands between the parts of a path. -/
def IsPathSeparator (c : Char) : Prop := c = '/' ∨ c = '\\'

instance (c : Char) : Decidable (IsPathSeparator c) :=
  inferInstanceAs (Decidable (c = '/' ∨ c = '\\'))

/-- What stands in a path after its last slash or backslash; all of the path, if it has neither. -/
def IsLastPart (path last : String) : Prop :=
  (∀ c ∈ last.toList, ¬ IsPathSeparator c) ∧
    (path = last ∨ ∃ directory, path = directory ++ "/" ++ last ∨ path = directory ++ "\\" ++ last)

/-- Nothing before a separator is part of the file name. -/
theorem fileName_append {c : Char} (hc : IsPathSeparator c) (front back : List Char) :
    fileName (front ++ c :: back) = fileName back := by
  have hstop : (c :: front.reverse).takeWhile (fun c ↦ c ≠ '/' ∧ c ≠ '\\') = [] := by
    obtain rfl | rfl := hc <;> rfl
  have hreverse : (front ++ c :: back).reverse = back.reverse ++ c :: front.reverse := by simp
  rw [fileName, fileName, hreverse, List.takeWhile_append, hstop, List.append_nil]
  split
  · rename_i hlength
    rw [(List.takeWhile_prefix _).eq_of_length hlength]
  · rfl

/-- A name with no separator is its own file name. -/
theorem fileName_eq_self {name : List Char} (h : ∀ c ∈ name, ¬ IsPathSeparator c) :
    fileName name = name := by
  have hall : name.reverse.takeWhile (fun c ↦ c ≠ '/' ∧ c ≠ '\\') = name.reverse := by
    refine List.takeWhile_eq_self_iff.2 fun c hc ↦ ?_
    simpa [IsPathSeparator] using h c (List.mem_reverse.1 hc)
  rw [fileName, hall, List.reverse_reverse]

/-- The file name is the last part of the path. -/
theorem isLastPart_fileName (path : String) :
    IsLastPart path (String.ofList (fileName path.toList)) := by
  have hcut := List.takeWhile_append_dropWhile (p := fun c ↦ c ≠ '/' ∧ c ≠ '\\')
    (l := path.toList.reverse)
  have hpath : path.toList =
      (path.toList.reverse.dropWhile fun c ↦ c ≠ '/' ∧ c ≠ '\\').reverse ++
        fileName path.toList := by
    rw [fileName, ← List.reverse_append, hcut, List.reverse_reverse]
  refine ⟨fun c hc hsep ↦ ?_, ?_⟩
  · rw [String.toList_ofList, fileName, List.mem_reverse] at hc
    have hother := List.mem_takeWhile_imp hc
    obtain rfl | rfl := hsep <;> simp at hother
  · cases hfront : path.toList.reverse.dropWhile fun c ↦ c ≠ '/' ∧ c ≠ '\\' with
    | nil =>
      rw [hfront] at hpath
      exact .inl (String.toList_inj.1 (by simpa using hpath))
    | cons c front =>
      have hsep : IsPathSeparator c := by
        have hnot := List.head?_dropWhile_not (fun c ↦ c ≠ '/' ∧ c ≠ '\\') path.toList.reverse
        rw [hfront] at hnot
        by_contra hsep
        simp [not_or.1 hsep] at hnot
      rw [hfront] at hpath
      refine .inr ⟨String.ofList front.reverse, ?_⟩
      obtain rfl | rfl := hsep
      · exact .inl (String.toList_inj.1 (by simpa using hpath))
      · exact .inr (String.toList_inj.1 (by simpa using hpath))

/-- There is only one last part. -/
theorem isLastPart_iff {path last : String} :
    IsLastPart path last ↔ fileName path.toList = last.toList := by
  constructor
  · rintro ⟨hlast, rfl | ⟨directory, rfl | rfl⟩⟩
    · exact fileName_eq_self hlast
    · rw [String.append_assoc, String.toList_append, String.toList_append]
      exact (fileName_append (.inl rfl) _ _).trans (fileName_eq_self hlast)
    · rw [String.append_assoc, String.toList_append, String.toList_append]
      exact (fileName_append (.inr rfl) _ _).trans (fileName_eq_self hlast)
  · intro h
    have hpart := isLastPart_fileName path
    rwa [h, String.ofList_toList] at hpart

/-- The last extension, and only that, is no part of the stem. -/
theorem fileStem_append {name extension : List Char} (hname : name ≠ [])
    (hextension : '.' ∉ extension) : fileStem (name ++ '.' :: extension) = name := by
  have hdrop : (name ++ '.' :: extension).reverse.dropWhile (· ≠ '.') = '.' :: name.reverse := by
    have hreverse : (name ++ '.' :: extension).reverse = extension.reverse ++
        '.' :: name.reverse := by simp
    rw [hreverse, List.dropWhile_append_of_pos]
    · rfl
    · intro c hc
      refine decide_eq_true fun heq ↦ hextension ?_
      exact heq ▸ List.mem_reverse.1 hc
  rw [fileStem, hdrop]
  simp [hname]

/-! ### Words of a name -/

theorem toNat_lt_of_isAlphanum {c : Char} (h : c.isAlphanum = true) : c.toNat < 128 := by
  have hclass : (c.isUpper || c.isLower || c.isDigit) = true := h
  have hle : c.val ≤ 122 := by
    simp only [Bool.or_eq_true] at hclass
    obtain (hupper | hlower) | hdigit := hclass
    · exact UInt32.le_trans (of_decide_eq_true hupper).2 (by decide)
    · exact of_decide_eq_true (Bool.and_eq_true_iff.1 hlower).2
    · exact UInt32.le_trans (of_decide_eq_true (Bool.and_eq_true_iff.1 hdigit).2) (by decide)
  exact Nat.lt_of_le_of_lt (UInt32.le_iff_toNat_le.1 hle) (by decide)

/-- Of the data on upper case, one run is about ASCII letters and the rest is about other
characters. -/
theorem upper_of_lt {c : Char} (h : c.toNat < 128) :
    Text.upper c = Text.mapCase [] [(97, 122, 1, 65)] c := by
  have hruns : Text.upperRuns = [(97, 122, 1, 65)] ++ Text.upperRuns.tail := rfl
  have hothers : Text.upperRuns.tail.all (fun run ↦ decide (128 ≤ run.1)) =
      true := by decide +kernel
  have hsequences : Text.upperSequences.all (fun entry ↦ decide (128 ≤ entry.1)) =
      true := by decide +kernel
  have hlookup : Text.upperSequences.lookup c.toNat = none := by
    refine List.lookup_eq_none_iff.2 fun entry hentry ↦ ?_
    have hle := of_decide_eq_true (List.all_eq_true.1 hsequences entry hentry)
    exact bne_iff_ne.2 (by omega)
  have himage : Text.runImage Text.upperRuns c.toNat =
      Text.runImage [(97, 122, 1, 65)] c.toNat := by
    have hnone : Text.runImage Text.upperRuns.tail c.toNat = none := by
      refine List.findSome?_eq_none_iff.2 fun run hrun ↦ if_neg fun hon ↦ ?_
      have hle := of_decide_eq_true (List.all_eq_true.1 hothers run hrun)
      omega
    rw [Text.runImage] at hnone
    rw [hruns, Text.runImage, List.findSome?_append, hnone, Option.or_none]
    rfl
  rw [Text.upper, Text.mapCase, Text.mapCase, hlookup, himage]
  rfl

/-- The upper case of an ASCII letter or digit is one character, a letter or digit again. -/
theorem upper_of_isAlphanum {c : Char} (h : c.isAlphanum = true) :
    Text.upper c = [c.toUpper] ∧ c.toUpper.isAlphanum = true := by
  have hall : ((List.range 128).map Char.ofNat).all (fun c ↦ !c.isAlphanum ||
      (decide (Text.mapCase [] [(97, 122, 1, 65)] c = [c.toUpper]) && c.toUpper.isAlphanum)) =
        true := by decide +kernel
  have hlt := toNat_lt_of_isAlphanum h
  have hmem : c ∈ (List.range 128).map Char.ofNat :=
    List.mem_map.2 ⟨c.toNat, List.mem_range.2 hlt, Char.ofNat_toNat c⟩
  rw [upper_of_lt hlt]
  simpa [h] using List.all_eq_true.1 hall c hmem

theorem isAlphanum_clientWord {word : List Char} (h : ∀ c ∈ word, c.isAlphanum = true) :
    ∀ c ∈ clientWord word, c.isAlphanum = true := by
  rw [clientWord]
  split
  · intro c hc
    obtain ⟨d, hd, rfl⟩ := List.mem_map.1 hc
    exact (upper_of_isAlphanum (h d hd)).2
  · cases word with
    | nil => exact List.forall_mem_nil _
    | cons d word =>
      obtain ⟨hfirst, hrest⟩ := List.forall_mem_cons.1 h
      obtain ⟨heq, hupper⟩ := upper_of_isAlphanum hfirst
      rw [capitalize, heq]
      exact List.forall_mem_cons.2 ⟨hupper, hrest⟩

/-- The words of a name are made of letters and digits. -/
theorem isAlphanum_clientWords (cs : List Char) :
    ∀ c ∈ (Text.words (!·.isAlphanum) cs).flatMap clientWord, c.isAlphanum = true := by
  intro c hc
  obtain ⟨word, hword, hc⟩ := List.mem_flatMap.1 hc
  have hchars : ∀ d ∈ word, d.isAlphanum = true := by
    intro d hd
    simpa using Text.eq_false_of_mem_pieces (List.mem_filter.1 hword).1 d hd
  exact isAlphanum_clientWord hchars c hc

/-- Before its ending, the name of a client class is made of letters and digits and starts with no
digit. -/
theorem exists_clientName_eq (path : String) :
    ∃ front : String, clientName path = front ++ "Client" ∧
      (∀ c ∈ front.toList, c.isAlphanum = true) ∧
      ∀ c ∈ front.toList.head?, c.isDigit = false := by
  have hname := isAlphanum_clientWords (fileStem (fileName path.toList))
  rw [clientName]
  generalize (Text.words (!·.isAlphanum) (fileStem (fileName path.toList))).flatMap clientWord =
    name at hname ⊢
  by_cases hdigit : (name.head?.map Char.isDigit).getD false = true
  · rw [if_pos hdigit]
    refine ⟨"Abi" ++ String.ofList name, rfl, ?_, ?_⟩
    · have hchars : (String.ofList name).toList = name := String.toList_ofList
      rw [String.toList_append, hchars]
      have habi : "Abi".toList.all Char.isAlphanum = true := by decide
      exact List.forall_mem_append.2 ⟨List.all_eq_true.1 habi, hname⟩
    · intro c hc
      obtain rfl : 'A' = c := by simpa using hc
      rfl
  · rw [if_neg hdigit, String.empty_append]
    refine ⟨String.ofList name, rfl, ?_, fun c hc ↦ ?_⟩
    · rw [String.toList_ofList]
      exact hname
    · rw [String.toList_ofList] at hc
      rw [Option.mem_def.1 hc] at hdigit
      exact Bool.eq_false_iff.2 hdigit

theorem isIdentifierChar_of_isAlphanum {c : Char} (h : c.isAlphanum = true) :
    isIdentifierChar c = true := by
  rw [isIdentifierChar, h, Bool.or_true]

/-- The ending keeps the name off the reserved words, and what stands in front of it off the
digits. -/
theorem isIdentifier_clientName (path : String) : isIdentifier (clientName path) = true := by
  obtain ⟨front, heq, hchars, hhead⟩ := exists_clientName_eq path
  have hword : isWord (front ++ "Client").toList = true := by
    rw [String.toList_append]
    cases hfront : front.toList with
    | nil => rfl
    | cons c cs =>
      rw [hfront] at hchars hhead
      have hnames := fun d hd ↦ isIdentifierChar_of_isAlphanum (hchars d hd)
      have hstart := isIdentifierStart_of_isIdentifierChar
        (hnames c List.mem_cons_self) (hhead c rfl)
      have hcs : isWord (c :: cs) = true :=
        isWord_cons_iff.2 ⟨hstart, fun d hd ↦ hnames d (List.mem_cons_of_mem c hd)⟩
      have hending : IsName "Client" := by decide
      exact isWord_append hcs hending
  -- the capital of the ending is in no reserved word
  have hreserved : isReserved (front ++ "Client") = false :=
    not_isReserved_of_mem (c := 'C') (by simp) rfl
  rw [heq, isIdentifier, hword, hreserved]
  rfl

end AbiBindings.TypeScript

namespace AbiBindings.Client

open TypeScript

/-! ### Settings made from a name -/

/-- How the text with the declarations starts, if it takes the class of byte sequences from the
given module. -/
def typesStart (source : String) : String :=
  "/** @generated by abi-codegen - DO NOT EDIT. */\n" ++ "\n" ++
    "import type \x7b AbiBytes \x7d from " ++ stringLiteral source ++ ";\n"

/-- In every pair of generated texts the class of the client comes last and has the name of the
settings, and the text with the declarations starts with an import from the module of that name. -/
theorem exists_classes_generate {manifest : Manifest} (h : manifest.Obtained) {config : Config}
    (hname : IsName config.clientName) :
    ∃ types client before lines rest,
      generate manifest config = .ok ⟨types, client⟩ ∧ classes client = before ++
      [(config.clientName, lines)] ∧
        types = typesStart ("./" ++ config.clientName ++ ".js") ++ rest := by
  obtain ⟨declarations, all, hdeclarations, hall⟩ := exists_texts h.checked config
  have hscope : (scopeOf manifest config).Named := Scope.named_of manifest (reservedNames config)
  obtain ⟨hitems, herrors⟩ := neutral_declarations hscope hdeclarations
  obtain ⟨before, hclasses⟩ := classes_clientNodes hname (closed_declarationNodes hitems)
    (neutral_wrappers hscope herrors hall)
    (singleLine_wrappers manifest (reservedNames config) herrors hall)
  exact ⟨_, _, before, _, _, (generate_eq_ok hdeclarations hall).2.2, hclasses,
    render_typesNodes config declarations.nodes⟩

/-- The class of a client, its file and the module that the type declarations import go by one
name. -/
structure Config.GoesBy (config : Config) (name : String) : Prop where
  className : config.clientName = name
  file : config.clientFile = name ++ ".ts"
  stem : fileStem (fileName config.clientFile.toList) = name.toList
  importedModule : config.clientModule = "./" ++ name ++ ".js"
  moduleStem : fileStem (fileName config.clientModule.toList) = name.toList
  generated : ∀ (manifest : Manifest) (importPath : String), manifest.Obtained →
    ∃ types client before lines rest,
      generate manifest { config with importPath } = .ok ⟨types, client⟩ ∧
        classes client = before ++ [(name, lines)] ∧
        types = typesStart ("./" ++ name ++ ".js") ++ rest

theorem not_isPathSeparator_of_isName {name : String} (h : IsName name) :
    ∀ c ∈ name.toList, ¬ IsPathSeparator c := by
  rintro c hc (rfl | rfl)
  · exact absurd (h _ hc) (by decide)
  · exact absurd (h _ hc) (by decide)

/-- The stem of a file that is named by an identifier and an extension is the identifier. -/
theorem fileStem_fileName {name extension : String} (hname : isIdentifier name = true)
    (hextension : IsName extension) :
    fileStem (fileName (name.toList ++ '.' :: extension.toList)) = name.toList := by
  have hne : name.toList ≠ [] := by
    intro hnil
    rw [isIdentifier, hnil] at hname
    cases hname
  have hdot : '.' ∉ extension.toList := fun hmem ↦ absurd (hextension _ hmem) (by decide)
  have hfile : ∀ c ∈ name.toList ++ '.' :: extension.toList, ¬ IsPathSeparator c :=
    List.forall_mem_append.2 ⟨not_isPathSeparator_of_isName (isName_of_isIdentifier hname),
      List.forall_mem_cons.2 ⟨by decide, not_isPathSeparator_of_isName hextension⟩⟩
  rw [fileName_eq_self hfile, fileStem_append hne hdot]

/-- Settings made from an identifier go by it. -/
theorem goesBy_named {name : String} (hname : isIdentifier name = true) :
    (Config.named name).GoesBy name := by
  have hclass : (Config.named name).clientName = name := identifier_eq_self hname
  have hfile : (Config.named name).clientFile = name ++ ".ts" := congrArg (· ++ ".ts") hclass
  have hmodule : (Config.named name).clientModule = "./" ++ name ++ ".js" :=
    congrArg ("./" ++ · ++ ".js") hclass
  refine ⟨hclass, hfile, ?_, hmodule, ?_, fun manifest importPath h ↦ ?_⟩
  · have hextension : IsName "ts" := by decide
    have hchars : (name ++ ".ts").toList = name.toList ++ '.' :: "ts".toList := by simp
    rw [hfile, hchars, fileStem_fileName hname hextension]
  · have hextension : IsName "js" := by decide
    have hchars : ("./" ++ name ++ ".js").toList = ['.'] ++
        '/' :: (name.toList ++ '.' :: "js".toList) := by simp
    rw [hmodule, hchars, fileName_append (.inl rfl), fileStem_fileName hname hextension]
  · have hconfig : ({ Config.named name with importPath } : Config).clientName = name := hclass
    have hplain : IsName ({ Config.named name with importPath } : Config).clientName :=
      hconfig.symm ▸ isName_of_isIdentifier hname
    have hgenerated := exists_classes_generate h hplain
    rwa [hconfig] at hgenerated

/-- Every text is made into an identifier, which is the text itself exactly if that is one already,
so that nothing changes when it is done again. The name of the client class for any path is an
identifier that ends in `Client`. It is the same for all paths with the same last part, and settings
made from it keep it for the class, its file and the module that is imported. -/
theorem names_normalized (text path : String) :
    (isIdentifier (identifier text) = true ∧ (identifier text = text ↔ isIdentifier text = true) ∧
      identifier (identifier text) = identifier text) ∧
    isIdentifier (clientName path) = true ∧
      (∃ front, clientName path = front ++ "Client") ∧
      (∃ last, IsLastPart path last ∧
        ∀ other, IsLastPart other last → clientName other = clientName path) ∧
      (Config.named (clientName path)).GoesBy (clientName path) := by
  have hidentifier := isIdentifier_clientName path
  refine ⟨⟨isIdentifier_identifier text, identifier_eq_self_iff,
    identifier_eq_self (isIdentifier_identifier text)⟩,
    hidentifier, ?_, ?_, goesBy_named hidentifier⟩
  · obtain ⟨front, heq, -⟩ := exists_clientName_eq path
    exact ⟨front, heq⟩
  · refine ⟨String.ofList (fileName path.toList), isLastPart_fileName path, fun other hother ↦ ?_⟩
    rw [isLastPart_iff, String.toList_ofList] at hother
    rw [clientName, clientName, hother]

/-- A path with both separators, whose last part has two dots, starts with a digit and has short
words. -/
def crowdedPath : String := "dir.v2/ab\\2fa.kv_store.tar"

theorem names_normalized_crowdedPath :
    identifier "2 x" = "_2_x" ∧ isIdentifier "2 x" = false ∧ identifier "_2_x" = "_2_x" ∧
      clientName crowdedPath = "Abi2faKVStoreClient" ∧ isIdentifier "Abi2faKVStoreClient" = true ∧
      IsLastPart crowdedPath "2fa.kv_store.tar" ∧
      IsLastPart "/2fa.kv_store.tar" "2fa.kv_store.tar" ∧
      clientName "/2fa.kv_store.tar" = clientName crowdedPath ∧
      ∃ manifest, Manifest.ofJsonWith (fun _ ↦ []) bare = .ok manifest ∧
        ∃ types client before lines,
          generate manifest { Config.named "Abi2faKVStoreClient" with importPath := "runtime" } =
          .ok ⟨types, client⟩ ∧
          classes client = before ++ [("Abi2faKVStoreClient", lines)] := by
  have hname : clientName crowdedPath = "Abi2faKVStoreClient" := by decide +kernel
  have htext : identifier "2 x" = "_2_x" := by decide
  have hpath : IsLastPart crowdedPath "2fa.kv_store.tar" := isLastPart_iff.2 (by decide +kernel)
  have hroot : IsLastPart "/2fa.kv_store.tar" "2fa.kv_store.tar" :=
    isLastPart_iff.2 (by decide +kernel)
  obtain ⟨⟨-, hiff, hagain⟩, hidentifier, -, ⟨last, hlast, hsame⟩, hgoes⟩ :=
    names_normalized "2 x" crowdedPath
  obtain ⟨manifest, h⟩ : ∃ manifest, Manifest.ofJsonWith (fun _ ↦ []) bare = .ok manifest :=
    ⟨_, rfl⟩
  obtain ⟨types, client, before, lines, -, hgenerate, hclasses, -⟩ :=
    hgoes.generated manifest "runtime" (.ofJsonWith h)
  obtain rfl : last = "2fa.kv_store.tar" :=
    String.toList_inj.1 ((isLastPart_iff.1 hlast).symm.trans (isLastPart_iff.1 hpath))
  rw [htext] at hiff hagain
  rw [hname] at hidentifier hgenerate hclasses
  refine ⟨htext, ?_, hagain, hname, hidentifier, hpath, hroot, hsame _ hroot, manifest, h, types,
    client, before, lines, hgenerate, hclasses⟩
  exact Bool.eq_false_iff.2 fun hvalid ↦ absurd (hiff.2 hvalid) (by decide)

end AbiBindings.Client
