import AbiBindings.Proofs.Client.GlobalNames
import AbiBindings.Proofs.Client.NameClosure
import AbiBindings.Proofs.Client.SharedDeclarations

/-!
# Names at the top of a client

The names that a text imports and declares at its top are read off it. In a client these are the two
names of its imports, those of the declarations, four names that all clients have, and last the name
of the class.

All but the last are told apart: the declarations are kept clear of the names that the text uses
itself, the name of the class among them (`names_parts`). Only the class is named after a text from
outside, and nothing keeps that name clear of the fixed ones. A fixed name has no underscore, so the
class has it exactly if it is named so (`identifier_eq_iff`), and that is when a name is declared
twice (`nodup_topNames_iff`).
-/

namespace AbiBindings.TypeScript

/-! ### Reading names -/

/-- The name that a statement with this first line declares, exported or not. -/
def declaredBy? (line : List Char) : Option String :=
  ((exportOf? line).map Export.name).or <|
    ["class", "const", "function", "interface", "type"].findSome? fun keyword ↦
      (List.isPrefixOf? (keyword.toList ++ [' ']) line).map fun rest ↦
        String.ofList (rest.takeWhile isIdentifierChar)

/-- The names that a text declares at its top. -/
def declaredNames (text : String) : List String := (statements text).filterMap declaredBy?

/-- The first name on a line. -/
def nameOn (line : List Char) : String :=
  String.ofList ((line.dropWhile (· = ' ')).takeWhile isIdentifierChar)

/-- The names in the braces of the first import that goes over several lines. -/
def importedNames (text : String) : List String :=
  (((Text.pieces (· = '\n') text.toList).dropWhile (· ≠ "import \x7b".toList)).tail.takeWhile
    (·.head? = some ' ')).map nameOn

/-- The names that a text has at its top: those that it imports, and those that it declares. -/
def topNames (text : String) : List String := importedNames text ++ declaredNames text

example : topNames
    "import \x7b\n  A,\n\x7d from 'a';\ntype B =\n  | 'x';\nexport class C \x7b\ntype D\n\x7d\n" =
    ["A", "B", "C"] := by decide

theorem filterMap_declaredBy? {lines : List (List Char)} {exported : List Export}
    (h : lines.map exportOf? = exported.map some) :
    lines.filterMap declaredBy? = exported.map Export.name := by
  induction lines generalizing exported with
  | nil =>
    rw [List.map_nil, eq_comm, List.map_eq_nil_iff] at h
    rw [h]
    rfl
  | cons line lines ih =>
    cases exported with
    | nil => cases h
    | cons statement exported =>
      obtain ⟨hline, hlines⟩ := List.cons_eq_cons.1 h
      have hdeclared : declaredBy? line = some statement.name := by
        rw [declaredBy?, hline]
        rfl
      rw [List.filterMap_cons_some hdeclared, ih hlines, List.map_cons]

/-- The names that a text imports are on the lines inside its first import. -/
theorem importedNames_eq {text : String} {before inside after : List (List Char)} {last : List Char}
    (h : Text.pieces (· = '\n') text.toList = before ++ "import \x7b".toList ::
      (inside ++ last :: after))
    (hbefore : ∀ line ∈ before, line ≠ "import \x7b".toList)
      (hinside : ∀ line ∈ inside, line.head? = some ' ')
    (hlast : last.head? ≠ some ' ') : importedNames text = inside.map nameOn := by
  rw [importedNames, h, List.dropWhile_append_of_pos fun line hline ↦
    decide_eq_true (hbefore line hline), List.dropWhile_cons_of_neg (by simp), List.tail_cons,
    List.takeWhile_append_of_pos fun line hline ↦ decide_eq_true (hinside line hline),
    List.takeWhile_cons_of_neg (by simpa using hlast), List.append_nil]

end AbiBindings.TypeScript

namespace AbiBindings.Client

open TypeScript NameSet

/-- The lines that a client starts with, up to the end of its import. -/
def firstLines : List (List Char) :=
  [Layout.banner, "", "import \x7b", "  CalimeroApp,", "  Context,"].map String.toList

theorem importedNames_of_firstLines {text : String} {more : List Char}
    (h : text.toList = firstLines.flatMap (· ++ ['\n']) ++ '\x7d' :: more) :
    importedNames text = Runtime.imports := by
  have hlines : ∀ line ∈ firstLines, '\n' ∉ line := by decide
  have hpieces := Text.pieces_lines hlines ('\x7d' :: more)
  obtain ⟨last, after, hlast⟩ := List.exists_cons_of_ne_nil (Text.pieces_ne_nil (· = '\n') more)
  have hbrace : Text.pieces (· = '\n') ('\x7d' :: more) = ('\x7d' :: last) :: after := by
    rw [Text.pieces, hlast]
    rfl
  rw [← h, hbrace] at hpieces
  have hbefore : ∀ line ∈ firstLines.take 2, line ≠ "import \x7b".toList := by decide
  have hinside : ∀ line ∈ firstLines.drop 3, line.head? = some ' ' := by decide
  have hnames : (firstLines.drop 3).map nameOn = Runtime.imports := by decide
  rw [importedNames_eq hpieces hbefore hinside (by simp), hnames]

theorem importedNames_client (config : Config) (declarations : List Node) (all : List Wrapper) :
    importedNames (Layout.render (clientNodes config declarations all)) = Runtime.imports := by
  have hstart : ("/** @generated by abi-codegen - DO NOT EDIT. */\n" ++ "\n" ++
      "import \x7b\n  CalimeroApp,\n  Context,\n\x7d from ").toList =
        firstLines.flatMap (· ++ ['\n']) ++ '\x7d' :: " from ".toList := by decide
  have hprefix : ("/** @generated by abi-codegen - DO NOT EDIT. */\n" ++ "\n" ++
      "import \x7b\n  CalimeroApp,\n  Context,\n\x7d from ").toList <+:
        (Layout.render (clientNodes config declarations all)).toList := by
    rw [render_clientNodes]
    simp only [String.toList_append, List.append_assoc, List.prefix_append_right_inj,
      List.prefix_append]
  obtain ⟨more, hmore⟩ := hprefix
  rw [hstart, List.append_assoc, List.cons_append] at hmore
  exact importedNames_of_firstLines hmore.symm

/-! ### Names of a client -/

/-- The names at the top of a client that all clients have. -/
def fixedNames : List String :=
  ["CalimeroApp", "Context", "AbiBytes", "AbiShape", "convertAbiBytesForWasm",
    "convertWasmResultToAbiBytes"]

theorem reserved_of_fixed (config : Config) {name : String} (h : name ∈ fixedNames) :
    name ∈ bytesName :: eventsName :: reservedNames config := by
  have hall : ∀ name ∈ fixedNames, name ∈ bytesName :: eventsName :: Runtime.imports ++
      [Runtime.toWire, Runtime.fromWire, Runtime.shapeType] := by decide
  have hsplit : bytesName :: eventsName :: reservedNames config =
      bytesName :: eventsName :: Runtime.imports ++
      [Runtime.toWire, Runtime.fromWire, Runtime.shapeType] ++ [config.clientName] := rfl
  rw [hsplit]
  exact List.mem_append_left _ (hall name h)

theorem eventNames_eq_nil_iff (manifest : Manifest) (reserved : List String) :
    (Scope.of manifest reserved).eventNames = [] ↔ manifest.events = [] := by
  have hmanifest : (Scope.of manifest reserved).manifest = manifest := rfl
  rw [Scope.eventNames, hmanifest]
  cases manifest.events with
  | nil => exact iff_of_true rfl rfl
  | cons event events =>
    refine iff_of_false ?_ (List.cons_ne_nil _ _)
    rw [allocateEventNames]
    split <;> exact List.cons_ne_nil _ _

section Client

variable {manifest : Manifest} (h : manifest.Checked) {config : Config}
    (hclass : IsName config.clientName)
  {declarations : Declarations}
    (hdeclarations : Declarations.of (scopeOf manifest config) = .ok declarations)
  {parts : List (List Declaration)}
  (hitems : declarations.items = parts.flatten ++ eventUnion (scopeOf manifest config).eventNames)
  (hresolved : ∀ declaration ∈ declarations.items, declaration.Resolved (exportsOf parts))
include h hdeclarations hitems

include hclass hresolved in
theorem topNames_client {all : List Wrapper}
    (hall : wrappers (scopeOf manifest config) declarations.errorNames = .ok all) :
    topNames (Layout.render (clientNodes config declarations.nodes all)) =
      Runtime.imports ++ (declarations.items.map Declaration.name ++ fixedNames.drop 2) ++
        [config.clientName] := by
  have hscope := Scope.named_of manifest (reservedNames config)
  obtain ⟨hneutral, hidents⟩ := neutral_declarations hscope hdeclarations
  have hclosed := closed_clientNodes hclass (closed_declarationNodes hneutral)
    (neutral_wrappers hscope hidents hall)
  obtain ⟨rest, classLine, hexport, hlines⟩ := statements_clientNodes hclass hclosed
  have himport : declaredBy? ("import \x7b".toList ++ rest) = none := rfl
  have hclassLine : declaredBy? classLine = some config.clientName := by
    rw [declaredBy?, hexport]
    rfl
  have hruntime : runtimeStatements.filterMap declaredBy? = fixedNames.drop 2 := by decide
  rw [topNames, importedNames_client, declaredNames, statements_render hclosed, hlines,
    List.filterMap_cons_none himport, List.filterMap_append,
    filterMap_declaredBy? (exports_items (h.names .type) hdeclarations hitems hresolved),
    Declaration.names_exported, List.filterMap_append, hruntime,
    List.filterMap_cons_some hclassLine, List.filterMap_nil]
  simp only [List.append_assoc]

omit h hdeclarations in
/-- The names at the top of a client, without that of the class, in another order. -/
theorem others_perm :
    (Runtime.imports ++ (declarations.items.map Declaration.name ++ fixedNames.drop 2)).Perm
      (parts.flatten.map Declaration.name ++
        (fixedNames ++
          if (scopeOf manifest config).eventNames = [] then [] else [eventsName])) := by
  have hfixed : fixedNames = Runtime.imports ++ fixedNames.drop 2 := rfl
  rw [hitems, List.map_append, names_eventUnion, hfixed, List.append_assoc, List.append_assoc]
  generalize fixedNames.drop 2 = rest
  generalize (if (scopeOf manifest config).eventNames = [] then [] else [eventsName]) = union
  refine List.perm_append_comm_assoc _ _ _ |>.trans
    (.append_left _ (.append_left _ List.perm_append_comm))

theorem nodup_others :
    (Runtime.imports ++ (declarations.items.map Declaration.name ++ fixedNames.drop 2)).Nodup := by
  obtain ⟨hnd, hfree⟩ := names_parts (h.names .type) hdeclarations hitems
  rw [(others_perm hitems).nodup_iff, List.nodup_append']
  refine ⟨hnd, by split <;> decide, fun name hname hother ↦ (hfree name hname).2 ?_⟩
  rw [List.mem_append] at hother
  obtain hother | hother := hother
  · exact reserved_of_fixed config hother
  · split at hother
    · cases hother
    · rw [List.mem_singleton.1 hother]
      simp

/-- Of the names that the text uses itself, those at its top are the fixed ones, and that of the
union of all events. -/
theorem mem_others_iff {name : String}
    (hname : name ∈ bytesName :: eventsName :: reservedNames config) :
    name ∈ Runtime.imports ++ (declarations.items.map Declaration.name ++ fixedNames.drop 2) ↔
      name ∈ fixedNames ∨ name = eventsName ∧ manifest.events ≠ [] := by
  have hfree := (names_parts (h.names .type) hdeclarations hitems).2
  have hparts : name ∉ parts.flatten.map Declaration.name := fun hmem ↦ (hfree _ hmem).2 hname
  have hevents : (scopeOf manifest config).eventNames = [] ↔ manifest.events = [] :=
    eventNames_eq_nil_iff _ _
  rw [(others_perm hitems).mem_iff, List.mem_append, or_iff_right hparts, List.mem_append]
  refine or_congr_right ?_
  by_cases hnil : manifest.events = [] <;> simp [hevents, hnil]

end Client

/-- The class is named so exactly if the text that it is named after is one of these names. -/
theorem identifier_mem_iff {name : String} {events : List Event} :
    identifier name ∈ fixedNames ∨ identifier name = eventsName ∧ events ≠ [] ↔
      name ∈ fixedNames ∨ name = eventsName ∧ events ≠ [] := by
  have hall : ∀ word ∈ eventsName :: fixedNames, identifier word = word ∧
      '_' ∉ word.toList := by decide
  have hiff {word : String} (hword : word ∈ eventsName :: fixedNames) :
      identifier name = word ↔ name = word :=
    identifier_eq_iff (hall word hword).1 (hall word hword).2
  rw [hiff List.mem_cons_self]
  refine or_congr_left ⟨fun hmem ↦ ?_, fun hmem ↦ ?_⟩
  · rwa [(hiff (List.mem_cons_of_mem _ hmem)).1 rfl]
  · rwa [(hiff (List.mem_cons_of_mem _ hmem)).2 rfl]

/-- A client is generated whose class comes last, after names that are told apart: those of imports
and declarations, and those that it has of itself. A name is there twice exactly if the class is
named after one of the latter. -/
theorem nodup_topNames_iff {manifest : Manifest} (h : manifest.Obtained) (name importPath : String)
    (config : Config) (hconfig : config = { Config.named name with importPath }) :
    ∃ types client others, generate manifest config = .ok ⟨types, client⟩ ∧
      topNames client = others ++ [identifier name] ∧ others.Nodup ∧
      (∀ fixed ∈ fixedNames, fixed ∈ others) ∧ ("AbiEvent" ∈ others ↔ manifest.events ≠ []) ∧
      (identifier name ∈ others ↔ name ∈ fixedNames ∨ name = "AbiEvent" ∧ manifest.events ≠ []) ∧
      ((topNames client).Nodup ↔
        ¬ (name ∈ fixedNames ∨ name = "AbiEvent" ∧ manifest.events ≠ [])) := by
  have hname : config.clientName = identifier name := by rw [hconfig]; rfl
  obtain ⟨declarations, all, hdeclarations, hall⟩ := exists_texts h.checked config
  obtain ⟨parts, hitems, -, -, hresolved⟩ := exists_parts hdeclarations
  have htop := topNames_client h.checked (hname ▸ isName_identifier name) hdeclarations hitems
    hresolved hall
  have hnd := nodup_others h.checked hdeclarations hitems
  have hmem {other : String} (hother : other ∈ bytesName :: eventsName :: reservedNames config) :=
    mem_others_iff h.checked hdeclarations hitems hother
  rw [hname] at htop
  generalize Runtime.imports ++ (declarations.items.map Declaration.name ++ fixedNames.drop 2) =
    others at htop hnd hmem
  have hclass : identifier name ∈ others ↔ name ∈ fixedNames ∨ name = eventsName ∧
      manifest.events ≠ [] := by
    rw [hmem (by simp [reservedNames, hname]), identifier_mem_iff]
  have hevent : eventsName ∈ others ↔ manifest.events ≠ [] := by
    rw [hmem (by simp), or_iff_right (by decide), and_iff_right rfl]
  have htwice : (others ++ [identifier name]).Nodup ↔ identifier name ∉ others := by
    rw [List.nodup_append', and_iff_right hnd, and_iff_right (List.nodup_singleton _),
      List.disjoint_singleton]
  refine ⟨_, _, others, (generate_eq_ok hdeclarations hall).2.2, htop, hnd,
    fun fixed hfixed ↦ ?_, hevent, hclass, ?_⟩
  · exact (hmem (reserved_of_fixed config hfixed)).2 (.inl hfixed)
  · rw [htop, htwice, hclass]
    rfl

theorem nodup_topNames_iff_interwoven :
    ∃ manifest, Manifest.ofJsonWith (fun _ ↦ []) interwoven = .ok manifest ∧ manifest.events ≠ [] ∧
      (∃ types client,
        generate manifest { Config.named "Seed" with importPath := "runtime" } =
          .ok ⟨types, client⟩ ∧
        (topNames client).Nodup) ∧
      ∃ types client, generate manifest { Config.named "AbiEvent" with importPath := "runtime" } =
        .ok ⟨types, client⟩ ∧
        ¬ (topNames client).Nodup := by
  obtain ⟨manifest, h⟩ : ∃ manifest, Manifest.ofJsonWith (fun _ ↦ []) interwoven = .ok manifest :=
    ⟨_, rfl⟩
  have hevents : manifest.events ≠ [] := by
    cases h
    exact List.cons_ne_nil _ _
  obtain ⟨types, client, -, hseed, -, -, -, -, -, hnodup⟩ :=
    nodup_topNames_iff (.ofJsonWith h) "Seed" "runtime" _ rfl
  obtain ⟨types', client', -, hevent, -, -, -, -, -, htwice⟩ :=
    nodup_topNames_iff (.ofJsonWith h) "AbiEvent" "runtime" _ rfl
  refine ⟨manifest, h, hevents, ⟨types, client, hseed, hnodup.2 ?_⟩, types', client',
    hevent, fun hnd ↦ ?_⟩
  · exact not_or_intro (by decide) fun hname ↦ absurd hname.1 (by decide)
  · exact htwice.1 hnd (.inr ⟨rfl, hevents⟩)

/-- A class that is named after the class of byte sequences is declared beside it. -/
theorem bytesClass_declared_twice :
    ∃ manifest types client, Manifest.ofJsonWith (fun _ ↦ []) bare = .ok manifest ∧
      generate manifest (.named "AbiBytes") = .ok ⟨types, client⟩ ∧
      topNames client = ["CalimeroApp", "Context", "AbiBytes", "AbiShape", "convertAbiBytesForWasm",
        "convertWasmResultToAbiBytes", "AbiBytes"] := by
  obtain ⟨manifest, h⟩ : ∃ manifest, Manifest.ofJsonWith (fun _ ↦ []) bare = .ok manifest :=
    ⟨_, rfl⟩
  have hchecked := (Manifest.Obtained.ofJsonWith h).checked
  have hnone : Declarations.of (scopeOf manifest (.named "AbiBytes")) = .ok ⟨[], []⟩ := by
    cases h
    rfl
  obtain ⟨declarations, all, hdeclarations, hall⟩ := exists_texts hchecked (.named "AbiBytes")
  obtain rfl : declarations = ⟨[], []⟩ := Except.ok.inj (hdeclarations.symm.trans hnone)
  obtain ⟨parts, hitems, -, -, hresolved⟩ := exists_parts hdeclarations
  exact ⟨manifest, _, _, h, (generate_eq_ok hdeclarations hall).2.2,
    topNames_client hchecked (isName_identifier "AbiBytes") hdeclarations hitems hresolved hall⟩

end AbiBindings.Client
