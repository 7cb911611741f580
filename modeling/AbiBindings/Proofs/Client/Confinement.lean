import AbiBindings.Client.Generate
import AbiBindings.Proofs.Client.Totality
import AbiBindings.Proofs.Client.Wrappers

/-!
# Generated texts are confined

Names, codes and tags of a manifest are arbitrary strings, and so is the module that the runtime is
imported from. In the generated texts each of them stays in its place: scanning a text never meets a
line end inside a string, closes all brackets in order and ends in code (`generate_confined`). Both
texts are rendered from closed nodes: the declarations, the wrappers, and a few lines and snippets
that are the same for every manifest.
-/

namespace AbiBindings.Client

open TypeScript

/-! ### Fixed parts -/

theorem closed_generated : ∀ node ∈ Layout.generated, node.Closed :=
  List.forall_mem_cons.2 ⟨.line (.fixed (by decide)), List.forall_mem_singleton.2 .blank⟩

/-- A literal is the text of a list of characters, which is the form that evaluates. -/
theorem closed_snippet {cs : List Char}
    (h : (⟨.code, []⟩ : LexState).scan cs = some ⟨.code, []⟩ ∧ '\r' ∉ cs) :
    (Node.snippet (String.ofList cs)).Closed :=
  .snippet (.fixed h.1) (by rw [String.toList_ofList]; exact h.2)

set_option maxRecDepth 20000 in
theorem closed_bytesClass : (Node.snippet Runtime.bytesClass).Closed :=
  closed_snippet (by decide +kernel)

set_option maxRecDepth 20000 in
theorem closed_converters : (Node.snippet Runtime.converters).Closed :=
  closed_snippet (by decide +kernel)

/-! ### The texts -/

/-- Declarations with neutral texts are closed. -/
theorem closed_declarationNodes {declarations : Declarations}
    (h : ∀ declaration ∈ declarations.items, declaration.Neutral) :
    ∀ node ∈ declarations.nodes, node.Closed := by
  intro node hnode
  obtain ⟨declaration, hdeclaration, hnode⟩ := List.mem_flatMap.1 hnode
  exact (h declaration hdeclaration).closed_nodes node hnode

/-- The import names the module of the client class in a literal. -/
theorem closed_typesNodes (config : Config) {declarations : List Node}
    (h : ∀ node ∈ declarations, node.Closed) :
    ∀ node ∈ typesNodes config declarations, node.Closed := by
  have hmodule := neutral_stringLiteral config.clientModule
  have himport : Neutral ("import type \x7b " ++ bytesName ++ " \x7d from " ++
      stringLiteral config.clientModule ++ ";") :=
    Leads.append (.append (.append (.append (.fixed rfl) (.fixed rfl)) (.fixed rfl)) hmodule)
      (.fixed rfl)
  simp only [typesNodes, List.forall_mem_append]
  exact ⟨⟨closed_generated,
    List.forall_mem_cons.2 ⟨.line himport, List.forall_mem_singleton.2 .blank⟩⟩, h⟩

/-- A class with neutral members is closed. -/
theorem closed_classNode {config : Config} (hname : IsName config.clientName)
    {wrappers : List Wrapper} (h : ∀ wrapper ∈ wrappers, wrapper.Neutral) :
    (classNode config wrappers).Closed := by
  have hopening : Leads [] ("export class " ++ config.clientName ++ " \x7b") ['\x7d'] :=
    Leads.append (.append (.fixed rfl) hname.neutral) (.fixed rfl)
  have hconstructor : (Node.block "constructor(app: CalimeroApp, context: Context) \x7b"
      [.line "this.app = app;", .line "this.context = context;"] "\x7d").Closed := by
    refine .block (.fixed (by decide)) ?_ (.fixed rfl)
    simp only [List.forall_mem_cons]
    exact ⟨.line (.fixed rfl), .line (.fixed rfl), nofun⟩
  refine .block hopening ?_ (.fixed rfl)
  simp only [List.forall_mem_append, List.forall_mem_cons]
  refine ⟨⟨.line (.fixed rfl), .line (.fixed rfl), .blank, hconstructor, nofun⟩,
    fun node hnode ↦ ?_⟩
  obtain ⟨wrapper, hwrapper, hnode⟩ := List.mem_flatMap.1 hnode
  exact List.forall_mem_cons.2 ⟨.blank, (h wrapper hwrapper).closed_nodes⟩ node hnode

/-- The text with the client is made of closed nodes. -/
theorem closed_clientNodes {config : Config} (hname : IsName config.clientName)
    {declarations : List Node} (h : ∀ node ∈ declarations, node.Closed) {wrappers : List Wrapper}
    (hwrappers : ∀ wrapper ∈ wrappers, wrapper.Neutral) :
    ∀ node ∈ clientNodes config declarations wrappers, node.Closed := by
  have hpath := neutral_stringLiteral config.importPath
  have hclosing : Leads ['\x7d'] ("\x7d from " ++ stringLiteral config.importPath ++ ";") [] :=
    Leads.append (.append (.fixed rfl) hpath) (.fixed rfl)
  have himport : (Node.block "import \x7b" (Runtime.imports.map fun name ↦ .line (name ++ ","))
      ("\x7d from " ++ stringLiteral config.importPath ++ ";")).Closed := by
    refine .block (.fixed rfl) (fun node hnode ↦ ?_) hclosing
    obtain ⟨name, hmem, rfl⟩ := List.mem_map.1 hnode
    have himported : ∀ name ∈ Runtime.imports, IsName name :=
      List.forall_mem_cons.2 ⟨by decide, List.forall_mem_singleton.2 (by decide)⟩
    exact .line ((himported name hmem).neutral.append (.fixed rfl))
  simp only [clientNodes, List.forall_mem_append, List.forall_mem_cons]
  exact ⟨⟨⟨closed_generated, himport, .blank, .comment (by decide), .blank, nofun⟩, h⟩,
    .blank, closed_bytesClass, .blank, closed_converters, .blank,
    closed_classNode hname hwrappers, nofun⟩

/-- Whatever strings a manifest holds, and whatever texts the client class and the module of the
runtime are named by, both texts are generated, and both are neutral. -/
theorem generate_confined {manifest : Manifest} (h : manifest.Obtained) (name importPath : String) :
    ∃ generated, generate manifest { Config.named name with importPath } = .ok generated ∧
      Neutral generated.types ∧ Neutral generated.client := by
  have hname : IsName ({ Config.named name with importPath } : Config).clientName :=
    isName_identifier name
  -- from here on the settings matter only through the name of the class
  generalize ({ Config.named name with importPath } : Config) = config at hname ⊢
  obtain ⟨declarations, all, hdeclarations, hall⟩ := exists_texts h.checked config
  have hscope : (scopeOf manifest config).Named := Scope.named_of manifest (reservedNames config)
  obtain ⟨hitems, herrors⟩ := neutral_declarations hscope hdeclarations
  have hnodes := closed_declarationNodes hitems
  have htypes := neutral_render (closed_typesNodes config hnodes)
  have hclient :=
    neutral_render (closed_clientNodes hname hnodes (neutral_wrappers hscope herrors hall))
  refine ⟨_, (generate_eq_ok hdeclarations hall).2.2, ?_⟩
  dsimp only
  exact ⟨htypes, hclient⟩

/-- A value in which names, codes and tags try to leave their places. -/
def unruly : Json :=
  .object [("schema_version", .string "wasm-abi/1"),
    ("types", .object [
      ("*/ \x7b", .object [("kind", .string "variant"), ("variants", .array [
        .object [("name", .string "it's\n"),
          ("payload", .object [("kind", .string "bytes")])]])])]),
    ("methods", .array [.object [("name", .string "*/ '\r\n\\"),
      ("params", .array [.object [("name", .string "\"]("),
        ("type", .object [("$ref", .string "*/ \x7b")])]]),
      ("returns", .object [("$ref", .string "*/ \x7b")]),
      ("errors", .array [.object [("code", .string "*/\n'); //")]])]]),
    ("events", .array [.object [("name", .string "/* '")]])]

theorem generate_confined_unruly :
    ∃ manifest, Manifest.ofJsonWith (fun _ ↦ []) unruly = .ok manifest ∧
      ∃ generated, generate manifest { Config.named "\x7b '" with importPath := "'\n\"" } =
      .ok generated ∧
        Neutral generated.types ∧ Neutral generated.client := by
  obtain ⟨manifest, h⟩ : ∃ manifest, Manifest.ofJsonWith (fun _ ↦ []) unruly = .ok manifest :=
    ⟨_, rfl⟩
  exact ⟨manifest, h, generate_confined (.ofJsonWith h) "\x7b '" "'\n\""⟩

end AbiBindings.Client
