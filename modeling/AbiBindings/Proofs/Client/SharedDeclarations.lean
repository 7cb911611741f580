import AbiBindings.Proofs.Client.Totality
import AbiBindings.Proofs.TypeScript.Seams

/-!
# Both texts have the same declarations

The declarations are made twice, once for each text, and rendered between different neighbours. Both
times the names that are kept clear of are the same, so the declarations are the same nodes. In both
texts a blank node stands at either end of them, so they are rendered as if they stood alone
(`render_append_blank`). What is left are the neighbours: single lines, the import of the runtime,
and the two texts that every client has.
-/

namespace AbiBindings.Client

open TypeScript Layout

/-! ### The neighbours -/

theorem render_banner : render [.line banner] =
    "/** @generated by abi-codegen - DO NOT EDIT. */\n" := by
  rw [render_line]
  simp [banner]

theorem render_runtimeImport (path : String) :
    render [.block "import \x7b" (Runtime.imports.map fun name ↦ .line (name ++ ","))
      ("\x7d from " ++ stringLiteral path ++ ";")] =
      "import \x7b\n  CalimeroApp,\n  Context,\n\x7d from " ++ stringLiteral path ++ ";\n" := by
  generalize stringLiteral path = path
  have hlines :
      nodesLines 0 [.block "import \x7b" (Runtime.imports.map fun name ↦ .line (name ++ ","))
      ("\x7d from " ++ path ++ ";")] =
        [.text 0 "import \x7b", .text 1 "CalimeroApp,", .text 1 "Context,",
          .text 0 ("\x7d from " ++ path ++ ";")] := by
    simp only [nodesLines, nodeLines, Runtime.imports, List.map_cons, List.map_nil]
    rfl
  have hstart : linesText [.text 0 "import \x7b", .text 1 "CalimeroApp,", .text 1 "Context,"] ++
      "\x7d from " =
      "import \x7b\n  CalimeroApp,\n  Context,\n\x7d from " := by
    have hindent : "".pushn ' ' 0 = "" ∧ "".pushn ' ' 2 = "  " := by decide
    simp [linesText, Line.render, hindent]
  have hclosing : linesText [.text 0 ("\x7d from " ++ path ++ ";")] = "\x7d from " ++
      (path ++ ";\n") := by
    have hend : ";\n" = ";" ++ "\n" := by decide
    rw [linesText_cons, Line.render_text_zero, hend]
    show "\x7d from " ++ path ++ ";" ++ "\n" ++ "" = _
    rw [String.append_empty, String.append_assoc, String.append_assoc]
  show linesText (tidy (nodesLines 0 _)) = _
  rw [hlines]
  show linesText ([.text 0 "import \x7b", .text 1 "CalimeroApp,", .text 1 "Context,"] ++ [_]) = _
  rw [linesText_append, hclosing, ← String.append_assoc, hstart, String.append_assoc]

set_option maxRecDepth 20000 in
theorem render_bytesClass : render [.snippet Runtime.bytesClass] = Runtime.bytesClass ++ "\n" :=
  render_snippet (by decide +kernel)

set_option maxRecDepth 20000 in
theorem render_converters : render [.snippet Runtime.converters] = Runtime.converters ++ "\n" :=
  render_snippet (by decide +kernel)

/-! ### The texts -/

/-- The text with the declarations is made of two lines and, if there are any declarations, of
these. -/
theorem render_typesNodes (config : Config) (declarations : List Node) :
    render (typesNodes config declarations) =
      "/** @generated by abi-codegen - DO NOT EDIT. */\n" ++ "\n" ++
        "import type \x7b AbiBytes \x7d from " ++
          stringLiteral ("./" ++ config.clientName ++ ".js") ++ ";\n" ++
        (if render declarations = "" then "" else "\n" ++ render declarations) := by
  have hnodes : typesNodes config declarations = .line banner :: .blank ::
      .line ("import type \x7b AbiBytes \x7d from " ++
        stringLiteral ("./" ++ config.clientName ++ ".js") ++ ";") ::
      .blank :: declarations := rfl
  have hend : ";\n" = ";" ++ "\n" := by decide
  generalize stringLiteral ("./" ++ config.clientName ++ ".js") = path at hnodes ⊢
  rw [hnodes, render_paragraph (render_line_ne_empty _),
    if_neg (render_paragraph_ne_empty (render_line_ne_empty _) _),
    render_paragraph (render_line_ne_empty _), render_banner, render_line, hend]
  simp only [String.append_assoc]

/-- The rest: what stands after the declarations in the text with the client class. -/
theorem render_clientRest (config : Config) (all : List Wrapper) :
    render [.snippet Runtime.bytesClass, .blank, .snippet Runtime.converters, .blank,
      classNode config all] =
      Runtime.bytesClass ++ "\n" ++ "\n" ++ Runtime.converters ++ "\n" ++ "\n" ++
        render [classNode config all] := by
  have hclass : render [classNode config all] ≠ "" := render_block_ne_empty _ _ _
  have hbytes : render [.snippet Runtime.bytesClass] ≠ "" :=
    render_bytesClass ▸ append_newline_ne_empty _
  have hconverters : render [.snippet Runtime.converters] ≠ "" :=
    render_converters ▸ append_newline_ne_empty _
  rw [render_paragraph hbytes, if_neg (render_paragraph_ne_empty hconverters _),
    render_paragraph hconverters, if_neg hclass, render_bytesClass, render_converters]
  simp only [String.append_assoc]

/-- The text with the client class has the same two parts around the declarations, whatever they
are. -/
theorem render_clientNodes (config : Config) (declarations : List Node) (all : List Wrapper) :
    render (clientNodes config declarations all) =
      "/** @generated by abi-codegen - DO NOT EDIT. */\n" ++ "\n" ++
        "import \x7b\n  CalimeroApp,\n  Context,\n\x7d from " ++ stringLiteral config.importPath ++
          ";\n" ++ "\n" ++
        "// Generated types\n" ++ "\n" ++
        (if render declarations = "" then "" else render declarations ++ "\n") ++
        Runtime.bytesClass ++ "\n" ++ "\n" ++ Runtime.converters ++ "\n" ++ "\n" ++
          render [classNode config all] := by
  have hnodes : clientNodes config declarations all = .line banner :: .blank ::
      .block "import \x7b" (Runtime.imports.map fun name ↦ .line (name ++ ","))
        ("\x7d from " ++ stringLiteral config.importPath ++ ";") :: .blank ::
      .line "// Generated types" :: .blank :: (declarations ++ .blank ::
        [.snippet Runtime.bytesClass, .blank, .snippet Runtime.converters, .blank,
          classNode config all]) := by
    simp only [clientNodes, generated, List.cons_append, List.nil_append]
  have hcomment : "// Generated types\n" = "// Generated types" ++ "\n" := by simp
  have hrest : render [.snippet Runtime.bytesClass, .blank, .snippet Runtime.converters, .blank,
      classNode config all] ≠ "" :=
      render_paragraph_ne_empty (render_bytesClass ▸ append_newline_ne_empty _) _
  have hbody := seam_of_right hrest (render declarations)
  have hbodyNe : seam (render declarations)
      (render [.snippet Runtime.bytesClass, .blank, .snippet Runtime.converters,
      .blank, classNode config all]) ≠ "" := by
    rw [hbody, Ne, String.append_eq_empty_iff]
    exact fun h ↦ hrest h.2
  rw [hnodes, render_paragraph (render_line_ne_empty _),
    if_neg (render_paragraph_ne_empty (render_block_ne_empty _ _ _) _),
    render_paragraph (render_block_ne_empty _ _ _),
    if_neg (render_paragraph_ne_empty (render_line_ne_empty _) _),
    render_paragraph (render_line_ne_empty _),
    render_append_blank, if_neg hbodyNe, hbody, render_clientRest, render_banner,
    render_runtimeImport, render_line, hcomment]
  simp only [String.append_assoc]

/-- For a manifest that was obtained, and whatever settings, both texts have the same declarations:
one text `declared`, which is that of the declarations alone, stands in both, set off by empty lines
if it is not empty. Around it the texts depend on the settings only, up to the client class at the
end. -/
theorem texts_share_declarations {manifest : Manifest} (h : manifest.Obtained) (config : Config) :
    ∃ declarations all declared types client,
      Declarations.of (scopeOf manifest config) = .ok declarations ∧
      wrappers (scopeOf manifest config) declarations.errorNames = .ok all ∧
      declared = render declarations.nodes ∧
      generateTypes manifest config = .ok types ∧ generateClient manifest config = .ok client ∧
      generate manifest config = .ok ⟨types, client⟩ ∧
      types =
        "/** @generated by abi-codegen - DO NOT EDIT. */\n" ++ "\n" ++
          "import type \x7b AbiBytes \x7d from " ++
            stringLiteral ("./" ++ config.clientName ++ ".js") ++ ";\n" ++
          (if declared = "" then "" else "\n" ++ declared) ∧
      client =
        "/** @generated by abi-codegen - DO NOT EDIT. */\n" ++ "\n" ++
          "import \x7b\n  CalimeroApp,\n  Context,\n\x7d from " ++
            stringLiteral config.importPath ++ ";\n" ++ "\n" ++
          "// Generated types\n" ++ "\n" ++
          (if declared = "" then "" else declared ++ "\n") ++
          Runtime.bytesClass ++ "\n" ++ "\n" ++ Runtime.converters ++ "\n" ++ "\n" ++
          render [classNode config all] := by
  obtain ⟨declarations, all, hdeclarations, hall⟩ := exists_texts h.checked config
  obtain ⟨htypes, hclient, hboth⟩ := generate_eq_ok hdeclarations hall
  exact ⟨declarations, all, render declarations.nodes,
    render (typesNodes config declarations.nodes),
    render (clientNodes config declarations.nodes all), hdeclarations, hall, rfl, htypes,
    hclient, hboth,
    render_typesNodes config declarations.nodes, render_clientNodes config declarations.nodes all⟩

/-- A value with no types, methods or events. -/
def bare : Json :=
  .object [("schema_version", .string "wasm-abi/1"), ("types", .object []), ("methods", .array []),
    ("events", .array [])]

theorem texts_share_declarations_selfReferring :
    (∃ manifest rest, Manifest.ofJsonWith (fun _ ↦ []) bare = .ok manifest ∧
      generate manifest ⟨"Client", "./runtime"⟩ = .ok
        ⟨"/** @generated by abi-codegen - DO NOT EDIT. */\n" ++ "\n" ++
            "import type \x7b AbiBytes \x7d from " ++
              stringLiteral ("./" ++ "Client" ++ ".js") ++ ";\n",
          "/** @generated by abi-codegen - DO NOT EDIT. */\n" ++ "\n" ++
            "import \x7b\n  CalimeroApp,\n  Context,\n\x7d from " ++ stringLiteral "./runtime" ++
              ";\n" ++ "\n" ++
            "// Generated types\n" ++ "\n" ++ rest⟩) ∧
    ∃ manifest declared rest, Manifest.ofJsonWith (fun _ ↦ []) selfReferring = .ok manifest ∧
      declared ≠ "" ∧
      generate manifest ⟨"Client", "./runtime"⟩ = .ok
        ⟨"/** @generated by abi-codegen - DO NOT EDIT. */\n" ++ "\n" ++
            "import type \x7b AbiBytes \x7d from " ++
              stringLiteral ("./" ++ "Client" ++ ".js") ++ ";\n" ++
            ("\n" ++ declared),
          "/** @generated by abi-codegen - DO NOT EDIT. */\n" ++ "\n" ++
            "import \x7b\n  CalimeroApp,\n  Context,\n\x7d from " ++ stringLiteral "./runtime" ++
              ";\n" ++ "\n" ++
            "// Generated types\n" ++ "\n" ++ (declared ++ "\n") ++ rest⟩ := by
  obtain ⟨empty, hbare⟩ : ∃ manifest, Manifest.ofJsonWith (fun _ ↦ []) bare = .ok manifest :=
    ⟨_, rfl⟩
  obtain ⟨manifest, hself⟩ :
      ∃ manifest, Manifest.ofJsonWith (fun _ ↦ []) selfReferring = .ok manifest := ⟨_, rfl⟩
  constructor
  · obtain ⟨declarations, all, declared, types, client, hdeclarations, -, hdeclared, -, -, hboth,
        htypes, hclient⟩ :=
      texts_share_declarations (.ofJsonWith hbare) ⟨"Client", "./runtime"⟩
    have hempty : declared = "" := by
      cases hbare
      cases hdeclarations
      exact hdeclared
    rw [if_pos hempty] at htypes hclient
    rw [htypes, hclient] at hboth
    simp only [String.append_empty, String.append_assoc] at hboth ⊢
    exact ⟨empty, _, hbare, hboth⟩
  · obtain ⟨declarations, all, declared, types, client, hdeclarations, -, hdeclared, -, -, hboth,
        htypes, hclient⟩ :=
      texts_share_declarations (.ofJsonWith hself) ⟨"Client", "./runtime"⟩
    have hne : declared ≠ "" := by
      cases hself
      cases hdeclarations
      rw [hdeclared]
      decide +kernel
    rw [if_neg hne] at htypes hclient
    rw [htypes, hclient] at hboth
    simp only [String.append_assoc] at hboth ⊢
    exact ⟨manifest, declared, _, hself, hne, hboth⟩

end AbiBindings.Client
