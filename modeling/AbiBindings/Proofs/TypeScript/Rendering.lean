import AbiBindings.Proofs.Text.Pieces
import AbiBindings.Proofs.TypeScript.NeutralText
import AbiBindings.TypeScript.Layout
import Mathlib.Data.List.Chain
import Mathlib.Data.List.Induction

/-!
# Rendered nodes are confined

Rendering puts indentation before a line and a line end after it, and tidies blank lines. At the
start of a line the lexer is in code or inside a comment, and there neither blanks nor line ends
matter (`Resting`). So a rendered text is scanned as the contents of its lines are (`scan_render`),
and tidying changes nothing.

`Node.Closed` says which nodes are neutral: lines and blocks of neutral texts, documentation
comments whatever they hold, since nothing in them ends the comment, and fixed texts that are
neutral as a whole.
-/

namespace AbiBindings.TypeScript

open LexState Layout

/-! ### Starts of lines -/

namespace LexState

/-- In code, or in a comment that goes on. -/
def Resting (state : LexState) : Prop := state.mode = .code ∨ state.mode = .blockComment

theorem resting_code (due : List Char) : Resting ⟨.code, due⟩ := .inl rfl

/-- After a line end, no literal and no line comment is open. -/
theorem resting_of_step_newline {state next : LexState} (h : state.step '\n' = some next) :
    Resting next := by
  obtain ⟨mode, due⟩ := state
  cases mode <;> cases h
  · exact .inl rfl
  · exact .inl rfl
  · exact .inl rfl
  · exact .inr rfl
  · exact .inr rfl

theorem Resting.step_plain {state : LexState} (h : Resting state) {c : Char}
    (hplain : isPlain c = true) (hstar : c ≠ '*') : state.step c = some state := by
  obtain ⟨mode, due⟩ := state
  obtain rfl | rfl := h
  · exact codeStep_of_isPlain hplain due
  · simp [step, hstar]

/-- Plain characters do not change the state between lines. -/
theorem Resting.scan_plain {state : LexState} (h : Resting state) {cs : List Char}
    (hcs : ∀ c ∈ cs, isPlain c = true ∧ c ≠ '*') : state.scan cs = some state := by
  induction cs with
  | nil => rfl
  | cons c cs ih =>
    obtain ⟨hplain, hstar⟩ := hcs c List.mem_cons_self
    rw [scan, h.step_plain hplain hstar, Option.bind_some]
    exact ih fun d hd ↦ hcs d (List.mem_cons_of_mem c hd)

theorem Resting.scan_newline {state : LexState} (h : Resting state) :
    state.scan ['\n'] = some state :=
  h.scan_plain (List.forall_mem_singleton.2 ⟨rfl, by decide⟩)

theorem resting_of_scan_newline {state next : LexState} {cs : List Char}
    (h : state.scan (cs ++ ['\n']) = some next) : Resting next := by
  rw [scan_append] at h
  obtain ⟨middle, -, h⟩ := Option.bind_eq_some_iff.1 h
  obtain ⟨last, hstep, hlast⟩ := Option.bind_eq_some_iff.1 h
  cases hlast
  exact resting_of_step_newline hstep

end LexState

/-! ### Lines -/

/-- Scans the contents of lines; blank lines are passed over. -/
def scanLines (state : LexState) : List Line → Option LexState
  | [] => some state
  | .blank :: lines => scanLines state lines
  | .text _ content :: lines => (state.scan (content.toList ++ ['\n'])).bind (scanLines · lines)

theorem scanLines_append (state : LexState) (lines more : List Line) :
    scanLines state (lines ++ more) = (scanLines state lines).bind (scanLines · more) := by
  induction lines generalizing state with
  | nil => rfl
  | cons line lines ih =>
    cases line with
    | blank => exact ih state
    | text depth content =>
      rw [List.cons_append, scanLines, scanLines, Option.bind_assoc]
      exact congrArg _ (funext fun next ↦ ih next)

/-- Brackets that are open from before do not matter to lines that close none of them. -/
theorem scanLines_frame {state next : LexState} {lines : List Line}
    (h : scanLines state lines = some next) (below : List Char) :
    scanLines (state.above below) lines = some (next.above below) := by
  induction lines generalizing state with
  | nil => cases h; rfl
  | cons line lines ih =>
    cases line with
    | blank => exact ih h
    | text depth content =>
      obtain ⟨middle, hscan, hrest⟩ := Option.bind_eq_some_iff.1 h
      exact Option.bind_eq_some_iff.2 ⟨_, scan_frame hscan below, ih hrest⟩

/-- Blank lines do not matter. -/
theorem scanLines_tidyFrom (state : LexState) (started pending : Bool) (lines : List Line) :
    scanLines state (tidyFrom started pending lines) = scanLines state lines := by
  induction lines generalizing state started pending with
  | nil => rfl
  | cons line lines ih =>
    cases line with
    | blank => exact ih state started true
    | text depth content =>
      rw [tidyFrom, scanLines_append, scanLines]
      have hblank : scanLines state (if started && pending then [Line.blank] else []) =
          some state := by
        split <;> rfl
      rw [hblank, Option.bind_some, scanLines]
      exact congrArg _ (funext fun next ↦ ih next true false)

theorem mem_indentation {n : Nat} {c : Char} (h : c ∈ ("".pushn ' ' n).toList) : c = ' ' := by
  induction n with
  | zero => cases h
  | succ n ih =>
    have hpush : "".pushn ' ' (n + 1) = ("".pushn ' ' n).push ' ' := rfl
    rw [hpush, String.toList_push, List.mem_append, List.mem_singleton] at h
    exact h.elim ih id

/-- Neither does indentation. -/
theorem LexState.Resting.scan_indentation {state : LexState} (h : Resting state) (n : Nat)
    (cs : List Char) : state.scan (("".pushn ' ' n).toList ++ cs) = state.scan cs := by
  have hindent : state.scan ("".pushn ' ' n).toList = some state :=
    h.scan_plain fun c hc ↦ by rw [mem_indentation hc]; decide
  rw [scan_append, hindent, Option.bind_some]

/-- Indentation and line ends do not matter, so a rendered text is scanned as its lines are. -/
theorem scan_render {state : LexState} (h : Resting state) (lines : List Line) :
    state.scan (String.join (lines.map Line.render)).toList = scanLines state lines := by
  induction lines generalizing state with
  | nil => rfl
  | cons line lines ih =>
    rw [List.map_cons, String.join_cons, String.toList_append, scan_append]
    cases line with
    | blank =>
      have hnewline : state.scan Line.blank.render.toList = some state := h.scan_newline
      rw [hnewline]
      exact ih h
    | text depth content =>
      rw [Line.render, String.toList_append, String.toList_append, List.append_assoc,
        h.scan_indentation, scanLines]
      refine Option.bind_congr fun next hnext ↦ ih ?_
      exact resting_of_scan_newline hnext

/-! ### Comments -/

/-- In a comment, possibly after an asterisk. -/
def Mode.InComment (mode : Mode) : Prop := mode = .blockComment ∨ mode = .star

/-- The next character of a comment, unless it is the slash that ends it. -/
theorem step_inComment {mode : Mode} (h : mode.InComment) {c : Char} (hc : mode = .star → c ≠ '/')
    (due : List Char) :
    (⟨mode, due⟩ : LexState).step c = some ⟨if c = '*' then .star else .blockComment, due⟩ := by
  obtain rfl | rfl := h
  · by_cases hstar : c = '*' <;> simp [step, hstar]
  · by_cases hstar : c = '*' <;> simp [step, hstar, hc rfl]

/-- Nothing in the text ends a comment. -/
def NoEnd (cs : List Char) : Prop := cs.IsChain fun c d ↦ ¬ (c = '*' ∧ d = '/')

instance (cs : List Char) : Decidable (NoEnd cs) :=
  inferInstanceAs (Decidable (cs.IsChain fun c d ↦ ¬ (c = '*' ∧ d = '/')))

/-- A text that does not end the comment that it stands in. If an asterisk comes before it, it must
not start with a slash. -/
theorem NoEnd.scan {cs : List Char} (h : NoEnd cs) {mode : Mode} (hmode : mode.InComment)
    (hstart : mode = .star → cs.head? ≠ some '/') (due : List Char) :
    ∃ after : Mode, after.InComment ∧ (⟨mode, due⟩ : LexState).scan cs = some ⟨after, due⟩ := by
  induction cs generalizing mode with
  | nil => exact ⟨mode, hmode, rfl⟩
  | cons c cs ih =>
    have hstep := step_inComment hmode (fun hstar heq ↦ hstart hstar (congrArg some heq)) due
    obtain ⟨hpair, hrest⟩ := List.isChain_cons.1 h
    have hnext : (if c = '*' then Mode.star else .blockComment).InComment := by
      split
      · exact .inr rfl
      · exact .inl rfl
    obtain ⟨after, hafter, hscan⟩ := ih hrest hnext fun hstar hslash ↦ by
      refine hpair '/' hslash ⟨?_, rfl⟩
      by_contra hc
      simp [hc] at hstar
    exact ⟨after, hafter, by rw [LexState.scan, hstep]; exact hscan⟩

theorem head?_replacePair (text : List Char) :
    (Text.replacePair '*' '/' ['*', '\\', '/'] text).head? = text.head? := by
  cases text using Text.replacePair.induct '*' '/' with
  | case1 => rfl
  | case2 c => rfl
  | case3 c d cs hpair => rw [Text.replacePair, if_pos hpair, hpair.1]; rfl
  | case4 c d cs hpair => rw [Text.replacePair, if_neg hpair]; rfl

/-- A patched text has no end of a comment in it. -/
theorem noEnd_replacePair (text : List Char) :
    NoEnd (Text.replacePair '*' '/' ['*', '\\', '/'] text) := by
  induction text using Text.replacePair.induct '*' '/' with
  | case1 => exact .nil
  | case2 c => exact .singleton c
  | case3 c d cs hpair ih =>
    -- the asterisk and the slash come apart, and the rest starts afresh
    rw [Text.replacePair, if_pos hpair]
    refine .cons_cons (by decide)
      (.cons_cons (by decide) (List.isChain_cons.2 ⟨fun next _ ↦ ?_, ih⟩))
    exact fun hstar ↦ absurd hstar.1 (by decide)
  | case4 c d cs hpair ih =>
    rw [Text.replacePair, if_neg hpair]
    refine List.isChain_cons.2 ⟨fun next hnext ↦ ?_, ih⟩
    rw [head?_replacePair] at hnext
    cases hnext
    exact hpair

/-- The text of a comment stays inside the comment. -/
theorem scan_commentText (text : String) (due : List Char) :
    ∃ after : Mode, after.InComment ∧
      (⟨.blockComment, due⟩ : LexState).scan (commentText text).toList = some ⟨after, due⟩ := by
  rw [commentText, String.toList_ofList]
  exact (noEnd_replacePair _).scan (.inl rfl) (fun hstar ↦ by cases hstar) due

/-- A line of a comment stays in it. -/
theorem scan_commentLine (text : String) (due : List Char) :
    (⟨.blockComment, due⟩ : LexState).scan ((commentLine text).toList ++ ['\n']) =
      some ⟨.blockComment, due⟩ := by
  rw [commentLine]
  split
  · rfl
  · obtain ⟨after, hafter, hscan⟩ := scan_commentText text due
    -- the blank after the asterisk keeps a slash at the start of the text apart from it
    have hopen : (⟨.blockComment, due⟩ : LexState).scan " * ".toList =
        some ⟨.blockComment, due⟩ := rfl
    rw [String.toList_append, List.append_assoc, scan_append, hopen, Option.bind_some,
      scan_append, hscan]
    obtain rfl | rfl := hafter <;> rfl

/-- So do its lines. -/
theorem scanLines_commentLines (depth : Nat) (lines : List String) (due : List Char) :
    scanLines ⟨.blockComment, due⟩ (lines.map (.text depth <| commentLine ·)) =
      some ⟨.blockComment, due⟩ := by
  induction lines with
  | nil => rfl
  | cons line lines ih => rw [List.map_cons, scanLines, scan_commentLine, Option.bind_some, ih]

/-- Lines that close all that they open. -/
def NeutralLines (lines : List Line) : Prop := scanLines ⟨.code, []⟩ lines = some ⟨.code, []⟩

theorem NeutralLines.append {lines more : List Line} (h : NeutralLines lines)
    (hmore : NeutralLines more) : NeutralLines (lines ++ more) := by
  rw [NeutralLines, scanLines_append, h]
  exact hmore

theorem Leads.scan_newline {before after : List Char} {text : String}
    (h : Leads before text after) :
    (⟨.code, before⟩ : LexState).scan (text.toList ++ ['\n']) = some ⟨.code, after⟩ := by
  rw [scan_append, h]
  rfl

/-- A neutral text is a neutral line. -/
theorem neutralLines_line (depth : Nat) {text : String} (h : Neutral text) :
    NeutralLines [.text depth text] := by
  rw [NeutralLines, scanLines, Leads.scan_newline h]
  rfl

/-- A comment on one line is neutral, whatever its text. -/
theorem neutral_comment (text : String) : Neutral ("/** " ++ commentText text ++ " */") := by
  obtain ⟨after, hafter, hscan⟩ := scan_commentText text []
  rw [Neutral, Leads, String.toList_append, String.toList_append, scan_append, scan_append]
  have hopen : (⟨.code, []⟩ : LexState).scan "/** ".toList = some ⟨.blockComment, []⟩ := rfl
  rw [hopen, Option.bind_some, hscan, Option.bind_some]
  obtain rfl | rfl := hafter <;> rfl

/-- A documentation comment is neutral, whatever its lines are. -/
theorem neutralLines_docLines (depth : Nat) (lines : List String) :
    NeutralLines (docLines depth lines) := by
  unfold docLines
  split
  · rfl
  · exact neutralLines_line depth (neutral_comment _)
  · rw [NeutralLines, List.cons_append, scanLines]
    show (scanLines ⟨.blockComment, []⟩ _) = _
    rw [scanLines_append, scanLines_commentLines]
    rfl

/-! ### Fixed texts of several lines -/

/-- The pieces between line feeds are scanned as the text is. -/
theorem scanLines_pieces (state : LexState) (depth : Nat) (cs : List Char) :
    scanLines state ((Text.pieces (· = '\n') cs).map fun piece ↦
      .text depth (String.ofList piece)) =
      state.scan (cs ++ ['\n']) := by
  induction cs generalizing state with
  | nil =>
    rw [Text.pieces, List.map_singleton, scanLines, String.toList_ofList]
    exact Option.bind_fun_some _
  | cons c cs ih =>
    rw [Text.pieces]
    by_cases hc : c = '\n'
    · simp only [hc, decide_true, if_true, List.map_cons, scanLines, String.toList_ofList,
        List.nil_append, scan, Option.bind_assoc, Option.bind_some, ih, List.cons_append]
    · obtain ⟨piece, rest, hpieces⟩ := List.exists_cons_of_ne_nil (Text.pieces_ne_nil (· = '\n') cs)
      simp only [hpieces, List.map_cons, scanLines, String.toList_ofList] at ih
      simp only [hc, decide_false, Bool.false_eq_true, if_false, hpieces, List.map_cons, scanLines,
        String.toList_ofList, List.cons_append, scan, Option.bind_assoc, ih]

/-- An empty piece at the end makes no difference. -/
theorem scanLines_finishLines {state : LexState} (h : Resting state) (depth : Nat)
    {pieces : List (List Char)} (hreturn : ∀ piece ∈ pieces, '\r' ∉ piece) :
    scanLines state ((Text.finishLines pieces).map fun piece ↦ .text depth (String.ofList piece)) =
      scanLines state (pieces.map fun piece ↦ .text depth (String.ofList piece)) := by
  induction pieces using Text.finishLines.induct generalizing state with
  | case1 => rfl
  | case2 last hempty =>
    rw [List.isEmpty_iff.1 hempty, List.map_singleton, scanLines, String.toList_ofList,
      List.nil_append, h.scan_newline]
    rfl
  | case3 last hempty => rw [Text.finishLines, if_neg hempty]
  | case4 line rest hrest ih =>
    have hkeep : Text.dropCarriageReturn line = line := by
      refine if_neg fun hlast ↦ hreturn line List.mem_cons_self ?_
      exact List.mem_of_getLast? hlast
    rw [Text.finishLines, hkeep, List.map_cons, List.map_cons, scanLines, scanLines]
    · exact Option.bind_congr fun next hnext ↦ ih (resting_of_scan_newline hnext)
        fun piece hpiece ↦ hreturn piece (List.mem_cons_of_mem line hpiece)
    · exact hrest

theorem isPlain_of_isBlank {c : Char} (h : Text.isBlank c = true) : isPlain c = true ∧ c ≠ '*' := by
  refine ⟨isPlain_of_class rfl h, ?_⟩
  rintro rfl
  cases h

/-- Lines of blanks may be left out. -/
theorem scanLines_blank {state : LexState} (h : Resting state) (depth : Nat)
    (lines : List (List Char)) :
    scanLines state (lines.map fun line ↦
        if line.all Text.isBlank then .blank else .text depth (String.ofList line)) =
      scanLines state (lines.map fun line ↦ .text depth (String.ofList line)) := by
  induction lines generalizing state with
  | nil => rfl
  | cons line lines ih =>
    rw [List.map_cons, List.map_cons]
    by_cases hblank : line.all Text.isBlank = true
    · have hscan : state.scan ((String.ofList line).toList ++ ['\n']) = some state := by
        refine h.scan_plain fun c hc ↦ ?_
        rw [String.toList_ofList] at hc
        obtain hc | hc := List.mem_append.1 hc
        · exact isPlain_of_isBlank (List.all_eq_true.1 hblank c hc)
        · rw [List.mem_singleton.1 hc]
          decide
      rw [if_pos hblank, scanLines, scanLines, hscan]
      exact ih h
    · rw [if_neg hblank, scanLines, scanLines]
      exact Option.bind_congr fun next hnext ↦ ih (resting_of_scan_newline hnext)

/-- Line feeds at the start and at the end make no difference. -/
theorem scan_trim {state : LexState} (h : Resting state) (cs : List Char) :
    state.scan (Text.trim (· = '\n') cs ++ ['\n']) = state.scan (cs ++ ['\n']) := by
  have hstart : state.scan (cs.dropWhile (· = '\n') ++ ['\n']) = state.scan (cs ++ ['\n']) := by
    induction cs with
    | nil => rfl
    | cons c cs ih =>
      by_cases hc : c = '\n'
      · rw [List.dropWhile_cons_of_pos (by simpa using hc), ih, List.cons_append, scan, hc,
          h.step_plain (by decide) (by decide), Option.bind_some]
      · rw [List.dropWhile_cons_of_neg (by simpa using hc)]
  have hstop (ds : List Char) :
      state.scan ((ds.reverse.dropWhile (· = '\n')).reverse ++ ['\n']) =
        state.scan (ds ++ ['\n']) := by
    induction ds using List.reverseRecOn with
    | nil => rfl
    | append_singleton ds d ih =>
      rw [List.reverse_append, List.reverse_singleton, List.singleton_append]
      by_cases hd : d = '\n'
      · rw [List.dropWhile_cons_of_pos (by simpa using hd), ih, hd, scan_append _ (ds ++ ['\n'])]
        cases hscan : state.scan (ds ++ ['\n']) with
        | none => rfl
        | some next => exact (resting_of_scan_newline hscan).scan_newline.symm
      · rw [List.dropWhile_cons_of_neg (by simpa using hd), List.reverse_cons, List.reverse_reverse]
  rw [Text.trim, hstop, hstart]

/-- A fixed text that is neutral stays so when it is cut into lines. -/
theorem neutralLines_snippetLines (depth : Nat) {text : String} (h : Neutral text)
    (hreturn : '\r' ∉ text.toList) : NeutralLines (snippetLines depth text) := by
  have hpieces : ∀ piece ∈ Text.pieces (· = '\n') (Text.trim (· = '\n') text.toList),
      '\r' ∉ piece := by
    intro piece hpiece hmem
    have htrim := Text.mem_of_mem_pieces hpiece hmem
    rw [Text.trim, List.mem_reverse] at htrim
    have hinner := List.mem_reverse.1 ((List.dropWhile_sublist _).mem htrim)
    exact hreturn ((List.dropWhile_sublist _).mem hinner)
  -- undo the steps that make lines of the text: blank lines, the last line, the cuts, the trimming
  rw [NeutralLines, snippetLines, scanLines_blank (resting_code []), Text.lines,
    scanLines_finishLines (resting_code []) depth hpieces, scanLines_pieces,
    scan_trim (resting_code [])]
  exact Leads.scan_newline h

/-! ### Nodes -/

/-- The node closes all that it opens. A comment at the end of a line is closed by the line end, and
what a block opens is a brace. -/
inductive Node.Closed : Node → Prop
  | line {text : String} (h : Neutral text) : Closed (.line text)
  | comment {text : String}
    (h : (⟨.code, []⟩ : LexState).scan text.toList = some ⟨.lineComment, []⟩) :
    Closed (.line text)
  | blank : Closed .blank
  | doc (lines : List String) : Closed (.doc lines)
  | block {opening closing : String} {body : List Node} (hopening : Leads [] opening ['\x7d'])
    (hbody : ∀ node ∈ body, Closed node) (hclosing : Leads ['\x7d'] closing []) :
    Closed (.block opening body closing)
  | snippet {text : String} (h : Neutral text) (hreturn : '\r' ∉ text.toList) :
    Closed (.snippet text)

theorem neutralLines_nodesLines {depth : Nat} {nodes : List Node}
    (h : ∀ node ∈ nodes, NeutralLines (nodeLines depth node)) :
    NeutralLines (nodesLines depth nodes) := by
  induction nodes with
  | nil =>
    rw [nodesLines]
    rfl
  | cons node nodes ih =>
    rw [nodesLines]
    exact (h node List.mem_cons_self).append
      (ih fun other hother ↦ h other (List.mem_cons_of_mem node hother))

/-- A block is neutral if its closing text closes what its opening text opens. -/
theorem neutralLines_blockLines (depth : Nat) {opening closing : String} {due : List Char}
    (hopening : Leads [] opening due) (hclosing : Leads due closing []) {body : List Line}
    (hbody : NeutralLines body) : NeutralLines (blockLines depth opening closing body) := by
  have htidy : scanLines ⟨.code, due⟩ (tidy body) = some ⟨.code, due⟩ := by
    rw [tidy, scanLines_tidyFrom]
    exact scanLines_frame hbody due
  unfold blockLines
  split
  · exact neutralLines_line depth (hopening.append hclosing)
  · rw [NeutralLines, List.cons_append, scanLines, hopening.scan_newline, Option.bind_some,
      scanLines_append, htidy, Option.bind_some, scanLines, hclosing.scan_newline]
    rfl

/-- A closed node has neutral lines, at any depth. -/
theorem Node.Closed.neutralLines {node : Node} (h : node.Closed) (depth : Nat) :
    NeutralLines (nodeLines depth node) := by
  induction h generalizing depth with
  | line h =>
    rw [nodeLines]
    exact neutralLines_line depth h
  | comment h =>
    rw [nodeLines, NeutralLines, scanLines, scan_append, h]
    rfl
  | blank =>
    rw [nodeLines]
    rfl
  | doc lines =>
    rw [nodeLines]
    exact neutralLines_docLines depth lines
  | block hopening _ hclosing ih =>
    rw [nodeLines]
    exact neutralLines_blockLines depth hopening hclosing
      (neutralLines_nodesLines fun node hnode ↦ ih node hnode (depth + 1))
  | snippet h hreturn =>
    rw [nodeLines]
    exact neutralLines_snippetLines depth h hreturn

/-- The text of closed nodes is neutral. -/
theorem neutral_render {nodes : List Node} (h : ∀ node ∈ nodes, node.Closed) :
    Neutral (render nodes) := by
  have hlines := neutralLines_nodesLines fun node hnode ↦ (h node hnode).neutralLines 0
  rw [Neutral, Leads, render, scan_render (resting_code []), tidy, scanLines_tidyFrom]
  exact hlines

end AbiBindings.TypeScript
