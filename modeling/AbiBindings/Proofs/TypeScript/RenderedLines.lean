import AbiBindings.Proofs.TypeScript.Composition
import Mathlib.Data.List.Chain

/-!
# The lines of a rendered text

What rendering may do is to place blank lines. `nodesTexts` says which lines with text nodes stand
for, without a word on blank lines or depths: a block has its opening line, the lines inside two
blanks further in, and its closing line, and if there is nothing inside it is one line. The lines of
a rendered text that have text are these, in this order.

Blank lines stand between lines with text only, one at a time (`IsTidy`). Lines that are tidy
already are left as they are (`IsTidy.tidy_eq`), also when other lines come before and after them.
Those of a block are tidy, so wherever it stands its lines are found together in the whole text, and
no blank line follows its opening line or comes before its closing line (`Place.exists_tidy_fill`).
-/

namespace AbiBindings.TypeScript.Layout

/-! ### Tidy lines -/

/-- No blank line comes first, last or after another one. -/
structure IsTidy (lines : List Line) : Prop where
  head : lines.head? ≠ some .blank
  last : lines.getLast? ≠ some .blank
  apart : lines.IsChain fun line next ↦ ¬ (line = .blank ∧ next = .blank)

theorem isTidy_nil : IsTidy [] := ⟨by simp, by simp, .nil⟩

theorem isTidy_text (depth : Nat) (content : String) : IsTidy [.text depth content] :=
  ⟨by simp, by simp, .singleton _⟩

theorem IsTidy.append {lines more : List Line} (h : IsTidy lines) (hmore : IsTidy more) :
    IsTidy (lines ++ more) := by
  refine ⟨fun hhead ↦ ?_, fun hlast ↦ ?_,
    h.apart.append hmore.apart fun line hline next _ hblank ↦ ?_⟩
  · rw [List.head?_append, Option.or_eq_some_iff] at hhead
    exact hhead.elim h.head fun hhead ↦ hmore.head hhead.2
  · rw [List.getLast?_append, Option.or_eq_some_iff] at hlast
    exact hlast.elim hmore.last fun hlast ↦ h.last hlast.2
  · rw [hblank.1] at hline
    exact h.last hline

/-- A blank line may stand between tidy lines, if there are lines before it and after it. -/
theorem IsTidy.append_blank {lines more : List Line} (h : IsTidy lines) (hmore : IsTidy more)
    (hne : lines ≠ []) (hmorene : more ≠ []) : IsTidy (lines ++ .blank :: more) := by
  refine ⟨fun hhead ↦ ?_, fun hlast ↦ ?_, ?_⟩
  · rw [List.head?_append_of_ne_nil _ hne] at hhead
    exact h.head hhead
  · rw [List.getLast?_append_of_ne_nil _ (List.cons_ne_nil _ _),
      List.getLast?_cons_of_ne_nil hmorene] at hlast
    exact hmore.last hlast
  · have hblank : (.blank :: more).IsChain fun line next : Line ↦ ¬ (line = .blank ∧
        next = .blank) := by
      refine List.isChain_cons.2 ⟨fun next hnext hboth ↦ ?_, hmore.apart⟩
      rw [hboth.2] at hnext
      exact hmore.head hnext
    refine h.apart.append hblank fun line hline next _ hboth ↦ ?_
    rw [hboth.1] at hline
    exact h.last hline

/-- Lines with text only are tidy. -/
theorem isTidy_texts (depth : Nat) (texts : List String) : IsTidy (texts.map (.text depth ·)) := by
  induction texts with
  | nil => exact isTidy_nil
  | cons text texts ih => exact (isTidy_text depth text).append ih

/-- Tidying makes lines tidy. -/
theorem isTidy_tidy (lines : List Line) : IsTidy (tidy lines) := by
  induction lines with
  | nil => exact isTidy_nil
  | cons line lines ih =>
    rw [← List.singleton_append, tidy_append]
    have hline : IsTidy (tidy [line]) := by
      rcases line with _ | ⟨depth, content⟩
      · exact isTidy_nil
      · exact isTidy_text depth content
    split
    · rename_i hapart
      rw [List.append_assoc]
      exact hline.append_blank ih hapart.1 hapart.2.1
    · rw [List.append_nil]
      exact hline.append ih

theorem getLast?_ne_of_cons {line other : Line} {lines : List Line}
    (h : (line :: lines).getLast? ≠ some other) : lines.getLast? ≠ some other := by
  intro hlast
  rw [List.getLast?_cons, hlast] at h
  exact h rfl

/-- After a line with text, lines are left as they are if they may go on there: a blank line may
come first. -/
theorem tidyFrom_eq_self {lines : List Line} (hlast : lines.getLast? ≠ some .blank)
    (hapart : lines.IsChain fun line next ↦ ¬ (line = .blank ∧ next = .blank)) :
    tidyFrom true false lines = lines := by
  match lines with
  | [] => rfl
  | .text depth content :: lines =>
    exact congrArg (.text depth content :: ·)
      (tidyFrom_eq_self (getLast?_ne_of_cons hlast) hapart.tail)
  | [.blank] => exact absurd rfl hlast
  | .blank :: .blank :: lines => exact absurd ⟨rfl, rfl⟩ (List.isChain_cons_cons.1 hapart).1
  | .blank :: .text depth content :: lines =>
    have hrest := tidyFrom_eq_self (getLast?_ne_of_cons (getLast?_ne_of_cons hlast))
      hapart.tail.tail
    exact congrArg (.blank :: .text depth content :: ·) hrest

/-- Tidy lines are left as they are. -/
theorem IsTidy.tidy_eq {lines : List Line} (h : IsTidy lines) : tidy lines = lines := by
  rcases lines with _ | ⟨_ | ⟨depth, content⟩, lines⟩
  · rfl
  · exact absurd rfl h.head
  · exact congrArg (.text depth content :: ·)
      (tidyFrom_eq_self (getLast?_ne_of_cons h.last) h.apart.tail)

/-! ### Lines with text -/

/-- The text two blanks further in for each step of depth. -/
def indented (depth : Nat) (text : String) : String := "".pushn ' ' (2 * depth) ++ text

/-- What is shown of a line, if it is not blank. -/
def Line.shown : Line → Option String
  | .blank => none
  | .text depth content => some (indented depth content)

/-- The lines with text that a comment stands for. -/
def docTexts : List String → List String
  | [] => []
  | [line] => ["/** " ++ commentText line ++ " */"]
  | lines => "/**" :: lines.map commentLine ++ [" */"]

/-- The lines with text that a text of several lines stands for. -/
def snippetTexts (text : String) : List String :=
  ((Text.lines (Text.trim (· = '\n') text.toList)).filter fun line ↦ !line.all Text.isBlank).map
    String.ofList

/-- The lines of a block with the given lines inside. -/
def blockTexts (opening closing : String) : List String → List String
  | [] => [opening ++ closing]
  | texts => opening :: texts.map ("  " ++ ·) ++ [closing]

mutual

/-- The lines with text that a node stands for. -/
def nodeTexts : Node → List String
  | .line text => [text]
  | .blank => []
  | .doc lines => docTexts lines
  | .block opening body closing => blockTexts opening closing (nodesTexts body)
  | .snippet text => snippetTexts text

/-- The lines with text that nodes stand for, one after the other. -/
def nodesTexts : List Node → List String
  | [] => []
  | node :: nodes => nodeTexts node ++ nodesTexts nodes

end

theorem map_indented_zero (texts : List String) : texts.map (indented 0) = texts :=
  List.map_id'' (fun _ ↦ String.empty_append) texts

/-- One level more is two blanks more in front of the text. -/
theorem indented_succ (depth : Nat) (text : String) :
    indented (depth + 1) text = indented depth ("  " ++ text) := by
  have hpushn : "".pushn ' ' (2 * (depth + 1)) =
      (("".pushn ' ' (2 * depth)).push ' ').push ' ' := rfl
  rw [indented, indented, hpushn, ← String.toList_inj]
  simp

theorem map_indented_succ (depth : Nat) (texts : List String) :
    texts.map (indented (depth + 1)) = (texts.map ("  " ++ ·)).map (indented depth) := by
  rw [List.map_map]
  exact List.map_congr_left fun text _ ↦ indented_succ depth text

/-- Tidying leaves the lines with text as they are. -/
theorem filterMap_shown_tidy (lines : List Line) :
    (tidy lines).filterMap Line.shown = lines.filterMap Line.shown := by
  rw [List.filterMap_eq_flatMap_toList, List.filterMap_eq_flatMap_toList]
  exact flatMap_tidyFrom rfl false false lines

/-- Lines with texts are shown with their indentation. -/
theorem filterMap_shown_texts (depth : Nat) (texts : List String) :
    (texts.map (.text depth ·)).filterMap Line.shown = texts.map (indented depth) := by
  rw [List.filterMap_map]
  exact congrFun List.filterMap_eq_map' texts

theorem docLines_eq (depth : Nat) (lines : List String) :
    docLines depth lines = (docTexts lines).map (.text depth ·) := by
  unfold docLines docTexts
  split
  · rfl
  · rfl
  · simp

theorem filterMap_shown_snippetLines (depth : Nat) (text : String) :
    (snippetLines depth text).filterMap Line.shown = (snippetTexts text).map (indented depth) := by
  rw [snippetLines, snippetTexts]
  generalize Text.lines (Text.trim (· = '\n') text.toList) = lines
  induction lines with
  | nil => rfl
  | cons line lines ih =>
    rw [List.map_cons, List.filterMap_cons, List.filter_cons, ih]
    by_cases hblank : line.all Text.isBlank = true
    · simp [hblank, Line.shown]
    · simp [hblank, Line.shown]

/-- Nothing is left of lines exactly if none of them is shown. -/
theorem tidy_eq_nil_iff {lines : List Line} :
    tidy lines = [] ↔ lines.filterMap Line.shown = [] := by
  rw [← filterMap_shown_tidy]
  have htidy := isTidy_tidy lines
  generalize tidy lines = tidied at htidy ⊢
  rcases tidied with _ | ⟨_ | ⟨depth, content⟩, rest⟩
  · exact iff_of_true rfl rfl
  · exact absurd rfl htidy.head
  · exact iff_of_false (List.cons_ne_nil _ _) (List.cons_ne_nil _ _)

/-- A block with nothing to show is written on one line. -/
theorem blockLines_of_nil (depth : Nat) (opening closing : String) {body : List Line}
    (h : tidy body = []) :
    blockLines depth opening closing body = [.text depth (opening ++ closing)] := by
  rw [blockLines, h]

/-- Otherwise its body is tidied between the opening and the closing line. -/
theorem blockLines_of_ne_nil (depth : Nat) (opening closing : String) {body : List Line}
    (h : tidy body ≠ []) :
    blockLines depth opening closing body = .text depth opening :: tidy body ++
      [.text depth closing] := by
  rw [blockLines]
  split
  · rename_i hnil
    exact absurd hnil h
  · rfl

theorem blockLines_ne_nil (depth : Nat) (opening closing : String) (body : List Line) :
    blockLines depth opening closing body ≠ [] := by
  rw [blockLines]
  split
  · exact List.cons_ne_nil _ _
  · exact List.cons_ne_nil _ _

theorem blockTexts_of_ne_nil (opening closing : String) {texts : List String} (h : texts ≠ []) :
    blockTexts opening closing texts = opening :: texts.map ("  " ++ ·) ++ [closing] := by
  obtain ⟨text, rest, rfl⟩ := List.exists_cons_of_ne_nil h
  rfl

/-- A block shows the texts of its body one level deeper. -/
theorem filterMap_shown_blockLines (depth : Nat) (opening closing : String) {body : List Line}
    {texts : List String} (h : body.filterMap Line.shown = texts.map (indented (depth + 1))) :
    (blockLines depth opening closing body).filterMap Line.shown =
      (blockTexts opening closing texts).map (indented depth) := by
  by_cases htexts : texts = []
  · have hbody : tidy body = [] := by rw [tidy_eq_nil_iff, h, htexts]; rfl
    rw [blockLines_of_nil depth opening closing hbody, htexts]
    rfl
  · have hbody : tidy body ≠ [] := by rwa [Ne, tidy_eq_nil_iff, h, List.map_eq_nil_iff]
    rw [blockLines_of_ne_nil depth opening closing hbody,
      blockTexts_of_ne_nil opening closing htexts,
      List.filterMap_append, List.filterMap_cons, filterMap_shown_tidy, h, map_indented_succ,
      List.map_append]
    rfl

mutual

/-- The lines with text of a node are the ones that it stands for, further in by its depth. -/
theorem filterMap_shown_nodeLines (depth : Nat) (node : Node) :
    (nodeLines depth node).filterMap Line.shown = (nodeTexts node).map (indented depth) := by
  cases node with
  | line text => rw [nodeLines, nodeTexts]; rfl
  | blank => rw [nodeLines, nodeTexts]; rfl
  | doc lines => rw [nodeLines, nodeTexts, docLines_eq, filterMap_shown_texts]
  | block opening body closing =>
    rw [nodeLines, nodeTexts]
    exact filterMap_shown_blockLines depth opening closing
      (filterMap_shown_nodesLines (depth + 1) body)
  | snippet text => rw [nodeLines, nodeTexts, filterMap_shown_snippetLines]

/-- Nodes show their texts, whatever blank lines there are. -/
theorem filterMap_shown_nodesLines (depth : Nat) (nodes : List Node) :
    (nodesLines depth nodes).filterMap Line.shown = (nodesTexts nodes).map (indented depth) := by
  cases nodes with
  | nil => rw [nodesLines, nodesTexts]; rfl
  | cons node nodes =>
    rw [nodesLines, nodesTexts, List.filterMap_append, List.map_append, filterMap_shown_nodeLines,
      filterMap_shown_nodesLines]

end

/-! ### Places -/

namespace Place

/-- The number of blocks around a place. -/
def depth : Place → Nat
  | here _ _ => 0
  | inside _ _ place _ _ => place.depth + 1

/-- The lines with text that come before a place, if there are lines with text at it. -/
def textsBefore : Place → List String
  | here before _ => nodesTexts before
  | inside before opening place _ _ =>
    nodesTexts before ++ opening :: place.textsBefore.map ("  " ++ ·)

/-- The lines with text that come after a place, if there are lines with text at it. -/
def textsAfter : Place → List String
  | here _ after => nodesTexts after
  | inside _ _ place closing after =>
    place.textsAfter.map ("  " ++ ·) ++ closing :: nodesTexts after

end Place

/-- Tidy lines stay together between others. -/
theorem IsTidy.exists_tidy_append {lines : List Line} (h : IsTidy lines)
    (before after : List Line) :
    ∃ front back, tidy (before ++ lines ++ after) = front ++ lines ++ back ∧
      front.filterMap Line.shown = before.filterMap Line.shown ∧
      back.filterMap Line.shown = after.filterMap Line.shown := by
  have hgap (lines more : List Line) :
      (if Apart lines more then [Line.blank] else []).filterMap Line.shown = [] := by
    split <;> rfl
  refine ⟨tidy before ++ (if Apart before lines then [.blank] else []),
    (if Apart (before ++ lines) after then [.blank] else []) ++ tidy after, ?_, ?_, ?_⟩
  · rw [tidy_append (before ++ lines), tidy_append before, h.tidy_eq, List.append_assoc]
  · rw [List.filterMap_append, hgap, List.append_nil, filterMap_shown_tidy]
  · rw [List.filterMap_append, hgap, List.nil_append, filterMap_shown_tidy]

/-- A block is tidy wherever it stands. -/
theorem isTidy_blockLines (depth : Nat) (opening closing : String) (body : List Line) :
    IsTidy (blockLines depth opening closing body) := by
  by_cases hbody : tidy body = []
  · rw [blockLines_of_nil depth opening closing hbody]
    exact isTidy_text depth _
  · rw [blockLines_of_ne_nil depth opening closing hbody]
    exact ((isTidy_text depth opening).append (isTidy_tidy body)).append (isTidy_text depth closing)

/-- Nodes with tidy lines, at any place: their lines are found together, after those of what comes
before the place and before those of what comes after it. -/
theorem Place.exists_tidy_fill (place : Place) (depth : Nat) {nodes : List Node}
    (htidy : IsTidy (nodesLines (depth + place.depth) nodes))
    (hne : nodesLines (depth + place.depth) nodes ≠ []) :
    ∃ front back,
      tidy (nodesLines depth (place.fill nodes)) =
          front ++ nodesLines (depth + place.depth) nodes ++ back ∧
        front.filterMap Line.shown = place.textsBefore.map (indented depth) ∧
        back.filterMap Line.shown = place.textsAfter.map (indented depth) := by
  induction place generalizing depth with
  | here before after =>
    rw [fill, nodesLines_append, nodesLines_append, textsBefore, textsAfter,
      ← filterMap_shown_nodesLines, ← filterMap_shown_nodesLines]
    exact htidy.exists_tidy_append _ _
  | inside before opening place closing after ih =>
    have hdepth : depth + (inside before opening place closing after).depth =
        depth + 1 + place.depth := by
      rw [Place.depth]
      omega
    rw [hdepth] at htidy hne ⊢
    obtain ⟨front, back, hfill, hfront, hback⟩ := ih (depth + 1) htidy hne
    have hinside : tidy (nodesLines (depth + 1) (place.fill nodes)) ≠ [] := by
      rw [hfill]
      simp [hne]
    have hblock : nodesLines depth (fill nodes (inside before opening place closing after)) =
        nodesLines depth before ++
          blockLines depth opening closing (nodesLines (depth + 1) (place.fill nodes)) ++
            nodesLines depth after := by
      rw [fill, nodesLines_append, nodesLines, nodeLines, List.append_assoc]
    -- the block around the place is tidy itself, so its lines stay together as well
    obtain ⟨start, stop, htidied, hstart, hstop⟩ :=
      (isTidy_blockLines depth opening closing _).exists_tidy_append (nodesLines depth before)
        (nodesLines depth after)
    rw [hblock, htidied, blockLines_of_ne_nil depth opening closing hinside, hfill]
    refine ⟨start ++ .text depth opening :: front, back ++ .text depth closing :: stop, ?_, ?_, ?_⟩
    · simp only [List.append_assoc, List.cons_append, List.nil_append]
    · rw [List.filterMap_append, hstart, filterMap_shown_nodesLines, List.filterMap_cons, hfront,
        map_indented_succ, textsBefore, List.map_append]
      rfl
    · rw [List.filterMap_append, hback, map_indented_succ, List.filterMap_cons, hstop,
        filterMap_shown_nodesLines, textsAfter, List.map_append]
      rfl

/-- A tidy node stays as it is in its place, between what is shown before and after it. -/
theorem Place.exists_renderedLines_fill (place : Place) {node : Node}
    (htidy : IsTidy (nodeLines place.depth node)) (hne : nodeLines place.depth node ≠ []) :
    ∃ front back, renderedLines (place.fill [node]) = front ++ nodeLines place.depth node ++ back ∧
      front.filterMap Line.shown = place.textsBefore ∧
      back.filterMap Line.shown = place.textsAfter := by
  have hnode : nodesLines (0 + place.depth) [node] = nodeLines place.depth node := by
    rw [Nat.zero_add, nodesLines, nodesLines, List.append_nil]
  rw [← hnode] at htidy hne ⊢
  obtain ⟨front, back, hfill, hfront, hback⟩ := place.exists_tidy_fill 0 htidy hne
  rw [map_indented_zero] at hfront hback
  exact ⟨front, back, hfill, hfront, hback⟩

/-! ### The whole text -/

theorem Line.render_eq (line : Line) : line.render = line.shown.getD "" ++ "\n" := by
  rcases line with _ | ⟨depth, content⟩
  · exact (String.empty_append).symm
  · rfl

/-- The lines are those of a block at a depth. -/
structure IsBlock (depth : Nat) (opening : String) (body : List Node) (closing : String)
    (lines : List Line) :
    Prop where
  /-- There is a single line exactly if no node inside stands for a line with text. -/
  single_iff : lines = [.text depth (opening ++ closing)] ↔ nodesTexts body = []
  /-- Otherwise a line with text comes directly after the opening line, and one directly before the
  closing line. -/
  inside : nodesTexts body ≠ [] →
    ∃ inner, lines = .text depth opening :: inner ++ [.text depth closing] ∧
    IsTidy inner ∧ inner.filterMap Line.shown = (nodesTexts body).map (indented (depth + 1))

/-- The lines of a block have the form that blocks have. -/
theorem isBlock_blockLines (depth : Nat) (opening : String) (body : List Node) (closing : String) :
    IsBlock depth opening body closing
      (blockLines depth opening closing (nodesLines (depth + 1) body)) := by
  have hempty : tidy (nodesLines (depth + 1) body) = [] ↔ nodesTexts body = [] := by
    rw [tidy_eq_nil_iff, filterMap_shown_nodesLines, List.map_eq_nil_iff]
  constructor
  · refine ⟨fun hsingle ↦ ?_, fun hbody ↦ blockLines_of_nil depth opening closing (hempty.2 hbody)⟩
    by_contra hbody
    rw [blockLines_of_ne_nil depth opening closing (mt hempty.1 hbody)] at hsingle
    simp at hsingle
  · intro hbody
    refine ⟨_, blockLines_of_ne_nil depth opening closing (mt hempty.1 hbody), isTidy_tidy _, ?_⟩
    rw [filterMap_shown_tidy, filterMap_shown_nodesLines]

/-- The layout of a text. Its blank lines come neither first nor last nor in a row; its lines with
text are the ones that the nodes stand for; and the lines of a block are found together between
those of what comes before it and those of what comes after it. -/
theorem renderedLines_layout (nodes : List Node) :
    render nodes = String.join ((renderedLines nodes).map fun line ↦ line.shown.getD "" ++ "\n") ∧
      IsTidy (renderedLines nodes) ∧
      (renderedLines nodes).filterMap Line.shown = nodesTexts nodes ∧
      ∀ (place : Place) (opening : String) (body : List Node) (closing : String),
        nodes = place.fill [.block opening body closing] →
          ∃ front lines back, renderedLines nodes = front ++ lines ++ back ∧
            front.filterMap Line.shown = place.textsBefore ∧
            back.filterMap Line.shown = place.textsAfter ∧
            IsBlock place.depth opening body closing lines := by
  refine ⟨?_, isTidy_tidy _, ?_, ?_⟩
  · exact congrArg String.join (List.map_congr_left fun line _ ↦ line.render_eq)
  · rw [renderedLines, filterMap_shown_tidy, filterMap_shown_nodesLines, map_indented_zero]
  · rintro place opening body closing rfl
    have hlines : nodeLines place.depth (.block opening body closing) =
        blockLines place.depth opening closing (nodesLines (place.depth + 1) body) := by
        rw [nodeLines]
    have hblock := isBlock_blockLines place.depth opening body closing
    have htidy := isTidy_blockLines place.depth opening closing (nodesLines (place.depth + 1) body)
    have hne := blockLines_ne_nil place.depth opening closing (nodesLines (place.depth + 1) body)
    rw [← hlines] at hblock htidy hne
    obtain ⟨front, back, hfill, hfront, hback⟩ := place.exists_renderedLines_fill htidy hne
    exact ⟨front, _, back, hfill, hfront, hback, hblock⟩

/-- A block without a line with text inside, in a block with blank lines at both ends. -/
def hollow : List Node :=
  [.blank, .block "a [" [.blank, .block "b [" [.blank, .doc []] "]", .blank, .blank,
    .line "c", .blank] "]"]

theorem renderedLines_layout_hollow :
    hollow =
      (Place.inside [.blank] "a [" (.here [.blank] [.blank, .blank, .line "c", .blank]) "]" []).fill
        [.block "b [" [.blank, .doc []] "]"] ∧
      renderedLines hollow =
        [.text 0 "a [", .text 1 ("b [" ++ "]"), .blank, .text 1 "c", .text 0 "]"] ∧
      ∃ front lines back, renderedLines hollow = front ++ lines ++ back ∧
        front.filterMap Line.shown = ["a ["] ∧ back.filterMap Line.shown = ["  c", "]"] ∧
        IsBlock 1 "b [" [.blank, .doc []] "]" lines :=
  ⟨rfl, by decide, (renderedLines_layout hollow).2.2.2
    (.inside [.blank] "a [" (.here [.blank] [.blank, .blank, .line "c", .blank]) "]" []) _ _ _ rfl⟩

end AbiBindings.TypeScript.Layout
