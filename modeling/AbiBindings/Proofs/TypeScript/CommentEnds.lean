import AbiBindings.Proofs.TypeScript.LineReader
import AbiBindings.Proofs.TypeScript.RenderedLines

/-!
# Where comments end

A documentation comment is written on one line or on several, and its lines may hold anything. The
text between its opening and its end is put together from lines in which nothing ends a comment,
from indentation, and from line ends. None of these parts starts with a slash, so no end comes about
where two of them meet (`Inert.append`), and the one at the end of the comment is the only one.
-/

namespace AbiBindings.TypeScript

open Layout

/-! ### Inert texts -/

/-- Nothing in the text ends a comment, and neither does its start after an asterisk. -/
structure Inert (cs : List Char) : Prop where
  noEnd : NoEnd cs
  head : cs.head? ≠ some '/'

/-- Inert texts make no end of a comment where they meet. -/
theorem Inert.append {cs ds : List Char} (h : Inert cs) (hds : Inert ds) : Inert (cs ++ ds) := by
  refine ⟨h.noEnd.append hds.noEnd fun c _ d hd hpair ↦ ?_, fun hhead ↦ ?_⟩
  · rw [hpair.2] at hd
    exact hds.head hd
  · rw [List.head?_append, Option.or_eq_some_iff] at hhead
    exact hhead.elim h.head fun hhead ↦ hds.head hhead.2

/-- A blank or a line end keeps a slash at the start of a text apart from an asterisk. -/
theorem NoEnd.inert_cons {cs : List Char} (h : NoEnd cs) {c : Char} (hstar : c ≠ '*')
    (hslash : c ≠ '/') : Inert (c :: cs) := by
  refine ⟨List.isChain_cons.2 ⟨fun d _ hpair ↦ hstar hpair.1, h⟩, fun hhead ↦ hslash ?_⟩
  exact Option.some.inj hhead

theorem inert_nil : Inert [] := ⟨.nil, by decide⟩

theorem inert_singleton {c : Char} (h : c ≠ '/') : Inert [c] := ⟨.singleton c, by simpa using h⟩

theorem inert_indentation (n : Nat) : Inert ("".pushn ' ' n).toList := by
  induction n with
  | zero => exact inert_nil
  | succ n ih =>
    have hpush : "".pushn ' ' (n + 1) = ("".pushn ' ' n).push ' ' := rfl
    rw [hpush, String.toList_push]
    exact ih.append (inert_singleton (by decide))

/-- A line of a comment is inert, whatever its text. -/
theorem inert_commentLine (text : String) : Inert (commentLine text).toList := by
  refine ⟨noEnd_commentLine text, ?_⟩
  rw [commentLine]
  split
  · decide
  · simp

/-- So are all of them together. -/
theorem inert_commentLines (depth : Nat) (lines : List String) :
    Inert (linesText (lines.map (.text depth <| commentLine ·))).toList := by
  induction lines with
  | nil => exact inert_nil
  | cons line lines ih =>
    rw [List.map_cons, linesText_cons, String.toList_append, Line.render, String.toList_append,
      String.toList_append]
    exact (((inert_indentation _).append (inert_commentLine line)).append
      (inert_singleton (by decide))).append ih

/-! ### Comments -/

/-- If nothing before the last slash ends a comment, the text ends with the only end in it. -/
theorem NoEnd.eq_nil_of_end {cs before after : List Char} (h : NoEnd (cs ++ ['*']))
    (hend : cs ++ ['*', '/'] = before ++ ['*', '/'] ++ after) : after = [] := by
  rcases List.eq_nil_or_concat after with rfl | ⟨rest, c, rfl⟩
  · rfl
  · -- the end would stand in what comes before the last slash
    have hlast : (cs ++ ['*']) ++ ['/'] = (before ++ '*' :: '/' :: rest) ++
        [c] := by simpa using hend
    rw [(List.append_inj' hlast rfl).1] at h
    exact absurd ⟨rfl, rfl⟩ (List.isChain_cons_cons.1 h.right_of_append).1

/-- A comment has inert text between its opening and its end. -/
theorem exists_linesText_docLines (depth : Nat) {lines : List String} (h : lines ≠ []) :
    ∃ inner : String, linesText (docLines depth lines) = indented depth ("/**" ++ inner ++
      "*/") ++ "\n" ∧
      Inert inner.toList := by
  rcases lines with _ | ⟨line, _ | ⟨next, lines⟩⟩
  · exact absurd rfl h
  · refine ⟨" " ++ commentText line ++ " ", ?_, ?_⟩
    · show linesText [.text depth ("/** " ++ commentText line ++ " */")] = _
      rw [linesText_cons, ← String.toList_inj, indented, Line.render]
      simp [linesText]
    · rw [String.toList_append, String.toList_append]
      exact ((noEnd_commentText line).inert_cons (by decide) (by decide)).append
        (inert_singleton (by decide))
  · refine ⟨"\n" ++ linesText ((line :: next :: lines).map (.text depth <| commentLine ·)) ++
      indented depth " ", ?_, ?_⟩
    · show linesText (.text depth "/**" :: (line :: next :: lines).map
        (.text depth <| commentLine ·) ++ [.text depth " */"]) = _
      rw [linesText_append, linesText_cons, linesText_cons, ← String.toList_inj, indented,
        indented, Line.render, Line.render]
      simp [linesText]
    · rw [String.toList_append, String.toList_append, indented, String.toList_append]
      exact ((inert_singleton (by decide)).append (inert_commentLines depth _)).append
        ((inert_indentation _).append (inert_singleton (by decide)))

/-- A documentation comment ends where its text ends, at any depth and at any place among other
nodes: of all that comes after the slash and the asterisk that open it, nothing ends it but the last
two characters. -/
theorem doc_ends_once {lines : List String} (hlines : lines ≠ []) (depth : Nat) :
    ∃ inner : String,
      linesText (nodeLines depth (.doc lines)) = indented depth ("/**" ++ inner ++ "*/") ++ "\n" ∧
        (∀ before after, "*" ++ inner ++ "*/" = before ++ "*/" ++ after → after = "") ∧
        ∀ place : Place, place.depth = depth → ∃ front back,
          render (place.fill [.doc lines]) =
              linesText front ++ (indented depth ("/**" ++ inner ++ "*/") ++ "\n") ++
                linesText back ∧
            front.filterMap Line.shown = place.textsBefore ∧
              back.filterMap Line.shown = place.textsAfter := by
  obtain ⟨inner, htext, hinner⟩ := exists_linesText_docLines depth hlines
  have hdoc : nodeLines depth (.doc lines) = docLines depth lines := by rw [nodeLines]
  rw [← hdoc] at htext
  refine ⟨inner, htext, fun before after hend ↦ ?_, ?_⟩
  · have hstar : Inert ('*' :: inner.toList ++ ['*']) :=
      ((inert_singleton (by decide)).append hinner).append (inert_singleton (by decide))
    have hchars : '*' :: inner.toList ++ ['*', '/'] = before.toList ++ ['*', '/'] ++
        after.toList := by
      simpa using String.toList_inj.2 hend
    exact String.toList_inj.1 (hstar.noEnd.eq_nil_of_end hchars)
  · rintro place rfl
    have htidy : IsTidy (nodeLines place.depth (.doc lines)) := by
      rw [hdoc, docLines_eq]
      exact isTidy_texts _ _
    have hne : nodeLines place.depth (.doc lines) ≠ [] := by
      rw [Ne, ← linesText_eq_empty_iff, htext]
      exact append_newline_ne_empty _
    obtain ⟨front, back, hfill, hfront, hback⟩ := place.exists_renderedLines_fill htidy hne
    refine ⟨front, back, ?_, hfront, hback⟩
    rw [← htext, ← linesText_append, ← linesText_append, ← hfill]
    rfl

/-- Lines of a comment that hold its end, or parts of it. -/
def hostileLines : List String := ["*/", "/ **/*", "*", "/"]

theorem doc_ends_once_hostile :
    hostileLines ≠ [] ∧ (Place.inside [.line "a"] "[" (.here [] [.doc ["*/"]]) "]" []).depth = 1 ∧
      ∃ inner : String,
        linesText (nodeLines 1 (.doc hostileLines)) = indented 1 ("/**" ++ inner ++ "*/") ++ "\n" ∧
          (∀ before after, "*" ++ inner ++ "*/" = before ++ "*/" ++ after → after = "") ∧
          ∃ front back,
            render [.line "a", .block "[" [.doc hostileLines, .doc ["*/"]] "]"] =
                linesText front ++ (indented 1 ("/**" ++ inner ++ "*/") ++ "\n") ++ linesText back ∧
              front.filterMap Line.shown = ["a", "["] ∧
                back.filterMap Line.shown = ["  /** *\\/ */", "]"] := by
  have hlines : hostileLines ≠ [] := List.cons_ne_nil _ _
  obtain ⟨inner, htext, hend, hplace⟩ := doc_ends_once hlines 1
  exact ⟨hlines, rfl, inner, htext, hend,
    hplace (.inside [.line "a"] "[" (.here [] [.doc ["*/"]]) "]" []) rfl⟩

end AbiBindings.TypeScript
