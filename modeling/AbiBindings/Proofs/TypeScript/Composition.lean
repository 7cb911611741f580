import AbiBindings.Proofs.TypeScript.Seams
import Mathlib.Logic.Relation

/-!
# Rendering is compositional

The text of two lists of nodes, one after the other, is the text of the first and the text of the
second. Tidying adds one empty line between them or none, and which of the two is said by their own
lines: both must have a line with text, and a blank line must end the first or start the second
(`tidy_append`).

A `Place` is a position among nodes, at any depth. It is `Spare` if it is first or last in its block
or in the document, or beside a blank node. One more blank node at such a place leaves the text as
it is, since it makes a blank line that is dropped (`Place.Spare.tidy_fill`), and so do any number
of them at any such places.
-/

namespace AbiBindings.TypeScript.Layout

/-! ### Lines -/

/-- The lines that the text of nodes is made of. -/
def renderedLines (nodes : List Node) : List Line := tidy (nodesLines 0 nodes)

/-- Both lists have a line with text, and the first ends in a blank line or the second starts with
one. -/
def Apart (lines more : List Line) : Prop :=
  tidy lines ≠ [] ∧ tidy more ≠ [] ∧ (lines.getLast? = some .blank ∨ more.head? = some .blank)

instance (lines more : List Line) : Decidable (Apart lines more) :=
  inferInstanceAs (Decidable (_ ∧ _ ∧ (_ ∨ _)))

theorem pendingAfter_iff {lines : List Line} :
    pendingAfter false lines = true ↔ lines.getLast? = some .blank := by
  rw [pendingAfter]
  rcases lines.getLast? with _ | last
  · simp
  · simp

theorem tidy_blank_cons (lines : List Line) : tidy (.blank :: lines) = tidy lines :=
  tidyFrom_false true lines

/-- After a line with text, the next line with text comes after a blank line or directly. -/
theorem tidyFrom_true (pending : Bool) (lines : List Line) :
    tidyFrom true pending lines =
      if tidy lines ≠ [] ∧ (pending = true ∨ lines.head? = some .blank) then .blank :: tidy lines
      else tidy lines := by
  have hblank (lines : List Line) :
      tidyFrom true true lines = if tidy lines ≠ [] then .blank :: tidy lines else tidy lines := by
    rw [tidyFrom_true_true, ite_not]
    split
    · rename_i hnil
      exact hnil.symm
    · rfl
  rcases pending with _ | _
  · rcases lines with _ | ⟨_ | ⟨depth, content⟩, lines⟩
    · rfl
    · show tidyFrom true true lines = _
      simp [tidy_blank_cons, hblank]
    · simp [tidy, tidyFrom]
  · simp [hblank]

/-- Two lists of lines are tidied one by one, and at most one blank line comes between them. -/
theorem tidy_append (lines more : List Line) :
    tidy (lines ++ more) = tidy lines ++ (if Apart lines more then [.blank] else []) ++
      tidy more := by
  rw [tidy, tidyFrom_append, Bool.false_or]
  show tidy lines ++ _ = _
  rw [List.append_assoc]
  congr 1
  by_cases hlines : tidy lines = []
  · have hapart : ¬ Apart lines more := fun h ↦ h.1 hlines
    rw [if_neg hapart, hlines]
    exact tidyFrom_false _ more
  · have hstarted : (!(tidy lines).isEmpty) = true := by simpa using hlines
    rw [hstarted, tidyFrom_true]
    simp only [pendingAfter_iff]
    by_cases hapart : Apart lines more
    · rw [if_pos hapart, if_pos hapart.2]
      rfl
    · rw [if_neg hapart, if_neg fun h ↦ hapart ⟨hlines, h⟩]
      rfl

theorem tidy_concat_blank (lines : List Line) : tidy (lines ++ [.blank]) = tidy lines := by
  have hapart : ¬ Apart lines [.blank] := fun h ↦ h.2.1 rfl
  rw [tidy_append, if_neg hapart, List.append_nil]
  exact List.append_nil _

/-- Of two blank lines in a row, one is dropped. -/
theorem tidy_append_blank_blank (lines more : List Line) :
    tidy (lines ++ .blank :: .blank :: more) = tidy (lines ++ .blank :: more) := by
  rw [tidy, tidy, tidyFrom_append_blank, tidyFrom_append_blank]
  rfl

theorem nodesLines_nil (depth : Nat) : nodesLines depth [] = [] := by rw [nodesLines]

theorem nodesLines_blank (depth : Nat) (nodes : List Node) :
    nodesLines depth (.blank :: nodes) = .blank :: nodesLines depth nodes := by
  rw [nodesLines, nodeLines]
  rfl

/-! ### Places -/

/-- A place among nodes: between some of them, or in a block. -/
inductive Place where
  | here (before after : List Node)
  | inside (before : List Node) (opening : String) (place : Place) (closing : String)
    (after : List Node)

namespace Place

/-- The nodes around a place with the given ones at it. -/
def fill (nodes : List Node) : Place → List Node
  | here before after => before ++ nodes ++ after
  | inside before opening place closing after =>
    before ++ .block opening (place.fill nodes) closing :: after

/-- At either end of the document or of a block, or beside a blank node. -/
def Spare : Place → Prop
  | here before after =>
    before = [] ∨ after = [] ∨ before.getLast? = some .blank ∨ after.head? = some .blank
  | inside _ _ place _ _ => place.Spare

/-- A blank node at a spare place is tidied away. -/
theorem Spare.tidy_fill {place : Place} (h : place.Spare) (depth : Nat) :
    tidy (nodesLines depth (place.fill [.blank])) = tidy (nodesLines depth (place.fill [])) := by
  induction place generalizing depth with
  | here before after =>
    simp only [fill, nodesLines_append, nodesLines_blank, List.append_assoc, List.nil_append,
      List.cons_append]
    rcases h with rfl | rfl | hlast | hhead
    · rw [nodesLines_nil]
      exact tidy_blank_cons _
    · rw [nodesLines_nil, List.append_nil]
      exact tidy_concat_blank _
    · obtain ⟨front, rfl⟩ := List.getLast?_eq_some_iff.1 hlast
      rw [nodesLines_append, nodesLines_blank, nodesLines_nil, List.append_assoc, List.append_assoc]
      exact tidy_append_blank_blank _ _
    · obtain ⟨rest, rfl⟩ := List.head?_eq_some_iff.1 hhead
      rw [nodesLines_blank]
      exact tidy_append_blank_blank _ _
  | inside before opening place closing after ih =>
    -- a block looks at its lines only when they are tidied
    have hbody := ih h (depth + 1)
    simp only [fill, nodesLines_append, nodesLines, nodeLines, blockLines, hbody]

end Place

/-- The second list has one more blank node than the first, at a spare place. -/
def Respaced (nodes others : List Node) : Prop :=
  ∃ place : Place, place.Spare ∧ nodes = place.fill [] ∧ others = place.fill [.blank]

theorem Respaced.renderedLines_eq {nodes others : List Node} (h : Respaced nodes others) :
    renderedLines nodes = renderedLines others := by
  obtain ⟨place, hspare, rfl, rfl⟩ := h
  exact (hspare.tidy_fill 0).symm

theorem renderedLines_eq_of_eqvGen {nodes others : List Node}
    (h : Relation.EqvGen Respaced nodes others) : renderedLines nodes = renderedLines others :=
  (eq_equivalence.comap renderedLines).eqvGen_iff.1 (h.mono fun _ _ hstep ↦ hstep.renderedLines_eq)

/-- Nodes are rendered part by part, with an empty line between two parts exactly if both have lines
and a blank line comes between them. So nodes that differ by blank nodes at spare places only have
the same text. -/
theorem render_append (nodes more : List Node) :
    render (nodes ++ more) =
        render nodes ++
          (if renderedLines nodes ≠ [] ∧ renderedLines more ≠ [] ∧
              ((nodesLines 0 nodes).getLast? = some .blank ∨
                (nodesLines 0 more).head? = some .blank)
            then "\n" else "") ++
          render more ∧
      ∀ others, Relation.EqvGen Respaced nodes others → render others = render nodes := by
  constructor
  · show linesText (tidy (nodesLines 0 (nodes ++ more))) = _
    rw [nodesLines_append, tidy_append, linesText_append, linesText_append]
    congr 2
    split
    · exact (if_pos ‹_›).symm
    · exact (if_neg ‹_›).symm
  · intro others hothers
    show linesText (renderedLines others) = linesText (renderedLines nodes)
    rw [renderedLines_eq_of_eqvGen hothers]

/-- Nodes with one blank node among them. -/
def spaced : List Node := [.line "a", .blank, .block "[" [.line "b"] "]"]

/-- The same nodes with further blank nodes: at the start, beside the blank node and at the end of
the block. -/
def respaced : List Node := [.blank, .line "a", .blank, .blank, .block "[" [.line "b", .blank] "]"]

/-- Nodes whose first line is blank, after a comment without lines. -/
def blankFirst : List Node := [.doc [], .snippet "\n \n", .line "c"]

theorem render_append_spaced :
    Relation.EqvGen Respaced spaced respaced ∧ render respaced = render spaced ∧
      render (spaced ++ blankFirst) = render spaced ++ "\n" ++ render blankFirst := by
  have hrespaced : Relation.EqvGen Respaced spaced respaced := by
    refine .trans _ (.blank :: spaced) _ (.rel _ _ ⟨.here [] spaced, .inl rfl, rfl, rfl⟩) ?_
    refine .trans _ [.blank, .line "a", .blank, .blank, .block "[" [.line "b"] "]"] _
      (.rel _ _ ?_) (.rel _ _ ?_)
    · exact ⟨.here [.blank, .line "a"] [.blank, .block "[" [.line "b"] "]"],
        .inr (.inr (.inr rfl)), rfl, rfl⟩
    · exact ⟨.inside [.blank, .line "a", .blank, .blank] "[" (.here [.line "b"] []) "]" [],
        .inr (.inl rfl), rfl, rfl⟩
  obtain ⟨happend, hrender⟩ := render_append spaced blankFirst
  refine ⟨hrespaced, hrender respaced hrespaced, ?_⟩
  rw [happend, if_pos]
  decide

end AbiBindings.TypeScript.Layout
