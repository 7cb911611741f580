import AbiBindings.Text.Pieces
import Mathlib.Data.List.Basic

/-!
# Pieces of a text

Cutting goes by the separators: a text with a separator in it is cut into the pieces before and the
pieces after it (`pieces_append`), and one without is a single piece (`pieces_of_forall`). Patching
goes from the left, and only the first character of a pair can stop it.
-/

namespace AbiBindings.Text

theorem pieces_ne_nil (p : Char → Bool) (cs : List Char) : pieces p cs ≠ [] := by
  cases cs with
  | nil => exact List.cons_ne_nil _ _
  | cons c cs =>
    rw [pieces]
    split
    · exact List.cons_ne_nil _ _
    · split <;> exact List.cons_ne_nil _ _

/-- A text is cut at a separator, whatever is on both sides of it. -/
theorem pieces_append {p : Char → Bool} {c : Char} (hc : p c = true) (cs ds : List Char) :
    pieces p (cs ++ c :: ds) = pieces p cs ++ pieces p ds := by
  induction cs with
  | nil => exact if_pos hc
  | cons d cs ih =>
    rw [List.cons_append, pieces, pieces, ih]
    obtain ⟨piece, rest, hpieces⟩ := List.exists_cons_of_ne_nil (pieces_ne_nil p cs)
    rw [hpieces]
    split
    · rfl
    · rfl

/-- Without a separator a text is one piece. -/
theorem pieces_of_forall {p : Char → Bool} {cs : List Char} (h : ∀ c ∈ cs, p c = false) :
    pieces p cs = [cs] := by
  induction cs with
  | nil => rfl
  | cons c cs ih =>
    have hc : ¬ p c = true := by simp [h c List.mem_cons_self]
    rw [pieces, if_neg hc, ih fun d hd ↦ h d (List.mem_cons_of_mem c hd)]

/-- A text without a separator goes to the first piece of what comes after it. -/
theorem pieces_append_left {p : Char → Bool} {start cs piece : List Char} {rest : List (List Char)}
    (hstart : ∀ c ∈ start, p c = false) (hcs : pieces p cs = piece :: rest) :
    pieces p (start ++ cs) = (start ++ piece) :: rest := by
  induction start with
  | nil => exact hcs
  | cons c start ih =>
    have hc : ¬ p c = true := by simp [hstart c List.mem_cons_self]
    rw [List.cons_append, pieces, if_neg hc, ih fun d hd ↦ hstart d (List.mem_cons_of_mem c hd)]
    rfl

theorem forall_ne_newline {cs : List Char} (h : '\n' ∉ cs) :
    ∀ c ∈ cs, decide (c = '\n') = false := by
  intro c hc
  refine decide_eq_false ?_
  rintro rfl
  exact h hc

/-- Lines with their ends are pieces of their own. -/
theorem pieces_lines {lines : List (List Char)} (h : ∀ line ∈ lines, '\n' ∉ line) (cs : List Char) :
    pieces (· = '\n') (lines.flatMap (· ++ ['\n']) ++ cs) = lines ++ pieces (· = '\n') cs := by
  induction lines with
  | nil => rfl
  | cons line lines ih =>
    have hline := forall_ne_newline (h line List.mem_cons_self)
    rw [List.flatMap_cons, List.append_assoc, List.append_assoc, List.singleton_append,
      pieces_append rfl,
      pieces_of_forall hline, ih fun other hother ↦ h other (List.mem_cons_of_mem line hother)]
    rfl

/-- Nothing is added to the pieces. -/
theorem mem_of_mem_pieces {p : Char → Bool} {cs piece : List Char}
    (h : piece ∈ pieces p cs) {c : Char} (hc : c ∈ piece) : c ∈ cs := by
  induction cs generalizing piece with
  | nil =>
    obtain rfl := List.mem_singleton.1 h
    cases hc
  | cons d cs ih =>
    rw [pieces] at h
    split at h
    · obtain rfl | h := List.mem_cons.1 h
      · cases hc
      · exact List.mem_cons_of_mem d (ih h hc)
    · obtain ⟨first, rest, hpieces⟩ := List.exists_cons_of_ne_nil (pieces_ne_nil p cs)
      rw [hpieces] at h ih
      obtain rfl | h := List.mem_cons.1 h
      · obtain rfl | hc := List.mem_cons.1 hc
        · exact List.mem_cons_self
        · exact List.mem_cons_of_mem d (ih List.mem_cons_self hc)
      · exact List.mem_cons_of_mem d (ih (List.mem_cons_of_mem first h) hc)

/-- No piece has a separator in it. -/
theorem eq_false_of_mem_pieces {p : Char → Bool} {cs piece : List Char} (h : piece ∈ pieces p cs) :
    ∀ c ∈ piece, p c = false := by
  induction cs generalizing piece with
  | nil =>
    obtain rfl := List.mem_singleton.1 h
    exact List.forall_mem_nil _
  | cons d cs ih =>
    obtain ⟨first, rest, hpieces⟩ := List.exists_cons_of_ne_nil (pieces_ne_nil p cs)
    rw [pieces, hpieces] at h
    rw [hpieces] at ih
    split at h
    · obtain rfl | h := List.mem_cons.1 h
      · exact List.forall_mem_nil _
      · exact ih h
    · rename_i hd
      obtain rfl | h := List.mem_cons.1 h
      · exact List.forall_mem_cons.2 ⟨Bool.eq_false_iff.2 hd, ih List.mem_cons_self⟩
      · exact ih (List.mem_cons_of_mem first h)

/-- The pieces with line ends after them make up the text with one. -/
theorem flatMap_pieces (cs : List Char) :
    (pieces (· = '\n') cs).flatMap (· ++ ['\n']) = cs ++ ['\n'] := by
  induction cs with
  | nil => rfl
  | cons c cs ih =>
    rw [pieces]
    obtain ⟨piece, rest, hpieces⟩ := List.exists_cons_of_ne_nil (pieces_ne_nil (· = '\n') cs)
    rw [hpieces] at ih ⊢
    split
    · rename_i hc
      rw [List.flatMap_cons, ih, of_decide_eq_true hc]
      rfl
    · rw [List.flatMap_cons] at ih ⊢
      exact congrArg (c :: ·) ih

/-! ### Patching -/

theorem replacePair_cons_of_ne {a b c : Char} (hc : c ≠ a) (patch cs : List Char) :
    replacePair a b patch (c :: cs) = c :: replacePair a b patch cs := by
  cases cs with
  | nil => rfl
  | cons d cs => rw [replacePair, if_neg fun hpair ↦ hc hpair.1]

/-- A pair is replaced where it stands. -/
theorem replacePair_pair (a b : Char) (patch cs : List Char) :
    replacePair a b patch (a :: b :: cs) = patch ++ replacePair a b patch cs := by
  rw [replacePair, if_pos ⟨rfl, rfl⟩]

/-- A pair with another second character stays, if no pair starts with that character. -/
theorem replacePair_other {a b c : Char} (hb : c ≠ b) (ha : c ≠ a) (patch cs : List Char) :
    replacePair a b patch (a :: c :: cs) = a :: c :: replacePair a b patch cs := by
  rw [replacePair, if_neg fun hpair ↦ hb hpair.2, replacePair_cons_of_ne ha]

end AbiBindings.Text
