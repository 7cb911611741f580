import Mathlib.Data.List.Basic

/-!
# A lexer for confinement

A lexer that tells code from strings and comments and keeps track of brackets, as far as that takes:
strings in single or double quotes with escapes, comments to the end of the line and comments in
`/*` and `*/`. It gets stuck at a line end inside a string and at a bracket that closes nothing or
closes another kind of bracket.

The brackets below those that a text closes do not matter to it (`scan_frame`), so a text that leads
from code to code does so under any open brackets. Such texts are `Neutral` if they leave the
brackets as they are. More generally `Leads before text after` gives the brackets a text closes and
those it leaves open; texts are put together by `Leads.append`.
-/

namespace AbiBindings.TypeScript

/-! ### The lexer -/

/-- What the lexer is in. -/
inductive Mode where
  | code
  /-- After a slash in code, which may start a comment. -/
  | slash
  | string (quote : Char)
  /-- After a backslash in a string. -/
  | escape (quote : Char)
  | lineComment
  | blockComment
  /-- After an asterisk in a comment, which a slash would end. -/
  | star
deriving Repr, DecidableEq

/-- The state of the lexer: its mode, and the closing brackets that are due, the next one first. -/
structure LexState where
  mode : Mode
  due : List Char
deriving Repr, DecidableEq

namespace LexState

/-- The closing bracket of an opening one. -/
def closing? (c : Char) : Option Char :=
  if c = '(' then some ')'
  else if c = '[' then some ']'
  else if c = '\x7b' then some '\x7d'
  else none

/-- Whether the character closes a bracket. -/
def isClosing (c : Char) : Bool := c = ')' || c = ']' || c = '\x7d'

/-- Whether the character opens and closes strings. -/
def isQuote (c : Char) : Bool := c = '\'' || c = '"'

/-- Whether the character ends a line. -/
def isLineEnd (c : Char) : Bool := c = '\n' || c = '\r'

/-- A closing bracket has to be the one that is due next. -/
def close (c : Char) : List Char → Option LexState
  | [] => none
  | bracket :: due => if c = bracket then some ⟨.code, due⟩ else none

/-- A character of code. -/
def codeStep (due : List Char) (c : Char) : Option LexState :=
  if c = '/' then some ⟨.slash, due⟩
  else if isQuote c then some ⟨.string c, due⟩
  else if isClosing c then close c due
  else some ⟨.code, (closing? c).toList ++ due⟩

/-- One character. -/
def step (state : LexState) (c : Char) : Option LexState :=
  match state.mode with
  | .code => codeStep state.due c
  | .slash =>
    if c = '/' then some ⟨.lineComment, state.due⟩
    else if c = '*' then some ⟨.blockComment, state.due⟩
    else codeStep state.due c
  | .string quote =>
    if isLineEnd c then none
    else if c = '\\' then some ⟨.escape quote, state.due⟩
    else if c = quote then some ⟨.code, state.due⟩
    else some state
  | .escape quote => if isLineEnd c then none else some ⟨.string quote, state.due⟩
  | .lineComment => if isLineEnd c then some ⟨.code, state.due⟩ else some state
  | .blockComment => if c = '*' then some ⟨.star, state.due⟩ else some state
  | .star =>
    if c = '/' then some ⟨.code, state.due⟩
    else if c = '*' then some state
    else some ⟨.blockComment, state.due⟩

/-- A text, one character after the other. -/
def scan (state : LexState) : List Char → Option LexState
  | [] => some state
  | c :: cs => (state.step c).bind (scan · cs)

/-- A text is scanned one part after the other. -/
theorem scan_append (state : LexState) (cs ds : List Char) :
    state.scan (cs ++ ds) = (state.scan cs).bind (scan · ds) := by
  induction cs generalizing state with
  | nil => rfl
  | cons c cs ih =>
    rw [List.cons_append, scan, scan, Option.bind_assoc]
    exact congrArg _ (funext fun next ↦ ih next)

/-- The state with further brackets due below its own. -/
def above (state : LexState) (below : List Char) : LexState := ⟨state.mode, state.due ++ below⟩

theorem close_frame {due : List Char} {c : Char} {next : LexState} (h : close c due = some next)
    (below : List Char) : close c (due ++ below) = some (next.above below) := by
  cases due with
  | nil => cases h
  | cons bracket due =>
    simp only [close, List.cons_append] at h ⊢
    split_ifs at h ⊢
    cases h
    rfl

theorem codeStep_frame {due : List Char} {c : Char} {next : LexState}
    (h : codeStep due c = some next) (below : List Char) :
    codeStep (due ++ below) c = some (next.above below) := by
  unfold codeStep at h ⊢
  split_ifs at h ⊢
  · cases h; rfl
  · cases h; rfl
  · exact close_frame h below
  · cases h
    simp [above]

/-- Brackets below those that are looked at do not matter. -/
theorem step_frame {state next : LexState} {c : Char} (h : state.step c = some next)
    (below : List Char) : (state.above below).step c = some (next.above below) := by
  obtain ⟨mode, due⟩ := state
  cases mode with
  | code => exact codeStep_frame h below
  | slash =>
    simp only [step, above] at h ⊢
    split_ifs at h ⊢
    · cases h; rfl
    · cases h; rfl
    · exact codeStep_frame h below
  | string quote =>
    simp only [step, above] at h ⊢
    split_ifs at h ⊢ <;> cases h <;> rfl
  | escape quote =>
    simp only [step, above] at h ⊢
    split_ifs at h ⊢
    cases h
    rfl
  | lineComment =>
    simp only [step, above] at h ⊢
    split_ifs at h ⊢ <;> cases h <;> rfl
  | blockComment =>
    simp only [step, above] at h ⊢
    split_ifs at h ⊢ <;> cases h <;> rfl
  | star =>
    simp only [step, above] at h ⊢
    split_ifs at h ⊢ <;> cases h <;> rfl

/-- Brackets that are open from before do not matter to a text that closes none of them. -/
theorem scan_frame {state next : LexState} {cs : List Char} (h : state.scan cs = some next)
    (below : List Char) : (state.above below).scan cs = some (next.above below) := by
  induction cs generalizing state with
  | nil => cases h; rfl
  | cons c cs ih =>
    obtain ⟨middle, hstep, hscan⟩ := Option.bind_eq_some_iff.1 h
    exact Option.bind_eq_some_iff.2 ⟨_, step_frame hstep below, ih hscan⟩

end LexState

/-! ### Texts that lead from code to code -/

open LexState

/-- In code, the text closes the brackets `before` and leaves the brackets `after` open. -/
def Leads (before : List Char) (text : String) (after : List Char) : Prop :=
  (⟨.code, before⟩ : LexState).scan text.toList = some ⟨.code, after⟩

/-- In code, the text closes all that it opens. -/
def Neutral (text : String) : Prop := Leads [] text []

instance (text : String) : Decidable (Neutral text) :=
  inferInstanceAs (Decidable ((⟨.code, []⟩ : LexState).scan text.toList = some ⟨.code, []⟩))

example : Neutral "f('it\\'s (', [0]) // (\n" := by decide

example : ¬ Neutral "'a\nb'" ∧ ¬ Neutral "([)]" ∧ ¬ Neutral "/* ( " := by decide

namespace Leads

variable {before between after : List Char} {text more : String}

theorem append (h : Leads before text between) (hmore : Leads between more after) :
    Leads before (text ++ more) after := by
  rw [Leads, String.toList_append, scan_append, h]
  exact hmore

theorem frame (h : Leads before text after) (below : List Char) :
    Leads (before ++ below) text (after ++ below) :=
  scan_frame h below

/-- A text is evaluated on its characters. -/
theorem fixed {cs : List Char} (h : (⟨.code, before⟩ : LexState).scan cs = some ⟨.code, after⟩) :
    Leads before (String.ofList cs) after := by
  rw [Leads, String.toList_ofList, h]

end Leads

/-- What holds of the empty text and is kept by putting texts together holds of texts with a
separator between them. -/
theorem forall_intercalate {p : String → Prop} (hempty : p "")
    (happend : ∀ {text more : String}, p text → p more → p (text ++ more)) {separator : String}
    (hseparator : p separator) {texts : List String} (h : ∀ text ∈ texts, p text) :
    p (separator.intercalate texts) := by
  induction texts with
  | nil =>
    rw [String.intercalate_nil]
    exact hempty
  | cons text texts ih =>
    have htext := h text List.mem_cons_self
    have hrest := ih fun other hother ↦ h other (List.mem_cons_of_mem text hother)
    cases texts with
    | nil => rwa [String.intercalate_singleton]
    | cons next texts =>
      rw [String.intercalate_cons_cons]
      exact happend (happend htext hseparator) hrest

namespace Neutral

variable {text more : String}

theorem leads (h : Neutral text) (due : List Char) : Leads due text due :=
  Leads.frame h due

theorem append (h : Neutral text) (hmore : Neutral more) : Neutral (text ++ more) :=
  Leads.append h hmore

theorem empty : Neutral "" := rfl

/-- Texts with a neutral text between them. -/
theorem intercalate {separator : String} (hseparator : Neutral separator) {texts : List String}
    (h : ∀ text ∈ texts, Neutral text) : Neutral (separator.intercalate texts) :=
  forall_intercalate empty (fun htext hmore ↦ append htext hmore) hseparator h

end Neutral

/-! ### Plain texts -/

/-- The characters that mean something to the lexer in code. -/
def specials : List Char := ['/', '\'', '"', '(', ')', '[', ']', '\x7b', '\x7d']

/-- A character that means nothing to the lexer in code. -/
def isPlain (c : Char) : Bool := !specials.contains c

/-- A class of characters without the special ones is plain. -/
theorem isPlain_of_class {p : Char → Bool} (hp : specials.any p = false) {c : Char}
    (h : p c = true) : isPlain c = true := by
  by_contra hspecial
  rw [isPlain, Bool.not_eq_true', Bool.not_eq_false, List.contains_iff_mem] at hspecial
  exact List.any_eq_false.1 hp c hspecial h

/-- Plain characters open and close nothing. -/
theorem codeStep_of_isPlain {c : Char} (h : isPlain c = true) (due : List Char) :
    codeStep due c = some ⟨.code, due⟩ := by
  simp only [isPlain, specials, List.contains_cons, List.contains_nil, Bool.or_false,
    Bool.not_eq_true', Bool.or_eq_false_iff, beq_eq_false_iff_ne] at h
  simp [codeStep, isQuote, isClosing, closing?, h]

theorem scan_of_isPlain {cs : List Char} (h : ∀ c ∈ cs, isPlain c = true) (due : List Char) :
    (⟨.code, due⟩ : LexState).scan cs = some ⟨.code, due⟩ := by
  induction cs with
  | nil => rfl
  | cons c cs ih =>
    refine Option.bind_eq_some_iff.2 ⟨_, codeStep_of_isPlain (h c List.mem_cons_self) due, ?_⟩
    exact ih fun d hd ↦ h d (List.mem_cons_of_mem c hd)

/-- Texts of plain characters are neutral. -/
theorem Neutral.of_isPlain {text : String} (h : ∀ c ∈ text.toList, isPlain c = true) :
    Neutral text :=
  scan_of_isPlain h []

end AbiBindings.TypeScript
