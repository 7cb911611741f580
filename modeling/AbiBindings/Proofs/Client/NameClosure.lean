import AbiBindings.Proofs.Client.WrittenTypes

/-!
# Generated texts are closed under names

The names that stand in type positions are read off the generated texts (`typeNames`), and are those
in the types of the declarations and of the members of the client class (`typeNames_typesNodes`,
`typeNames_clientNodes`). For declarations that is known; for a member, its parameters and its
result are on the line that opens it, and its body has types only after the word `as`. Most lines
of a body have no such word, whatever texts were put into them (`Untyped`); what is left is the line
that returns the result and the ones that throw errors.

The types of the declarations and members name nothing but what is declared (`Known`), so each name
that is read is exported once by the same text (`type_names_declared`).
-/

namespace AbiBindings.Client

open TypeScript NameSet

/-! ### Lines that give no value a type -/

/-- The text is fixed and holds no `as`. -/
def Silent (text : String) : Prop :=
  (Partial.none.run text.toList).2 = .none ∧ .word "as" ∉ (Partial.none.run text.toList).1

instance (text : String) : Decidable (Silent text) := inferInstanceAs (Decidable (_ ∧ _))

/-- The text is fixed, holds no `as` and does not go on with a word. -/
def Separates (text : String) : Prop :=
  Silent text ∧ text.toList.head?.any (!isIdentifierChar ·) = true

instance (text : String) : Decidable (Separates text) := inferInstanceAs (Decidable (_ ∧ _))

/-- The text holds no `as`, before anything that does not go on with a word. -/
def Untyped (text : String) : Prop :=
  ∃ found, .word "as" ∉ found ∧
    ∀ rest, startsWord rest = false → tokens (text.toList ++ rest) = found ++ tokens rest

theorem Silent.tokens_append {text : String} (h : Silent text) (rest : List Char) :
    tokens (text.toList ++ rest) = (Partial.none.run text.toList).1 ++ tokens rest :=
  tokens_fixed text _ (Prod.ext rfl h.1) rest

theorem Silent.untyped {text : String} (h : Silent text) : Untyped text :=
  ⟨_, h.2, fun rest _ ↦ h.tokens_append rest⟩

/-- A fixed text may come before any other. -/
theorem Silent.append {text more : String} (h : Silent text) (hmore : Untyped more) :
    Untyped (text ++ more) := by
  obtain ⟨found, hnot, hfound⟩ := hmore
  refine ⟨(Partial.none.run text.toList).1 ++ found, by simp [h.2, hnot], fun rest hrest ↦ ?_⟩
  rw [String.toList_append, List.append_assoc, h.tokens_append, hfound rest hrest,
    List.append_assoc]

theorem Separates.startsWord_append {text : String} (h : Separates text) (rest : List Char) :
    startsWord (text.toList ++ rest) = false := by
  have hhead := h.2
  cases hcs : text.toList with
  | nil =>
    rw [hcs] at hhead
    cases hhead
  | cons c cs =>
    rw [hcs] at hhead
    exact Bool.not_eq_true' _ ▸ hhead

/-- Texts are put together with a fixed text between them that is no part of a word. -/
theorem Untyped.append {text fixed : String} (h : Untyped text) (hfixed : Separates fixed)
    {more : String} (hmore : Untyped more) : Untyped (text ++ fixed ++ more) := by
  obtain ⟨found, hnot, hfound⟩ := h
  obtain ⟨others, hothers, hothersTokens⟩ := hfixed.1.append hmore
  refine ⟨found ++ others, by simp [hnot, hothers], fun rest hrest ↦ ?_⟩
  have htokens := hothersTokens rest hrest
  rw [String.toList_append, List.append_assoc] at htokens
  rw [String.toList_append, String.toList_append, List.append_assoc, List.append_assoc,
    hfound _ (hfixed.startsWord_append _), htokens, List.append_assoc]

theorem Untyped.append_fixed {text fixed : String} (h : Untyped text) (hfixed : Separates fixed) :
    Untyped (text ++ fixed) := by
  have hempty : Silent "" := by decide
  have happend := h.append hfixed hempty.untyped
  rwa [String.append_empty] at happend

/-- The word `as` is reserved, so it is no identifier. -/
theorem untyped_identifier {name : String} (h : isIdentifier name = true) : Untyped name := by
  have hne : name ≠ "as" := by
    rintro rfl
    exact absurd h (by decide)
  exact ⟨[.word name], by simpa using hne.symm, fun rest hrest ↦
    tokens_word (Bool.and_eq_true_iff.1 h).1 hrest⟩

theorem untyped_quotedKey (key : String) : Untyped (quotedKey key) :=
  ⟨[.quoted key], by simp, fun _ hrest ↦ (spells_quotedKey key).tokens hrest⟩

/-- A string literal is one token, which is no word. -/
theorem untyped_stringLiteral (text : String) : Untyped (stringLiteral text) :=
  ⟨[.quoted text], by simp, fun rest _ ↦ tokens_stringLiteral text rest⟩

theorem untyped_propertyKey (key : String) : Untyped (propertyKey key) := by
  rw [propertyKey]
  split
  · rename_i hkey
    exact untyped_identifier hkey
  · exact untyped_quotedKey key

/-- A property of the arguments has its name after a dot or as a string literal. -/
theorem untyped_argument (key : String) : Untyped ("args" ++ propertyAccess key) := by
  have hargs : Untyped "args" := untyped_identifier (by decide)
  have hdot : Separates "." := by decide
  have hopen : Separates "[" := by decide
  have hclose : Separates "]" := by decide
  rw [propertyAccess]
  split
  · rename_i hkey
    rw [← String.append_assoc]
    exact hargs.append hdot (untyped_identifier hkey)
  · rw [← String.append_assoc, ← String.append_assoc]
    exact (hargs.append hopen (untyped_quotedKey key)).append_fixed hclose

mutual

/-- A shape is an object literal, with names of members as keys. -/
theorem ResultShape.untyped_text (shape : ResultShape) : Untyped shape.text := by
  have hclose : Separates " \x7d" := by decide
  have hcloseBoth : Separates " \x7d \x7d" := by decide
  cases shape with
  | bytes =>
    have hbytes : Silent "'bytes'" := by decide
    exact hbytes.untyped
  | list items =>
    have hopen : Silent "\x7b list: " := by decide
    show Untyped ("\x7b list: " ++ items.text ++ " \x7d")
    exact (hopen.append items.untyped_text).append_fixed hclose
  | map values =>
    have hopen : Silent "\x7b map: " := by decide
    show Untyped ("\x7b map: " ++ values.text ++ " \x7d")
    exact (hopen.append values.untyped_text).append_fixed hclose
  | record members =>
    have hopen : Silent "\x7b record: \x7b " := by decide
    show Untyped ("\x7b record: \x7b " ++ ", ".intercalate (ResultShape.memberTexts members) ++
      " \x7d \x7d")
    exact (hopen.append (untyped_shapeMemberTexts members)).append_fixed hcloseBoth
  | variant members =>
    have hopen : Silent "\x7b variant: \x7b " := by decide
    show Untyped ("\x7b variant: \x7b " ++ ", ".intercalate (ResultShape.memberTexts members) ++
      " \x7d \x7d")
    exact (hopen.append (untyped_shapeMemberTexts members)).append_fixed hcloseBoth

theorem untyped_shapeMemberTexts (members : List (String × ResultShape)) :
    Untyped (", ".intercalate (ResultShape.memberTexts members)) := by
  have hcolon : Separates ": " := by decide
  have hcomma : Separates ", " := by decide
  match members with
  | [] =>
    have hempty : Silent "" := by decide
    rw [ResultShape.memberTexts]
    exact hempty.untyped
  | (key, shape) :: members =>
    have hmember := (untyped_propertyKey key).append hcolon shape.untyped_text
    match members with
    | [] =>
      rw [ResultShape.memberTexts, ResultShape.memberTexts, String.intercalate_singleton]
      exact hmember
    | (otherKey, other) :: members =>
      have hothers := untyped_shapeMemberTexts ((otherKey, other) :: members)
      rw [ResultShape.memberTexts] at hothers
      rw [ResultShape.memberTexts, ResultShape.memberTexts, String.intercalate_cons_cons]
      exact hmember.append hcomma hothers

end

/-! ### Lines of a class -/

/-- The line starts with a word, and not as a member of a class. -/
def Ordinary (line : List Char) : Prop :=
  line.head?.any isIdentifierStart = true ∧ "public".toList.isPrefixOf line = false

instance (line : List Char) : Decidable (Ordinary line) := inferInstanceAs (Decidable (_ ∧ _))

theorem Ordinary.exists_cons {line : List Char} (h : Ordinary line) :
    ∃ c cs, line = c :: cs ∧ isIdentifierStart c = true := by
  cases line with
  | nil => cases h.1
  | cons c cs => exact ⟨c, cs, rfl, h.1⟩

theorem Ordinary.shown {line : List Char} (h : Ordinary line) : Shown line := by
  obtain ⟨c, cs, rfl, hc⟩ := h.exists_cons
  exact shown_of_startsWord (isIdentifierChar_of_isIdentifierStart hc)

/-- A line that does not begin with `public` does not have it for its first token. -/
theorem Ordinary.head?_tokens {line : List Char} (h : Ordinary line) :
    (tokens line).head? ≠ some (.word "public") := by
  obtain ⟨c, cs, rfl, hc⟩ := h.exists_cons
  rw [TypeScript.head?_tokens hc]
  intro heq
  have hword := Token.word.inj (Option.some.inj heq)
  rw [← String.toList_inj, String.toList_ofList] at hword
  have hstart : "public".toList <+: c :: cs :=
    hword ▸ List.cons_prefix_cons.2 ⟨rfl, List.takeWhile_prefix _⟩
  exact absurd (List.isPrefixOf_iff_prefix.2 hstart) (by rw [h.2]; decide)

/-- In a line with no `as` that opens no member, there is no type. -/
theorem classLineNames_untyped {text : String} (h : Untyped text) (hline : Ordinary text.toList) :
    classLineNames (tokens text.toList) = [] := by
  obtain ⟨found, hnot, hfound⟩ := h
  have htokens : tokens text.toList = found := by
    have htokens := hfound [] rfl
    rwa [List.append_nil, show tokens [] = [] from rfl, List.append_nil] at htokens
  exact classLineNames_eq_nil hline.head?_tokens (htokens ▸ hnot)

theorem namesSeen_untyped {text : String} (hone : OneLine text) (h : Untyped text)
    (hline : Ordinary text.toList) (depth : Nat) :
    namesSeen classLineNames depth (.line text) = [] := by
  rw [namesSeen_line hone hline.shown, classLineNames_untyped h hline]

/-- A block in a class whose first line gives no value a type. -/
theorem namesSeen_untyped_block {opening text : String} {body : List Node}
    (hblock : (Node.block opening body "\x7d").Closed) (hone : OneLine opening)
    (h : Untyped opening) (hline : Ordinary opening.toList) (hbody : .line text ∈ body)
    (depth : Nat) :
    namesSeen classLineNames depth (.block opening body "\x7d") =
      body.flatMap (namesSeen classLineNames (depth + 1)) := by
  have hclosing : classLineNames (tokens "\x7d".toList) = [] := rfl
  rw [namesSeen_block hblock hone (by decide) hline.shown rfl (tidy_ne_nil_of_mem_line hbody),
    classLineNames_untyped h hline, hclosing, List.append_nil, List.nil_append]

/-- A line in a class that gives a value a type, after `as`. -/
theorem namesSeen_typed {start type : String} (hone : OneLine (start ++ " as " ++ type ++ ";"))
    (h : Untyped start) (hline : Ordinary (start ++ " as " ++ type ++ ";").toList) (depth : Nat) :
    namesSeen classLineNames depth (.line (start ++ " as " ++ type ++ ";")) =
      usedNames (tokens (type.toList ++ ";".toList)) := by
  obtain ⟨found, hnot, hfound⟩ := h
  have htext : (start ++ " as " ++ type ++ ";").toList =
      start.toList ++ (" as ".toList ++ (type.toList ++ ";".toList)) := by
    simp only [String.toList_append, List.append_assoc]
  have htokens : tokens (start ++ " as " ++ type ++ ";").toList =
      found ++ .word "as" :: tokens (type.toList ++ ";".toList) := by
    rw [htext, hfound _ rfl, tokens_fixed " as " [.word "as"] rfl]
    rfl
  have hhead := hline.head?_tokens
  rw [namesSeen_line hone hline.shown]
  rw [htokens] at hhead ⊢
  exact classLineNames_as hhead hnot

/-! ### Members -/

namespace Wrapper

/-- The names in the member are words. -/
structure InWords (wrapper : Wrapper) : Prop where
  name : isWord wrapper.name.toList = true
  params : ∀ member ∈ wrapper.params, Client.InWords member.type
  results : ∀ type ∈ wrapper.results, Client.InWords type
  errorTypes : ∀ type ∈ wrapper.errorTypes, Client.InWords type

theorem namesSeen_variantNode (param : String) (depth : Nat) :
    namesSeen classLineNames depth (variantNode param) = [] := by
  have hclosed := closed_variantNode param
  have hone : OneLine ("args" ++ propertyAccess param) :=
    oneLine_append_iff.2 ⟨by decide, oneLine_propertyAccess param⟩
  have hvalue := untyped_argument param
  have hline : ∃ rest, ("args" ++ propertyAccess param).toList = 'a' :: rest := by
    rw [String.toList_append]
    exact ⟨_, rfl⟩
  -- the value is written many times; all that matters is how it starts and that it has no `as`
  unfold variantNode at hclosed ⊢
  dsimp only at hclosed ⊢
  generalize "args" ++ propertyAccess param = value at *
  obtain ⟨rest, hrest⟩ := hline
  have hif : Silent "if (" := by decide
  have htypeof : Separates " && typeof " := by decide
  have hobject : Separates " === 'object' && 'name' in " := by decide
  have hopen : Separates ") \x7b" := by decide
  have hin : Separates " = 'payload' in " := by decide
  have hthen : Separates " ? \x7b [" := by decide
  have hname : Separates ".name]: " := by decide
  have helse : Separates ".payload \x7d : " := by decide
  have hend : Separates ".name;" := by decide
  rw [namesSeen_untyped_block hclosed ?_ ?_ ?_ List.mem_cons_self, List.flatMap_singleton,
    namesSeen_untyped ?_ ?_ ?_]
  · simp only [oneLine_append_iff, hone, and_true]
    decide
  · exact ((((hvalue.append hin hvalue).append hthen hvalue).append hname hvalue).append helse
      hvalue).append_fixed hend
  · simp only [String.toList_append, List.append_assoc, hrest]
    exact ⟨rfl, rfl⟩
  · simp only [oneLine_append_iff, hone, and_true]
    decide
  · exact (((hif.append hvalue).append htypeof hvalue).append hobject hvalue).append_fixed hopen
  · simp only [String.toList_append, List.append_assoc]
    exact ⟨rfl, rfl⟩

/-- The statements before the call have no types but `any`. -/
theorem namesSeen_argumentNodes (wrapper : Wrapper) (depth : Nat) :
    wrapper.argumentNodes.flatMap (namesSeen classLineNames depth) = [] := by
  rw [argumentNodes]
  split
  · rfl
  · have hcopy : namesSeen classLineNames depth (.line "const args = \x7b ...params \x7d as any;") =
        [] := by
      rw [namesSeen_line (by decide) (shown_of_startsWord rfl)]
      rfl
    rw [List.flatMap_cons, hcopy, List.nil_append, List.flatMap_eq_nil_iff, List.forall_mem_map]
    exact fun param _ ↦ namesSeen_variantNode param depth

theorem untyped_arguments (wrapper : Wrapper) : Untyped wrapper.arguments := by
  have hempty : Silent "\x7b\x7d" := by decide
  have hclose : Separates ")" := by decide
  have hopen : Separates "(" := by decide
  have hconvert : Untyped Runtime.toWire := untyped_identifier (by decide)
  have hargs : Untyped (if wrapper.variantParams.isEmpty then "params" else "args") := by
    split
    · exact untyped_identifier (by decide)
    · exact untyped_identifier (by decide)
  unfold arguments
  split
  · exact hempty.untyped
  · dsimp only
    split
    · exact (hconvert.append hopen hargs).append_fixed hclose
    · exact hargs

/-- The call has no types. -/
theorem namesSeen_callLine (wrapper : Wrapper) (depth : Nat) :
    namesSeen classLineNames depth (.line wrapper.callLine) = [] := by
  have hcall : Silent "const response = await this.app.execute(this.context, " := by decide
  have hcomma : Separates ", " := by decide
  have hclose : Separates ");" := by decide
  refine namesSeen_untyped wrapper.oneLine_callLine ?_ ?_ depth
  · exact ((hcall.append (untyped_stringLiteral wrapper.method)).append hcomma
      wrapper.untyped_arguments).append_fixed hclose
  · unfold callLine
    simp only [String.toList_append, List.append_assoc]
    exact ⟨rfl, rfl⟩

section InWords

variable {wrapper : Wrapper} (h : wrapper.InWords)
include h

/-- The type of a result is seen with its names, and without null. -/
theorem InWords.usedNames_resultType {rest : List Char} (hrest : startsWord rest = false)
    (hends : Ends (tokens rest)) :
    usedNames (tokens (wrapper.resultType.toList ++ rest)) =
      wrapper.results.flatMap TypeExpr.used ++ usedNames (tokens rest) := by
  have hresults := h.results
  rw [resultType]
  rw [Wrapper.results] at hresults ⊢
  split
  · rename_i result hresult
    rw [hresult] at hresults ⊢
    obtain ⟨found, htype, htext⟩ := TypeExpr.exists_isType_text
      (hresults result.type List.mem_cons_self)
    rw [(htext.orNull result.nullable).tokens hrest, List.append_assoc,
      htype.usedNames_append (ends_nullTokens _ hends), usedNames_nullTokens]
    simp
  · rename_i hnone
    rw [hnone, tokens_word (by decide) hrest, usedNames_builtin (by decide)]
    rfl

/-- The parameters are seen with their types, in brackets. -/
theorem InWords.usedNames_params (rest : List Char) :
    usedNames (tokens ((if wrapper.params.isEmpty then "" else
        "params: \x7b " ++ "; ".intercalate (TypeExpr.memberTexts wrapper.params) ++
          " \x7d").toList ++ ("): Promise<".toList ++ rest))) =
      (wrapper.params.map Member.type).flatMap TypeExpr.used ++ usedNames (tokens rest) := by
  have hafter : tokens ("): Promise<".toList ++ rest) =
      [.mark ')', .mark ':', .word "Promise", .mark '<'] ++ tokens rest :=
    tokens_fixed _ [.mark ')', .mark ':', .word "Promise", .mark '<'] rfl rest
  have hnames : usedNames (tokens ("): Promise<".toList ++ rest)) = usedNames (tokens rest) := by
    have hpromise : "Promise" ∈ genericTypes := by decide
    rw [hafter]
    exact usedNames_generic hpromise (tokens rest)
  by_cases hempty : wrapper.params = []
  · rw [if_pos (List.isEmpty_iff.2 hempty), tokens_fixed "" [] rfl, List.nil_append, hnames, hempty]
    rfl
  · have hwords : ∀ name ∈ TypeExpr.memberNames wrapper.params, isWord name.toList = true := by
      intro name hname
      obtain ⟨member, hmember, hname⟩ := TypeExpr.mem_memberNames_iff.1 hname
      exact h.params member hmember name hname
    obtain ⟨found, hmembers, hspells⟩ := TypeExpr.exists_areMembers_text hwords hempty
    rw [if_neg (by simpa using hempty)]
    simp only [String.toList_append, List.append_assoc]
    rw [tokens_fixed "params: \x7b " [.word "params", .mark ':', .mark '\x7b'] rfl,
      hspells.tokens rfl, tokens_fixed " \x7d" [.mark '\x7d'] rfl]
    simp only [List.cons_append, List.nil_append]
    rw [usedNames_key rfl, usedNames,
      hmembers.usedNames_append (ends_mark (by decide) (by decide) _),
      usedNames, hnames, used_types_members]

/-- The first line of a member is seen with the types of its parameters and of its result. -/
theorem InWords.classLineNames_signature :
    classLineNames (tokens wrapper.signature.toList) =
      (wrapper.params.map Member.type).flatMap TypeExpr.used ++
        wrapper.results.flatMap TypeExpr.used := by
  have hclose : tokens "> \x7b".toList = [.mark '>', .mark '\x7b'] := by decide
  have hends : Ends (tokens "> \x7b".toList) := hclose ▸ ends_mark (by decide) (by decide) _
  have hresult := h.usedNames_resultType rfl hends
  have hparams := h.usedNames_params (wrapper.resultType.toList ++ "> \x7b".toList)
  unfold signature
  dsimp only
  generalize (if wrapper.params.isEmpty then "" else "params: \x7b " ++
    "; ".intercalate (TypeExpr.memberTexts wrapper.params) ++ " \x7d") = params at hparams ⊢
  simp only [String.toList_append, List.append_assoc]
  rw [tokens_fixed "public async " [.word "public", .word "async"] rfl, tokens_word h.name rfl,
    tokens_fixed "(" [.mark '('] rfl]
  show usedNames (tokens (params.toList ++ ("): Promise<".toList ++
    (wrapper.resultType.toList ++ "> \x7b".toList)))) = _
  rw [hparams, hresult, hclose, usedNames, usedNames, usedNames, List.append_nil]

/-- The line that returns a result has its type once more. -/
theorem InWords.namesSeen_returnLine (hlines : wrapper.SingleLine) (depth : Nat) :
    namesSeen classLineNames depth (.line wrapper.returnLine) =
      wrapper.results.flatMap TypeExpr.used := by
  have htype := hlines.oneLine_resultType
  have hend : tokens ";".toList = [.mark ';'] := by decide
  have hends : Ends (tokens ";".toList) := hend ▸ ends_mark (by decide) (by decide) _
  have hnames := h.usedNames_resultType rfl hends
  rw [hend, usedNames, usedNames, List.append_nil] at hnames
  rw [← hnames]
  unfold returnLine
  split
  · rename_i hnone
    rw [resultType, hnone, namesSeen_line (by decide) (shown_of_startsWord rfl)]
    rfl
  · split
    · rename_i shape _
      have hshape := shape.oneLine_text
      have hreturn : Silent "return " := by decide
      have hconvert : Untyped Runtime.fromWire := untyped_identifier (by decide)
      have hopen : Separates "(response.result, " := by decide
      have hclose : Separates ")" := by decide
      have hstart := ((hreturn.append hconvert).append hopen shape.untyped_text).append_fixed hclose
      -- the `as` belongs to a fixed text, and has to stand in one of its own
      have htext : "return " ++ Runtime.fromWire ++ "(response.result, " ++ shape.text ++ ") as " ++
          wrapper.resultType ++ ";" = "return " ++ Runtime.fromWire ++ "(response.result, " ++
          shape.text ++ ")" ++ " as " ++ wrapper.resultType ++ ";" := by
        simp only [String.append_assoc]
        rfl
      rw [htext]
      refine namesSeen_typed ?_ hstart ?_ depth
      · simp only [oneLine_append_iff, htype, hshape, and_true]
        decide
      · simp only [String.toList_append, List.append_assoc]
        exact ⟨rfl, rfl⟩
    · have htext : "return response.result as " = "return response." ++ "result" ++ " as " := rfl
      have hreturn : Silent "return response." := by decide
      have hresult : Untyped "result" := untyped_identifier (by decide)
      rw [htext]
      refine namesSeen_typed ?_ (hreturn.append hresult) ?_ depth
      · simp only [oneLine_append_iff, htype, and_true]
        decide
      · simp only [String.toList_append, List.append_assoc]
        exact ⟨rfl, rfl⟩

/-- What is thrown is marked with the type of the errors of the method. -/
theorem InWords.namesSeen_throwNodes (hneutral : wrapper.Neutral) (hlines : wrapper.SingleLine)
    (depth : Nat) :
    wrapper.throwNodes.flatMap (namesSeen classLineNames depth) =
      wrapper.errorTypes.flatMap TypeExpr.used := by
  have hclosed := hneutral.closed_throwNodes
  have hwords := h.errorTypes
  rw [throwNodes] at hclosed ⊢
  rw [Wrapper.errorTypes] at hwords ⊢
  split at hclosed
  · rename_i type htype
    rw [htype] at hwords ⊢
    have hword : isWord type.toList = true :=
      hwords (.name type) List.mem_cons_self type List.mem_cons_self
    have htext : "throw response.error as " = "throw response." ++ "error" ++ " as " := rfl
    have hthrow : Silent "throw response." := by decide
    have herror : Untyped "error" := untyped_identifier (by decide)
    have hopening :
        Silent "if (response.error && typeof response.error === 'object') \x7b" := by decide
    have hone : OneLine ("throw response." ++ "error" ++ " as " ++ type ++ ";") := by
      simp only [oneLine_append_iff, hlines.errorType type htype, and_true]
      decide
    have hline : Ordinary ("throw response." ++ "error" ++ " as " ++ type ++ ";").toList := by
      simp only [String.toList_append, List.append_assoc]
      exact ⟨rfl, rfl⟩
    rw [List.flatMap_singleton,
      namesSeen_untyped_block (List.forall_mem_singleton.1 hclosed) (by decide)
      hopening.untyped ⟨rfl, rfl⟩ List.mem_cons_self, List.flatMap_singleton, htext,
      namesSeen_typed hone (hthrow.append herror) hline, tokens_word hword rfl]
    exact usedNames_name type (ends_mark (by decide) (by decide) _)
  · rename_i hnone
    rw [hnone]
    rfl

/-- A member is seen with its types. -/
theorem InWords.namesSeen_nodes (hneutral : wrapper.Neutral) (hlines : wrapper.SingleLine)
    (depth : Nat) :
    wrapper.nodes.flatMap (namesSeen classLineNames depth) =
      wrapper.types.flatMap TypeExpr.used := by
  have hblock : (Node.block wrapper.signature wrapper.bodyNodes "\x7d").Closed :=
    hneutral.closed_nodes _ (by rw [nodes_eq]; exact List.mem_cons_of_mem _ List.mem_cons_self)
  have hcall : .line wrapper.callLine ∈ wrapper.bodyNodes := by simp [bodyNodes]
  have hword : startsWord wrapper.signature.toList = true := by
    unfold signature
    simp only [String.toList_append, List.append_assoc]
    rfl
  have hclosing : classLineNames (tokens "\x7d".toList) = [] := rfl
  have hreturn : namesSeen classLineNames (depth + 1)
      (.block "if (response.success) \x7b" [.line wrapper.returnLine] "\x7d") =
        wrapper.results.flatMap TypeExpr.used := by
    have hopening : Silent "if (response.success) \x7b" := by decide
    have hclosed :
        (Node.block "if (response.success) \x7b" [.line wrapper.returnLine] "\x7d").Closed :=
      .block (.fixed rfl) (List.forall_mem_singleton.2 (.line hneutral.neutral_returnLine))
        (.fixed rfl)
    rw [namesSeen_untyped_block hclosed (by decide) hopening.untyped ⟨rfl, rfl⟩
      List.mem_cons_self, List.flatMap_singleton, h.namesSeen_returnLine hlines]
  have hthrow : namesSeen classLineNames (depth + 1)
      (.line "throw new Error(response.error || 'Execution failed');") = [] := by
    have hline : Silent "throw new Error(response.error || 'Execution failed');" := by decide
    exact namesSeen_untyped (by decide) hline.untyped ⟨rfl, rfl⟩ _
  rw [nodes_eq, List.flatMap_cons, List.flatMap_singleton, namesSeen_doc, List.nil_append,
    namesSeen_block hblock hlines.oneLine_signature (by decide) (shown_of_startsWord hword) rfl
      (tidy_ne_nil_of_mem_line hcall), h.classLineNames_signature, hclosing, bodyNodes]
  simp only [List.flatMap_append, List.flatMap_singleton, namesSeen_argumentNodes,
    namesSeen_callLine,
    hreturn, hthrow, h.namesSeen_throwNodes hneutral hlines, types, List.append_nil,
    List.nil_append, List.append_assoc]

end InWords

end Wrapper

/-! ### Names in the texts -/

theorem contributes_generated :
    Contributes (Layout.generated.flatMap (readNode lookAtTokens 0)) [] := by
  have hbanner : readNode lookAtTokens 0 (.line Layout.banner) = [] := by
    rw [readNode_line (by decide)]
    exact lookAtTokens_eq_nil (by decide) _
  rw [Layout.generated, List.flatMap_cons, List.flatMap_singleton, hbanner, readNode_blank]
  exact contributes_nil

/-- The line that takes the class of byte sequences from the client has no types. -/
theorem contributes_importType (config : Config) :
    Contributes (readNode lookAtTokens 0
      (.line ("import type \x7b " ++ bytesName ++ " \x7d from " ++
      stringLiteral config.clientModule ++ ";"))) [] := by
  have hone : OneLine ("import type \x7b " ++ bytesName ++ " \x7d from " ++
      stringLiteral config.clientModule ++ ";") := by
    simp only [oneLine_append_iff, oneLine_stringLiteral, and_true]
    decide
  have hline := contributes_line hone (by simp only [String.toList_append, List.append_assoc]; rfl)
  simp only [String.toList_append, List.append_assoc] at hline
  rw [tokens_fixed "import type \x7b " [.word "import", .word "type", .mark '\x7b'] rfl] at hline
  exact hline

/-- Nothing is seen of a statement that is not read. -/
theorem namesSeen_nothing (depth : Nat) (node : Node) : namesSeen (fun _ ↦ []) depth node = [] :=
  List.flatMap_eq_nil_iff.2 fun _ _ ↦ rfl

/-- The names that a client takes from elsewhere are not in type positions. -/
theorem contributes_import {path : String} (hclosed : (Node.block "import \x7b"
    (Runtime.imports.map fun name ↦ .line (name ++ ",")) ("\x7d from " ++ path ++ ";")).Closed)
    (hone : OneLine path) :
    Contributes (readNode lookAtTokens 0 (.block "import \x7b"
      (Runtime.imports.map fun name ↦ .line (name ++ ",")) ("\x7d from " ++ path ++ ";"))) [] := by
  have hclose : OneLine ("\x7d from " ++ path ++ ";") := by
    simp only [oneLine_append_iff, hone, and_true]
    decide
  have hshown : Shown ("\x7d from " ++ path ++ ";").toList := by
    simp only [String.toList_append, List.append_assoc]
    rfl
  have hbody := contributes_body hclosed (by decide) hclose rfl hshown
    (fun _ ↦ ⟨"CalimeroApp,", List.mem_cons_self⟩)
    (fun rest ↦ tokens_fixed "import \x7b" [.word "import", .mark '\x7b'] rfl rest) rfl rfl rfl
  have hnames : (Runtime.imports.map fun name ↦ Node.line (name ++ ",")).flatMap
      (namesSeen (namesBelow [.word "import", .mark '\x7b']) 1) = [] :=
    List.flatMap_eq_nil_iff.2 fun node _ ↦ namesSeen_nothing 1 node
  rwa [hnames] at hbody

/-- The lines of a text of several lines that have code. -/
def snippetTokenLines (cs : List Char) : List TokenLine :=
  readFrom lookAtTokens ⟨.code, []⟩ (snippetRows cs)

/-- A fixed text that begins at the top has the names that are read off its lines; here, none. -/
theorem contributes_snippet {cs : List Char}
    (h : ((snippetTokenLines cs).head?.any (·.top) &&
      (typeNamesFrom (fun _ ↦ []) (snippetTokenLines cs)).isEmpty) = true) :
    Contributes (readNode lookAtTokens 0 (.snippet (String.ofList cs))) [] := by
  obtain ⟨htop, hempty⟩ := Bool.and_eq_true_iff.1 h
  have hcontributes := contributes_of_top htop
  rw [List.isEmpty_iff.1 hempty] at hcontributes
  rw [readNode_snippet]
  exact hcontributes

set_option maxRecDepth 20000 in
theorem contributes_bytesClass :
    Contributes (readNode lookAtTokens 0 (.snippet Runtime.bytesClass)) [] :=
  contributes_snippet (by decide +kernel)

set_option maxRecDepth 20000 in
theorem contributes_converters :
    Contributes (readNode lookAtTokens 0 (.snippet Runtime.converters)) [] :=
  contributes_snippet (by decide +kernel)

/-- The class of a client is seen with the types of its members. -/
theorem contributes_classNode {config : Config} (hname : isWord config.clientName.toList = true)
    {all : List Wrapper} (hneutral : ∀ wrapper ∈ all, wrapper.Neutral)
    (hlines : ∀ wrapper ∈ all, wrapper.SingleLine) (hwords : ∀ wrapper ∈ all, wrapper.InWords) :
    Contributes (readNode lookAtTokens 0 (classNode config all))
      ((all.flatMap Wrapper.types).flatMap TypeExpr.used) := by
  have hclosed := closed_classNode (isName_of_isWord hname) hneutral
  have htokens := tokens_statement "export class " " \x7b" "class" [.mark '\x7b'] rfl rfl rfl hname
  have hmembers : (all.flatMap fun wrapper ↦ .blank :: wrapper.nodes).flatMap
      (namesSeen classLineNames 1) = (all.flatMap Wrapper.types).flatMap TypeExpr.used := by
    rw [List.flatMap_assoc, List.flatMap_assoc]
    refine List.flatMap_congr fun wrapper hwrapper ↦ ?_
    rw [List.flatMap_cons, namesSeen_blank, List.nil_append,
      (hwords wrapper hwrapper).namesSeen_nodes (hneutral wrapper hwrapper)
      (hlines wrapper hwrapper)]
  unfold classNode at hclosed ⊢
  have hconstructor : (Node.block "constructor(app: CalimeroApp, context: Context) \x7b"
      [.line "this.app = app;", .line "this.context = context;"] "\x7d").Closed := by
    cases hclosed with
    | block _ hbody _ => exact hbody _ (by simp)
  -- the lines that every class starts with give no value a type
  have hfixed : [Node.line "private app: CalimeroApp;", .line "private context: Context;", .blank,
      .block "constructor(app: CalimeroApp, context: Context) \x7b"
        [.line "this.app = app;", .line "this.context = context;"] "\x7d"].flatMap
          (namesSeen classLineNames 1) = [] := by
    have happ : Silent "private app: CalimeroApp;" := by decide
    have hcontext : Silent "private context: Context;" := by decide
    have hopening : Silent "constructor(app: CalimeroApp, context: Context) \x7b" := by decide
    have hsetApp : Silent "this.app = app;" := by decide
    have hsetContext : Silent "this.context = context;" := by decide
    rw [List.flatMap_cons, List.flatMap_cons, List.flatMap_cons, List.flatMap_singleton,
      namesSeen_untyped (by decide) happ.untyped (by decide),
      namesSeen_untyped (by decide) hcontext.untyped (by decide), namesSeen_blank,
      namesSeen_untyped_block hconstructor (by decide) hopening.untyped (by decide)
      List.mem_cons_self, List.flatMap_cons, List.flatMap_singleton,
      namesSeen_untyped (by decide) hsetApp.untyped (by decide),
      namesSeen_untyped (by decide) hsetContext.untyped (by decide)]
    rfl
  have hbody := contributes_body hclosed
    (oneLine_statement startsWith_class (isName_of_isWord hname)
    (by decide)) (by decide) (startsWord_statement startsWith_class) (by decide)
    (fun _ ↦ ⟨_, List.mem_append_left _ List.mem_cons_self⟩) htokens rfl rfl rfl
  have hread : namesBelow [.word "export", .word "class", .word config.clientName, .mark '\x7b'] =
      classLineNames := rfl
  rwa [hread, List.flatMap_append, hfixed, hmembers, List.nil_append] at hbody

/-- Declarations are seen with the names in their types, one after the other. -/
theorem contributes_declarations {declared : List Declaration}
    (h : ∀ declaration ∈ declared, Contributes (declaration.nodes.flatMap (readNode lookAtTokens 0))
      (declaration.types.flatMap TypeExpr.used)) :
    Contributes ((declared.flatMap Declaration.nodes).flatMap (readNode lookAtTokens 0))
      ((declared.flatMap Declaration.types).flatMap TypeExpr.used) := by
  rw [List.flatMap_assoc, List.flatMap_assoc]
  exact contributes_flatMap h

/-- The names in type positions of the text with the declarations are those in the types of
these. -/
theorem typeNames_typesNodes (config : Config) {declarations : List Node}
    (hclosed : ∀ node ∈ declarations, node.Closed) {names : List String}
    (h : Contributes (declarations.flatMap (readNode lookAtTokens 0)) names) :
    typeNames (Layout.render (typesNodes config declarations)) = names := by
  refine typeNames_of_contributes ?_
  rw [tokenLines_render (closed_typesNodes config hclosed), typesNodes, List.flatMap_append,
    List.flatMap_append, List.flatMap_cons, List.flatMap_singleton, readNode_blank, List.append_nil]
  exact (contributes_generated.append (contributes_importType config)).append h

/-- The text with the client class has those in the types of its members as well. -/
theorem typeNames_clientNodes {config : Config} (hname : isWord config.clientName.toList = true)
    {declarations : List Node} (hclosed : ∀ node ∈ declarations, node.Closed) {names : List String}
    (h : Contributes (declarations.flatMap (readNode lookAtTokens 0)) names) {all : List Wrapper}
    (hneutral : ∀ wrapper ∈ all, wrapper.Neutral) (hlines : ∀ wrapper ∈ all, wrapper.SingleLine)
    (hwords : ∀ wrapper ∈ all, wrapper.InWords) :
    typeNames (Layout.render (clientNodes config declarations all)) =
      names ++ (all.flatMap Wrapper.types).flatMap TypeExpr.used := by
  have hall := closed_clientNodes (isName_of_isWord hname) hclosed hneutral
  have himport := contributes_import (hall _ (by simp [clientNodes]))
    (oneLine_stringLiteral config.importPath)
  have hblank := contributes_blank 0
  have hcomment : Contributes (readNode lookAtTokens 0 (.line "// Generated types")) [] := by
    rw [readNode_line (by decide), lookAtTokens_eq_nil (by decide)]
    exact contributes_nil
  have hclass : Contributes ([classNode config all].flatMap (readNode lookAtTokens 0))
      ((all.flatMap Wrapper.types).flatMap TypeExpr.used) := by
    rw [List.flatMap_singleton]
    exact contributes_classNode hname hneutral hlines hwords
  have hnone : Contributes (([] : List Node).flatMap (readNode lookAtTokens 0)) [] :=
    contributes_nil
  have hstart := contributes_generated.append (contributes_cons himport
    (contributes_cons hblank (contributes_cons hcomment (contributes_cons hblank hnone))))
  have hend := contributes_cons hblank
    (contributes_cons contributes_bytesClass (contributes_cons hblank
    (contributes_cons contributes_converters (contributes_cons hblank hclass))))
  refine typeNames_of_contributes ?_
  rw [tokenLines_render hall, clientNodes, List.flatMap_append, List.flatMap_append,
    List.flatMap_append]
  exact (hstart.append h).append hend

/-! ### Names that are known -/

/-- A name that is known is a word, if all that is exported has an identifier for its name. -/
theorem Known.isWord {exported : List Export}
    (hexported : ∀ statement ∈ exported, isIdentifier statement.name = true) {name : String}
    (h : Known exported name) : isWord name.toList = true := by
  obtain hkeyword | rfl | ⟨keyword, -, hmem⟩ := h
  · have hall : ∀ name ∈ keywordTypes, TypeScript.isWord name.toList = true := by decide
    exact hall name hkeyword
  · decide
  · exact (Bool.and_eq_true_iff.1 (hexported _ hmem)).1

/-- A member whose types are known is written in words. -/
theorem Wrapper.inWords_of_resolved {exported : List Export}
    (hexported : ∀ statement ∈ exported, isIdentifier statement.name = true) {wrapper : Wrapper}
    (hname : isIdentifier wrapper.name = true)
    (h : ∀ type ∈ wrapper.types, Resolved exported type) : wrapper.InWords := by
  have hwords : ∀ type ∈ wrapper.types, Client.InWords type := fun type htype name hmem ↦
    (h type htype name hmem).isWord hexported
  simp only [Wrapper.types, List.forall_mem_append, List.forall_mem_map] at hwords
  exact ⟨(Bool.and_eq_true_iff.1 hname).1, hwords.1.1.1, hwords.1.1.2, hwords.2⟩

/-- The names used in types are those in them that are not built in. -/
theorem mem_used_iff {types : List TypeExpr} {name : String} :
    name ∈ types.flatMap TypeExpr.used ↔
      (∃ type ∈ types, name ∈ type.names) ∧ name ∉ builtinTypes := by
  simp only [List.mem_flatMap, TypeExpr.used, List.mem_filter, decide_eq_true_eq]
  exact ⟨fun ⟨type, htype, hname, hnot⟩ ↦ ⟨⟨type, htype, hname⟩, hnot⟩,
    fun ⟨⟨type, htype, hname⟩, hnot⟩ ↦ ⟨type, htype, hname, hnot⟩⟩

/-- For a manifest that was obtained, and settings made from whatever texts the client class and the
module of the runtime are named by, both texts are generated. The names that are read in the type
positions of the texts are those in the types of the declarations, followed in the client by those
in the types of its members. Each of them is the class of byte sequences, or exported exactly once
by the same text, and that as a type. -/
theorem type_names_declared {manifest : Manifest} (h : manifest.Obtained)
    (className importPath : String) (config : Config)
    (hconfig : config = { Config.named className with importPath }) :
    ∃ declarations all types client,
      Declarations.of (scopeOf manifest config) = .ok declarations ∧
      wrappers (scopeOf manifest config) declarations.errorNames = .ok all ∧
      generate manifest config = .ok ⟨types, client⟩ ∧
      typeNames types = (declarations.items.flatMap Declaration.types).flatMap TypeExpr.used ∧
      typeNames client = typeNames types ++ (all.flatMap Wrapper.types).flatMap TypeExpr.used ∧
      (∀ name ∈ typeNames types, name = "AbiBytes" ∨ DeclaresType types name) ∧
      ∀ name ∈ typeNames client, name = "AbiBytes" ∨ DeclaresType client name := by
  have hidentifier : isIdentifier config.clientName = true :=
    hconfig ▸ isIdentifier_identifier className
  have hclass := isName_of_isIdentifier hidentifier
  obtain ⟨declarations, all, hdeclarations, hall⟩ := exists_texts h.checked config
  obtain ⟨parts, hitems, hscope, herrors, hresolved⟩ := exists_parts hdeclarations
  obtain ⟨hnames, hexported⟩ := isIdentifier_items (h.checked.names .type) hdeclarations hitems
  have hnamed := Scope.named_of manifest (reservedNames config)
  obtain ⟨hneutral, hidents⟩ := neutral_declarations hnamed hdeclarations
  have hclosed := closed_declarationNodes hneutral
  have hmembers : ∀ wrapper ∈ all, ∀ type ∈ wrapper.types, Resolved (exportsOf parts) type :=
    forall_of_mapM_eq_ok hall fun _ _ _ hwrapper ↦ resolved_wrapper hscope herrors hwrapper
  -- the names that are read are those of the declarations and of the members
  have hcontributes : Contributes (declarations.nodes.flatMap (readNode lookAtTokens 0))
      ((declarations.items.flatMap Declaration.types).flatMap TypeExpr.used) := by
    refine contributes_declarations fun declaration hmem ↦ Declaration.contributes_nodes
      (hneutral declaration hmem) (Bool.and_eq_true_iff.1 (hnames declaration hmem)).1
      (fun type htype name hname ↦ ?_) (hresolved declaration hmem).key
    exact ((hresolved declaration hmem).types type htype name hname).isWord hexported
  have htypeNames := typeNames_typesNodes config hclosed hcontributes
  have hclientNames := typeNames_clientNodes (Bool.and_eq_true_iff.1 hidentifier).1
    hclosed hcontributes (neutral_wrappers hnamed hidents hall)
    (singleLine_wrappers manifest (reservedNames config) hidents hall) fun wrapper hwrapper ↦
      Wrapper.inWords_of_resolved hexported
        ((memberNames_allocated manifest).2.2 _
          ((names_wrappers hall).1 ▸ List.mem_map_of_mem hwrapper))
        (hmembers wrapper hwrapper)
  -- all of them are known in what the texts export
  have hnd := (names_parts (h.checked.names .type) hdeclarations hitems).1
  have hrest := not_mem_names_parts h.checked hdeclarations hitems
  have htypes := exports_types h.checked hdeclarations hitems hresolved
  have hclient := exports_client h.checked hclass hdeclarations hitems hresolved hall
  refine ⟨declarations, all, _, _, hdeclarations, hall, (generate_eq_ok hdeclarations hall).2.2, ?_⟩
  generalize Layout.render (typesNodes config declarations.nodes) = types at htypes htypeNames ⊢
  generalize Layout.render (clientNodes config declarations.nodes all) =
    client at hclient hclientNames ⊢
  have hdeclares {name : String} (hknown : Known (exportsOf parts) name)
      (hname : name ∉ builtinTypes) :
      name = bytesName ∨ DeclaresType types name ∧ DeclaresType client name := by
    have hbuiltin : ∀ name ∈ keywordTypes, name ∈ builtinTypes := by decide
    obtain hkeyword | hbytes | ⟨keyword, hkeyword, hmem⟩ := hknown
    · exact absurd (hbuiltin name hkeyword) hname
    · exact .inl hbytes
    · exact .inr ⟨declaresType_of_exports htypes hnd (List.forall_mem_append.1 hrest).1
        hkeyword hmem, declaresType_of_exports hclient hnd hrest hkeyword hmem⟩
  have hitemNames : ∀ name ∈ (declarations.items.flatMap Declaration.types).flatMap TypeExpr.used,
      name = bytesName ∨ DeclaresType types name ∧ DeclaresType client name := by
    intro name hname
    obtain ⟨⟨type, htype, hname⟩, hnot⟩ := mem_used_iff.1 hname
    obtain ⟨declaration, hmem, htype⟩ := List.mem_flatMap.1 htype
    exact hdeclares ((hresolved declaration hmem).types type htype name hname) hnot
  have hmemberNames : ∀ name ∈ (all.flatMap Wrapper.types).flatMap TypeExpr.used,
      name = bytesName ∨ DeclaresType types name ∧ DeclaresType client name := by
    intro name hname
    obtain ⟨⟨type, htype, hname⟩, hnot⟩ := mem_used_iff.1 hname
    obtain ⟨wrapper, hmem, htype⟩ := List.mem_flatMap.1 htype
    exact hdeclares (hmembers wrapper hmem type htype name hname) hnot
  refine ⟨htypeNames, by rw [htypeNames, hclientNames], ?_, ?_⟩
  · rw [htypeNames]
    exact fun name hname ↦ (hitemNames name hname).imp_right And.left
  · rw [hclientNames, List.forall_mem_append]
    exact ⟨fun name hname ↦ (hitemNames name hname).imp_right And.right,
      fun name hname ↦ (hmemberNames name hname).imp_right And.right⟩

/-- A value whose types lead to each other and ask for the same names, with an alias that stands for
itself and a method whose name has a line that looks like a declaration. -/
def interwoven : Json :=
  .object [("schema_version", .string "wasm-abi/1"),
    ("types", .object [
      ("Seed", .object [("kind", .string "variant"), ("variants", .array [
        .object [("name", .string "dry")],
        .object [("name", .string "sown"), ("payload", .object [("kind", .string "list"),
          ("items", .object [("$ref", .string "Bed")])])]])]),
      ("Bed", .object [("kind", .string "record"), ("fields", .array [
        .object [("name", .string "seed"), ("type", .object [("$ref", .string "Seed")])],
        .object [("name", .string "rows"), ("type", .object [("$ref", .string "SeedPayload")])]])]),
      ("SeedPayload", .object [("kind", .string "alias"),
        ("target", .object [("$ref", .string "Loop")])]),
      ("Loop", .object [("kind", .string "alias"),
        ("target", .object [("$ref", .string "Loop")])])]),
    ("methods", .array [.object [("name", .string "sow\nexport type Bed = 0;"), ("params", .array [
        .object [("name", .string "bed"), ("type", .object [("$ref", .string "Bed")])]]),
      ("returns", .object [("$ref", .string "Seed")]),
      ("errors", .array [.object [("code", .string "DRY"),
        ("payload", .object [("$ref", .string "Seed")])]])]]),
    ("events", .array [.object [("name", .string "Seed"),
      ("payload", .object [("$ref", .string "Loop")])]])]

theorem type_names_declared_interwoven :
    ∃ manifest config types client, Manifest.ofJsonWith (fun _ ↦ []) interwoven = .ok manifest ∧
      config = { Config.named "Seed" with importPath := "runtime" } ∧
      generate manifest config = .ok ⟨types, client⟩ ∧
      typeNames types = ["Bed", "Seed2Payload", "Bed", "Seed2Payload", "Seed2Payload",
        "SeedPayload", "Loop", "Seed2Payload", "Loop", "SeedPayload2"] ∧
      typeNames client = typeNames types ++
        ["Bed", "Seed2Payload", "Seed2Payload", "Sow_export_type_Bed___0_Error"] ∧
      (∀ name ∈ typeNames types, DeclaresType types name) ∧
      ∀ name ∈ typeNames client, DeclaresType client name := by
  obtain ⟨manifest, h, given, hgiven, members, hmembers, hitemNames, hmemberNames⟩ :
      ∃ manifest, Manifest.ofJsonWith (fun _ ↦ []) interwoven = .ok manifest ∧
        ∃ given, Declarations.of (scopeOf manifest { Config.named "Seed" with importPath :=
          "runtime" }) =
          .ok given ∧
        ∃ members, wrappers (scopeOf manifest { Config.named "Seed" with importPath := "runtime" })
          given.errorNames = .ok members ∧
        (given.items.flatMap Declaration.types).flatMap TypeExpr.used =
          ["Bed", "Seed2Payload", "Bed", "Seed2Payload", "Seed2Payload", "SeedPayload", "Loop",
            "Seed2Payload", "Loop", "SeedPayload2"] ∧
        (members.flatMap Wrapper.types).flatMap TypeExpr.used =
          ["Bed", "Seed2Payload", "Seed2Payload", "Sow_export_type_Bed___0_Error"] :=
    ⟨_, rfl, _, rfl, _, rfl, rfl, rfl⟩
  obtain ⟨declarations, all, types, client, hdeclarations, hall, hgenerate, htypes,
      hclient, hdeclared,
    hdeclaredClient⟩ := type_names_declared (.ofJsonWith h) "Seed" "runtime" _ rfl
  cases hgiven.symm.trans hdeclarations
  cases hmembers.symm.trans hall
  rw [hitemNames] at htypes
  rw [hmemberNames] at hclient
  refine ⟨manifest, _, types, client, h, rfl, hgenerate, htypes, hclient, fun name hname ↦ ?_,
    fun name hname ↦ ?_⟩
  · refine (hdeclared name hname).resolve_left ?_
    rintro rfl
    rw [htypes] at hname
    exact absurd hname (by decide)
  · refine (hdeclaredClient name hname).resolve_left ?_
    rintro rfl
    rw [hclient, htypes] at hname
    exact absurd hname (by decide)

end AbiBindings.Client
