import AbiBindings.Proofs.Client.ClientMembers
import AbiBindings.Proofs.TypeScript.TypePositions

/-!
# Types written in declarations

The names that are seen in type positions of the text of a declaration are those in its types, in
their order (`contributes_nodes`). What else is written between types is fixed text, keys and tags,
and neither keys nor tags are taken for names, whatever they are.
-/

namespace AbiBindings.Client

open TypeScript

/-! ### Types on a line -/

/-- The names in the type are words. -/
def InWords (type : TypeExpr) : Prop := ∀ name ∈ type.names, isWord name.toList = true

/-- A type is seen with its names. -/
theorem InWords.usedNames_text {type : TypeExpr} (h : InWords type) {rest : List Char}
    (hrest : startsWord rest = false) (hends : Ends (tokens rest)) :
    usedNames (tokens (type.text.toList ++ rest)) = type.used ++ usedNames (tokens rest) := by
  obtain ⟨found, htype, htokens⟩ := TypeExpr.exists_tokens h
  rw [htokens rest hrest, htype.usedNames_append hends]

/-- The names used in an object type are those used in the types of its members. -/
theorem used_types_members (members : List (Member TypeExpr)) :
    (members.map Member.type).flatMap TypeExpr.used =
      (TypeExpr.memberNames members).filter (· ∉ builtinTypes) := by
  induction members with
  | nil => rfl
  | cons member members ih =>
    obtain ⟨key, type, nullable⟩ := member
    rw [List.map_cons, List.flatMap_cons, ih, TypeExpr.memberNames, List.filter_append]
    rfl

/-- A property is seen with the names in its type. -/
theorem InWords.usedNames_property {type : TypeExpr} (h : InWords type) (key : String)
    (nullable : Bool) {rest : List Char} (hrest : startsWord rest = false)
    (hends : Ends (tokens rest)) :
    usedNames (tokens ((propertyKey key ++ ": " ++ orNull type.text nullable).toList ++ rest)) =
      type.used ++ usedNames (tokens rest) := by
  obtain ⟨token, hkey, hkeyText⟩ := exists_spells_propertyKey key
  obtain ⟨found, htype, htext⟩ := TypeExpr.exists_isType_text h
  rw [(hkeyText.member htext nullable).tokens hrest,
    (AreMembers.last hkey htype nullable).usedNames_append hends, ← used_types_members,
    List.map_singleton, List.flatMap_singleton]

/-- A line that starts with a key is a line of code, be the key quoted or not. -/
theorem shown_propertyKey (key : String) (rest : List Char) :
    Shown ((propertyKey key).toList ++ rest) := by
  rw [propertyKey]
  split
  · rename_i hkey
    obtain ⟨c, cs, hcs⟩ : ∃ c cs, key.toList = c :: cs := by
      cases hcs : key.toList with
      | nil => rw [isIdentifier, hcs] at hkey; cases hkey
      | cons c cs => exact ⟨c, cs, rfl⟩
    refine shown_of_startsWord (startsWord_append ?_ rest)
    rw [hcs]
    exact isName_of_isIdentifier hkey c (by simp [hcs])
  · rw [quotedKey, String.toList_ofList]
    exact rfl

/-- A statement has its keyword and its name after `export`, then the tokens of a fixed text. -/
theorem tokens_statement (start tail keyword : String) (found : List Token)
    (hstart : Partial.none.run start.toList = ([.word "export", .word keyword], .none))
    (htail : Partial.none.run tail.toList = (found, .none))
    (hblank : tail.toList.head? = some ' ') {name : String} (hname : isWord name.toList = true)
    (rest : List Char) :
    tokens ((start ++ name ++ tail).toList ++ rest) =
      .word "export" :: .word keyword :: .word name :: found ++ tokens rest := by
  have hword : startsWord (tail.toList ++ rest) = false := by
    rw [startsWord, List.head?_append, hblank]
    rfl
  simp only [String.toList_append, List.append_assoc]
  rw [tokens_fixed start _ hstart, tokens_word hname hword, tokens_fixed tail _ htail]
  rfl

namespace Declaration

/-- An alias is seen with the names in its target. -/
theorem contributes_typeLine {name target : String} (hname : isWord name.toList = true)
    (htarget : OneLine target) :
    Contributes (readNode lookAtTokens 0 (typeLine name target))
      (usedNames (tokens (target.toList ++ [';']))) := by
  have hline : ("export type " ++ name ++ " = " ++ target ++ ";").toList =
      ("export type " ++ name ++ " = ").toList ++ (target.toList ++ [';']) := by
    simp only [String.toList_append, List.append_assoc]
    rfl
  have htokens := tokens_statement "export type " " = " "type" [.mark '='] rfl rfl rfl hname
    (target.toList ++ [';'])
  have hone : OneLine ("export type " ++ name ++ " = " ++ target ++ ";") := by
    simp only [oneLine_append_iff, (isName_of_isWord hname).oneLine, htarget, and_true]
    decide
  have hcontributes := contributes_line hone (by simp only [String.toList_append]; rfl)
  rw [hline, htokens] at hcontributes
  exact hcontributes

theorem contributes_alias {name : String} (hname : isWord name.toList = true) {target : TypeExpr}
    (h : InWords target) :
    Contributes (readNode lookAtTokens 0 (typeLine name target.text)) target.used := by
  have hline := contributes_typeLine hname
    (TypeExpr.oneLine_text fun other hmem ↦ isName_of_isWord (h other hmem))
  have hends : Ends (tokens [';']) := ends_mark (by decide) (by decide) []
  rw [h.usedNames_text rfl hends] at hline
  rwa [show usedNames (tokens [';']) = [] from rfl, List.append_nil] at hline

/-- The codes of errors are string literals, so no name is used in their union. -/
theorem usedNames_tags (tags : List String) :
    usedNames (tokens ((" | ".intercalate (tags.map stringLiteral)).toList ++ [';'])) = [] := by
  induction tags with
  | nil => rfl
  | cons tag tags ih =>
    cases tags with
    | nil =>
      rw [List.map_singleton, String.intercalate_singleton, tokens_stringLiteral]
      rfl
    | cons next tags =>
      rw [List.map_cons, List.map_cons, String.intercalate_cons_cons, ← List.map_cons,
        String.toList_append, String.toList_append, List.append_assoc, List.append_assoc,
        tokens_stringLiteral, tokens_fixed " | " [.mark '|'] rfl, List.singleton_append, usedNames,
        usedNames, ih]

/-- A member of a union is seen with the names in its payload. -/
theorem usedNames_memberText {key : String} (hkey : isWord key.toList = true) {member : Tagged}
    (h : ∀ type ∈ member.payload, InWords type) (rest : List Char) :
    usedNames (tokens ((memberText key member).toList ++ rest)) =
      member.payload.toList.flatMap TypeExpr.used ++ usedNames (tokens rest) := by
  have hclose : tokens (" \x7d".toList ++ rest) = .mark '\x7d' :: tokens rest :=
    tokens_fixed " \x7d" [.mark '\x7d'] rfl rest
  unfold memberText
  split
  · rename_i type htype
    have htext : usedNames (tokens (type.text.toList ++ (" \x7d".toList ++ rest))) =
        type.used ++ usedNames (tokens rest) := by
      have hends : Ends (tokens (" \x7d".toList ++ rest)) := by
        rw [hclose]
        exact ends_mark (by decide) (by decide) _
      rw [(h type htype).usedNames_text rfl hends, hclose, usedNames]
    simp only [String.toList_append, List.append_assoc]
    rw [tokens_fixed "\x7b " [.mark '\x7b'] rfl, tokens_word hkey rfl,
      tokens_fixed ": " [.mark ':'] rfl, tokens_stringLiteral,
      tokens_fixed "; payload: " [.mark ';', .word "payload", .mark ':'] rfl, htype]
    simp only [List.cons_append, List.nil_append]
    rw [usedNames, usedNames_key rfl, usedNames, usedNames, usedNames_key rfl, htext]
    simp
  · rename_i hnone
    simp only [String.toList_append, List.append_assoc]
    rw [tokens_fixed "\x7b " [.mark '\x7b'] rfl, tokens_word hkey rfl,
      tokens_fixed ": " [.mark ':'] rfl, tokens_stringLiteral, hclose, hnone]
    simp only [List.cons_append, List.nil_append]
    rw [usedNames, usedNames_key rfl, usedNames, usedNames]
    simp

/-- A line of a union goes on with its statement and holds the names in the payload. -/
theorem tokenLines_unionLine {key : String} (hkey : isWord key.toList = true) {member : Tagged}
    (h : ∀ type ∈ member.payload, InWords type) (tail : String) (htail : OneLine tail)
    (hempty : usedNames (tokens tail.toList) = []) :
    ∃ found, readNode lookAtTokens 0 (.line ("  | " ++ memberText key member ++ tail)) =
        [⟨false, found⟩] ∧
      usedNames found = member.payload.toList.flatMap TypeExpr.used := by
  have hmember := oneLine_memberText (isName_of_isWord hkey).oneLine fun type htype ↦
    TypeExpr.oneLine_text fun name hname ↦ isName_of_isWord (h type htype name hname)
  have hone : OneLine ("  | " ++ memberText key member ++ tail) := by
    simp only [oneLine_append_iff, hmember, htail, and_true]
    decide
  have htext : ("  | " ++ memberText key member ++ tail).toList =
      "  | ".toList ++ ((memberText key member).toList ++ tail.toList) := by
    simp only [String.toList_append, List.append_assoc]
  have htop : startsWord (skipBlanks ("  | " ++ memberText key member ++ tail).toList) = false := by
    rw [htext]
    rfl
  refine ⟨_, by rw [tokenLines_line hone (by rw [htext]; rfl), htop], ?_⟩
  rw [htext, tokens_fixed "  | " [.mark '|'] rfl, List.singleton_append, usedNames,
    usedNames_memberText hkey h, hempty, List.append_nil]

/-- The lines of a union go on with its statement and hold the names in the payloads. -/
theorem tokenLines_unionLines {key : String} (hkey : isWord key.toList = true)
    {members : List Tagged} (h : ∀ member ∈ members, ∀ type ∈ member.payload, InWords type) :
    ∃ below, (unionLines (members.map (memberText key))).flatMap (readNode lookAtTokens 0) = below ∧
      (∀ line ∈ below, line.top = false) ∧
      below.flatMap (usedNames ·.tokens) =
        (members.filterMap Tagged.payload).flatMap TypeExpr.used := by
  induction members with
  | nil => exact ⟨[], rfl, List.forall_mem_nil _, rfl⟩
  | cons member members ih =>
    obtain ⟨hmember, hmembers⟩ := List.forall_mem_cons.1 h
    obtain ⟨below, hbelow, hinside, hnames⟩ := ih hmembers
    have hpayload : ((member :: members).filterMap Tagged.payload).flatMap TypeExpr.used =
        member.payload.toList.flatMap TypeExpr.used ++
          (members.filterMap Tagged.payload).flatMap TypeExpr.used := by
      rw [List.filterMap_cons]
      cases member.payload <;> simp
    rw [hpayload, ← hnames]
    -- the last line ends with a semicolon, the others go on
    cases members with
    | nil =>
      obtain ⟨found, hline, hfound⟩ := tokenLines_unionLine hkey hmember ";" (by decide) rfl
      obtain rfl : below = [] := hbelow.symm
      refine ⟨[⟨false, found⟩], ?_, List.forall_mem_singleton.2 rfl, by simp [hfound]⟩
      rw [List.map_singleton, unionLines, List.flatMap_singleton, hline]
    | cons next members =>
      obtain ⟨found, hline, hfound⟩ := tokenLines_unionLine hkey hmember "" (by decide) rfl
      rw [String.append_empty] at hline
      refine ⟨⟨false, found⟩ :: below, ?_, List.forall_mem_cons.2 ⟨rfl, hinside⟩, by simp [hfound]⟩
      rw [List.map_cons, List.map_cons, unionLines, List.flatMap_cons, hline,
        ← List.map_cons, hbelow]
      · rfl
      · simp

/-- A union is seen with the names in the payloads of its members. Their tags are not seen. -/
theorem contributes_unionNodes {name key : String} (hname : isWord name.toList = true)
    (hkey : isWord key.toList = true) {members : List Tagged}
    (h : ∀ member ∈ members, ∀ type ∈ member.payload, InWords type) :
    Contributes ((unionNodes name (members.map (memberText key))).flatMap (readNode lookAtTokens 0))
      ((members.filterMap Tagged.payload).flatMap TypeExpr.used) := by
  cases members with
  | nil =>
    have hnever : OneLine "never" := by decide
    rw [List.map_nil, unionNodes, List.flatMap_singleton]
    exact contributes_typeLine hname hnever
  | cons member members =>
    obtain ⟨below, hbelow, hinside, hnames⟩ := tokenLines_unionLines hkey h
    have htokens := tokens_statement "export type " " =" "type" [.mark '='] rfl rfl rfl hname []
    have hone : OneLine ("export type " ++ name ++ " =") := by
      simp only [oneLine_append_iff, (isName_of_isWord hname).oneLine, and_true]
      decide
    have hword : startsWord ("export type " ++ name ++ " =").toList = true :=
      startsWord_statement startsWith_type
    have hstatement := contributes_statement [.word "export", .word "type", .word name, .mark '=']
      hinside
    rw [← hnames]
    rw [List.append_nil] at htokens
    show Contributes (readNode lookAtTokens 0 (.line ("export type " ++ name ++ " =")) ++
      (unionLines ((member :: members).map (memberText key))).flatMap (readNode lookAtTokens 0)) _
    rw [hbelow, tokenLines_line hone (shown_of_startsWord hword), skipBlanks_word hword,
      hword, htokens]
    exact hstatement

/-- The tokens of the function that makes the values of a case. In front of the arrow it has what it
takes and gives. -/
theorem exists_tokens_factoryLine {payloadName : String} (hname : isWord payloadName.toList = true)
    {case : Tagged} (h : ∀ type ∈ case.payload, InWords type) :
    ∃ text before after, factoryLine payloadName case = .line text ∧ Shown text.toList ∧
      tokens text.toList = before ++ .mark '=' :: after ∧ .mark '=' ∉ before ∧
      usedNames before =
        case.payload.toList.flatMap TypeExpr.used ++ (TypeExpr.name payloadName).used := by
  obtain ⟨token, hkey, hkeyText⟩ := exists_spells_propertyKey case.tag
  have hne : ¬ .mark '=' = token := by
    rintro rfl
    cases hkey
  have hpayload : usedNames [.word payloadName] = (TypeExpr.name payloadName).used := by
    rw [usedNames_name payloadName ⟨by simp, by simp⟩]
    exact List.append_nil _
  have harrow (rest : List Char) :
      ∃ after, tokens (" => (\x7b name: ".toList ++ rest) = .mark '=' :: after :=
    ⟨_, tokens_fixed _ [.mark '=', .mark '>', .mark '(', .mark '\x7b', .word "name",
      .mark ':'] rfl rest⟩
  unfold factoryLine
  split
  · rename_i type htype
    obtain ⟨found, hfound, htokens⟩ := TypeExpr.exists_tokens (h type htype)
    obtain ⟨after, hafter⟩ := harrow ((stringLiteral case.tag).toList ++ ", payload \x7d),".toList)
    refine ⟨_, token :: .mark ':' :: .mark '(' :: .word "payload" :: .mark ':' ::
      (found ++ [.mark ')', .mark ':', .word payloadName]), after, rfl, ?_, ?_, ?_, ?_⟩
    · simp only [String.toList_append, List.append_assoc]
      exact shown_propertyKey _ _
    · simp only [String.toList_append, List.append_assoc]
      rw [hkeyText.tokens rfl,
        tokens_fixed ": (payload: " [.mark ':', .mark '(', .word "payload", .mark ':'] rfl,
        htokens _ rfl, tokens_fixed "): " [.mark ')', .mark ':'] rfl, tokens_word hname rfl, hafter]
      simp
    · simp [hne, hfound.equals_not_mem]
    · rw [usedNames_key hkey, usedNames, usedNames_key rfl,
        hfound.usedNames_append (ends_mark (by decide) (by decide) _), usedNames,
        usedNames, hpayload, htype]
      simp
  · rename_i hnone
    obtain ⟨after, hafter⟩ := harrow ((stringLiteral case.tag).toList ++ " \x7d),".toList)
    refine ⟨_, token :: .mark ':' :: .mark '(' :: [.mark ')', .mark ':', .word payloadName], after,
      rfl, ?_, ?_, ?_, ?_⟩
    · simp only [String.toList_append, List.append_assoc]
      exact shown_propertyKey _ _
    · simp only [String.toList_append, List.append_assoc]
      rw [hkeyText.tokens rfl, tokens_fixed ": (): " [.mark ':', .mark '(', .mark ')',
        .mark ':'] rfl, tokens_word hname rfl, hafter]
      simp
    · simp [hne]
    · rw [usedNames_key hkey, usedNames, usedNames, usedNames, hpayload, hnone]
      simp

/-- The line for a case is seen with the names in its argument, then in its result. -/
theorem namesSeen_factoryLine {payloadName : String} (hname : isWord payloadName.toList = true)
    {case : Tagged} (h : ∀ type ∈ case.payload, InWords type) (depth : Nat) :
    namesSeen arrowNames depth (factoryLine payloadName case) =
      (case.payload.toList ++ [TypeExpr.name payloadName]).flatMap TypeExpr.used := by
  obtain ⟨text, before, after, hline, hshown, htokens, hbefore, hnames⟩ :=
    exists_tokens_factoryLine hname h
  obtain ⟨other, hone, hother⟩ :=
    exists_factoryLine (isName_of_isWord hname).oneLine fun type htype ↦
    TypeExpr.oneLine_text fun name hmem ↦ isName_of_isWord (h type htype name hmem)
  rw [hline] at hother
  cases hother
  rw [hline, namesSeen_line hone hshown, htokens, arrowNames_append hbefore, hnames,
    List.flatMap_append, List.flatMap_singleton]

/-- The properties of a record are seen with the names in their types. -/
theorem namesSeen_memberTexts {members : List (Member TypeExpr)}
    (h : ∀ member ∈ members, InWords member.type) (depth : Nat) :
    ((TypeExpr.memberTexts members).map fun member ↦ Node.line (member ++ ";")).flatMap
        (namesSeen usedNames depth) =
      (members.map Member.type).flatMap TypeExpr.used := by
  induction members with
  | nil => rw [TypeExpr.memberTexts]; rfl
  | cons member members ih =>
    obtain ⟨hmember, hmembers⟩ := List.forall_mem_cons.1 h
    obtain ⟨key, type, nullable⟩ := member
    have hone : OneLine (propertyKey key ++ ": " ++ orNull type.text nullable ++ ";") := by
      have htype := TypeExpr.oneLine_orNull
        (TypeExpr.oneLine_text fun name hname ↦ isName_of_isWord (hmember name hname)) nullable
      simp only [oneLine_append_iff, oneLine_propertyKey, htype, and_true]
      decide
    have hshown : Shown (propertyKey key ++ ": " ++ orNull type.text nullable ++ ";").toList := by
      simp only [String.toList_append, List.append_assoc]
      exact shown_propertyKey _ _
    have hends : Ends (tokens ";".toList) := ends_mark (by decide) (by decide) []
    have hnames := hmember.usedNames_property key nullable rfl hends
    rw [TypeExpr.memberTexts, List.map_cons, List.flatMap_cons, ih hmembers,
      namesSeen_line hone hshown, String.toList_append, hnames, List.map_cons, List.flatMap_cons]
    exact congrArg (· ++ _) (List.append_nil _)

/-- A record is seen with the names in the types of its fields. -/
theorem contributes_interface {name : String} (hname : isWord name.toList = true)
    {members : List (Member TypeExpr)} (h : ∀ member ∈ members, InWords member.type)
    (hclosed : (Node.block ("export interface " ++ name ++ " \x7b")
      ((TypeExpr.memberTexts members).map fun member ↦ .line (member ++ ";")) "\x7d").Closed) :
    Contributes (readNode lookAtTokens 0 (.block ("export interface " ++ name ++ " \x7b")
        ((TypeExpr.memberTexts members).map fun member ↦ .line (member ++ ";")) "\x7d"))
      ((members.map Member.type).flatMap TypeExpr.used) := by
  have htokens := tokens_statement "export interface " " \x7b" "interface" [.mark '\x7b'] rfl rfl
    rfl hname
  rw [← namesSeen_memberTexts h 1]
  refine contributes_body hclosed (oneLine_statement startsWith_interface
    (isName_of_isWord hname) (by decide)) (by decide) (startsWord_statement startsWith_interface)
    rfl (fun hne ↦ ?_) htokens rfl rfl rfl
  obtain ⟨text, texts, htexts⟩ := List.exists_cons_of_ne_nil (mt List.map_eq_nil_iff.2 hne)
  exact ⟨text ++ ";", by rw [htexts]; exact List.mem_cons_self⟩

/-- The object that makes the values of a variant is seen line by line. -/
theorem contributes_factories {name payloadName : String} (hname : isWord name.toList = true)
    {cases : List Tagged} (h : ∀ type ∈ (factories name payloadName cases).types, InWords type)
    (hclosed : (Node.block ("export const " ++ name ++ " = \x7b")
      (cases.map (factoryLine payloadName)) "\x7d as const;").Closed) :
    Contributes (readNode lookAtTokens 0 (.block ("export const " ++ name ++ " = \x7b")
        (cases.map (factoryLine payloadName)) "\x7d as const;"))
      ((factories name payloadName cases).types.flatMap TypeExpr.used) := by
  have htokens := tokens_statement "export const " " = \x7b" "const" [.mark '=', .mark '\x7b'] rfl
    rfl rfl hname
  have hcases {case : Tagged} (hcase : case ∈ cases) :
      isWord payloadName.toList = true ∧ ∀ type ∈ case.payload, InWords type :=
    ⟨h _ (mem_types_factories hcase).1 payloadName List.mem_cons_self,
      fun type htype ↦ h type ((mem_types_factories hcase).2 type htype)⟩
  have hnames : (cases.map (factoryLine payloadName)).flatMap (namesSeen arrowNames 1) =
      (factories name payloadName cases).types.flatMap TypeExpr.used := by
    rw [types, List.flatMap_map, List.flatMap_assoc]
    exact List.flatMap_congr fun case hcase ↦ namesSeen_factoryLine (hcases hcase).1
      (hcases hcase).2 1
  rw [← hnames]
  refine contributes_body hclosed (oneLine_statement startsWith_const
    (isName_of_isWord hname) (by decide)) (by decide) (startsWord_statement startsWith_const)
    rfl (fun hne ↦ ?_) htokens rfl rfl rfl
  obtain ⟨case, cases, rfl⟩ := List.exists_cons_of_ne_nil (mt List.map_eq_nil_iff.2 hne)
  obtain ⟨hpayload, htypes⟩ := hcases List.mem_cons_self
  obtain ⟨text, -, -, hline, -⟩ := exists_tokens_factoryLine hpayload htypes
  exact ⟨text, by rw [← hline]; exact List.mem_cons_self⟩

/-- The names that are seen of a declaration are those in its types. -/
theorem contributes_nodes {declaration : Declaration} (hneutral : declaration.Neutral)
    (hname : isWord declaration.name.toList = true)
    (htypes : ∀ type ∈ declaration.types, InWords type)
    (hkey : ∀ name key members, declaration = .union name key members → isWord key.toList = true) :
    Contributes (declaration.nodes.flatMap (readNode lookAtTokens 0))
      (declaration.types.flatMap TypeExpr.used) := by
  have hclosed := hneutral.closed_nodes
  cases declaration with
  | interface name members =>
    rw [nodes, List.flatMap_cons, List.flatMap_singleton, readNode_blank, List.append_nil]
    exact contributes_interface hname (fun member hmember ↦ htypes _ (List.mem_map_of_mem hmember))
      (hclosed _ List.mem_cons_self)
  | typeAlias name target =>
    rw [nodes, List.flatMap_cons, List.flatMap_singleton, readNode_blank, List.append_nil, types,
      List.flatMap_singleton]
    exact contributes_alias hname (htypes target List.mem_cons_self)
  | fixedBytes name count =>
    have hline := contributes_alias hname (htypes (.name bytesName) List.mem_cons_self)
    rw [TypeExpr.text] at hline
    rw [nodes, List.flatMap_cons, List.flatMap_cons, List.flatMap_singleton, tokenLines_doc,
      readNode_blank, List.append_nil, List.nil_append, types, List.flatMap_singleton]
    exact hline
  | union name key members =>
    rw [nodes, List.flatMap_append, List.flatMap_singleton, readNode_blank, List.append_nil]
    exact contributes_unionNodes hname (hkey name key members rfl) fun member hmember type htype ↦
      htypes type (List.mem_filterMap.2 ⟨member, hmember, htype⟩)
  | factories name payloadName cases =>
    rw [nodes, List.flatMap_cons, List.flatMap_singleton, readNode_blank, List.append_nil]
    exact contributes_factories hname htypes (hclosed _ List.mem_cons_self)
  | codes name tags =>
    have hline := contributes_typeLine hname (oneLine_tags tags)
    rw [usedNames_tags] at hline
    rw [nodes, List.flatMap_singleton]
    exact hline

end Declaration

end AbiBindings.Client
