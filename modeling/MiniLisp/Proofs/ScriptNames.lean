import MiniLisp.Proofs.SingleLines
import MiniLisp.Script.Name

/-!
# Names of scripts

A symbol that the lexer reads is the underscore, a name of letters and single hyphens, or a run of
operator characters. Camel case keeps the letters of a name, but a hyphen and the letter behind it
become one capital. Names without capitals can be told from their camel case, so no two of them meet
in a script; and of all symbols only the operator runs have no name there.
-/

namespace MiniLisp

/-- Some text has the name among its tokens. -/
def Lexer.IsSymbol (name : String) : Prop :=
  ∃ source, ∃ t ∈ (lex source).tokens, t.token = .symbol name

namespace Script

/-- The text of a symbol. -/
inductive SymbolText : List Char → Prop
  | underscore : SymbolText ['_']
  | name {c : Char} {cs : List Char} (hc : Lexer.isLetter c = true) (h : Lexer.NameTail cs) :
      SymbolText (c :: cs)
  | operator {c : Char} {cs : List Char} (h : ∀ d ∈ c :: cs, Lexer.isOperator d = true) :
      SymbolText (c :: cs)

theorem isOperator_of_operatorTail {rest cs : List Char} (h : Lexer.OperatorTail rest cs) :
    ∀ c ∈ cs, Lexer.isOperator c = true := by
  induction h with
  | nil => exact List.forall_mem_nil _
  | cons hc _ _ ih => exact List.forall_mem_cons.mpr ⟨hc, ih⟩

theorem symbolText_of_isSymbol {name : String} (h : Lexer.IsSymbol name) :
    SymbolText name.toList := by
  obtain ⟨source, t, ht, htoken⟩ := h
  obtain ⟨rest, text, hlexeme⟩ := Lexer.exists_lexeme_of_lex ht
  rw [htoken] at hlexeme
  generalize hsymbol : Token.symbol name = token at hlexeme
  cases hlexeme with
  | underscore =>
      cases hsymbol
      exact .underscore
  | name hc h =>
      cases hsymbol
      rw [String.toList_ofList]
      exact .name hc h
  | operator h =>
      cases hsymbol
      rw [String.toList_ofList]
      exact .operator (isOperator_of_operatorTail h)
  | number | negative | string | leftParen | rightParen | quoteMark => cases hsymbol

section CamelCase

variable {c : Char} {cs : List Char}

theorem exists_splitHyphens (cs : List Char) : ∃ part parts, splitHyphens cs = part :: parts := by
  cases cs with
  | nil => exact ⟨[], [], rfl⟩
  | cons c cs =>
      rw [splitHyphens]
      split <;> exact ⟨_, _, rfl⟩

theorem splitHyphens_cons (hc : c ≠ '-') {part : List Char} {parts : List (List Char)}
    (h : splitHyphens cs = part :: parts) : splitHyphens (c :: cs) = (c :: part) :: parts := by
  rw [splitHyphens, h, beq_false_of_ne hc]

theorem camelCase_of_splitHyphens {word : List Char} {words : List (List Char)}
    (h : splitHyphens cs = word :: words) : camelCase cs = word ++ words.flatMap capitalize := by
  rw [camelCase, h]

theorem camelCase_cons (hc : c ≠ '-') (cs : List Char) :
    camelCase (c :: cs) = c :: camelCase cs := by
  obtain ⟨part, parts, hparts⟩ := exists_splitHyphens cs
  rw [camelCase_of_splitHyphens (splitHyphens_cons hc hparts), camelCase_of_splitHyphens hparts,
    List.cons_append]

theorem camelCase_hyphen (hc : c ≠ '-') (cs : List Char) :
    camelCase ('-' :: c :: cs) = Text.capital c ++ camelCase cs := by
  obtain ⟨part, parts, hparts⟩ := exists_splitHyphens cs
  have hsplit : splitHyphens ('-' :: c :: cs) = [] :: (c :: part) :: parts := by
    rw [splitHyphens, splitHyphens_cons hc hparts]
    rfl
  rw [camelCase_of_splitHyphens hsplit, camelCase_of_splitHyphens hparts, List.nil_append,
    List.flatMap_cons, capitalize, List.append_assoc]

theorem mem_of_mem_splitHyphens {part : List Char} (hpart : part ∈ splitHyphens cs)
    (hc : c ∈ part) : c ∈ cs := by
  induction cs generalizing part with
  | nil =>
      rw [List.mem_singleton.mp hpart] at hc
      exact hc
  | cons d ds ih =>
      obtain ⟨first, others, hsplit⟩ := exists_splitHyphens ds
      rw [hsplit] at ih
      have hothers {part : List Char} (hpart : part ∈ first :: others) (hc : c ∈ part) :
          c ∈ d :: ds := List.mem_cons_of_mem d (ih hpart hc)
      by_cases hd : d = '-'
      · subst hd
        rw [splitHyphens, hsplit] at hpart
        rcases List.mem_cons.mp hpart with rfl | hpart
        · exact absurd hc List.not_mem_nil
        · exact hothers hpart hc
      · rw [splitHyphens_cons hd hsplit] at hpart
        rcases List.mem_cons.mp hpart with rfl | hpart
        · rcases List.mem_cons.mp hc with rfl | hc
          · exact List.mem_cons_self
          · exact hothers List.mem_cons_self hc
        · exact hothers (List.mem_cons_of_mem first hpart) hc

/-- What the characters of a name have in common with their capitals, those of its camel case have
in common with them. -/
theorem forall_mem_camelCase {P : Char → Prop} (hcapital : ∀ c, P c → ∀ d ∈ Text.capital c, P d)
    (h : ∀ c ∈ cs, P c) : ∀ d ∈ camelCase cs, P d := by
  obtain ⟨word, words, hsplit⟩ := exists_splitHyphens cs
  have hparts : ∀ part ∈ word :: words, ∀ c ∈ part, P c :=
    fun part hpart c hc ↦ h c (mem_of_mem_splitHyphens (hsplit ▸ hpart) hc)
  obtain ⟨hword, hwords⟩ := List.forall_mem_cons.mp hparts
  rw [camelCase_of_splitHyphens hsplit]
  refine List.forall_mem_append.mpr ⟨hword, fun d hd ↦ ?_⟩
  obtain ⟨part, hpart, hd⟩ := List.mem_flatMap.mp hd
  cases part with
  | nil => exact absurd hd List.not_mem_nil
  | cons c cs =>
      obtain ⟨hc, hcs⟩ := List.forall_mem_cons.mp (hwords _ hpart)
      rcases List.mem_append.mp hd with hd | hd
      · exact hcapital c hc d hd
      · exact hcs d hd

end CamelCase

section Letters

def isCapital (c : Char) : Bool := decide ('A' ≤ c ∧ c ≤ 'Z')

variable {c : Char} {cs : List Char}

theorem capital_of_isLetter (hc : Lexer.isLetter c = true) :
    Text.capital c = [c.toUpper] ∧ isCapital c.toUpper = true ∧
      (isCapital c = false → c.toUpper.toLower = c) := by
  have hall : ∀ n < 123, Lexer.isLetter (Char.ofNat n) = true →
      Text.capital (Char.ofNat n) = [(Char.ofNat n).toUpper] ∧
        isCapital (Char.ofNat n).toUpper = true ∧
          (isCapital (Char.ofNat n) = false → (Char.ofNat n).toUpper.toLower = Char.ofNat n) := by
    decide
  have hrange := Lexer.isLetter_iff.mp hc
  have hletter := hall c.toNat (by omega)
  rw [Char.ofNat_toNat] at hletter
  exact hletter hc

theorem isLetter_of_isCapital (hc : isCapital c = true) : Lexer.isLetter c = true :=
  decide_eq_true (.inr (of_decide_eq_true hc))

theorem ne_hyphen_of_isLetter (hc : Lexer.isLetter c = true) : c ≠ '-' := by
  rintro rfl
  exact absurd hc (by decide)

/-- The name without capitals that has this camel case. -/
def unjoin (cs : List Char) : List Char :=
  cs.flatMap fun c ↦ if isCapital c then ['-', c.toLower] else [c]

theorem unjoin_camelCase (h : Lexer.NameTail cs) (hsmall : ∀ c ∈ cs, isCapital c = false) :
    unjoin (camelCase cs) = cs := by
  induction h with
  | nil => rfl
  | @letter c cs hc _ ih =>
      obtain ⟨hhead, htail⟩ := List.forall_mem_cons.mp hsmall
      rw [camelCase_cons (ne_hyphen_of_isLetter hc), unjoin, List.flatMap_cons, hhead, ← unjoin,
        ih htail]
      rfl
  | @hyphen c cs hc _ ih =>
      obtain ⟨-, hsmall⟩ := List.forall_mem_cons.mp hsmall
      obtain ⟨hhead, htail⟩ := List.forall_mem_cons.mp hsmall
      obtain ⟨hcapital, hupper, hlower⟩ := capital_of_isLetter hc
      rw [camelCase_hyphen (ne_hyphen_of_isLetter hc), hcapital, List.singleton_append, unjoin,
        List.flatMap_cons, hupper, if_pos rfl, hlower hhead, ← unjoin, ih htail]
      rfl

theorem isLetter_camelCase (h : Lexer.NameTail cs) :
    ∀ c ∈ camelCase cs, Lexer.isLetter c = true := by
  induction h with
  | nil => exact List.forall_mem_nil _
  | @letter c cs hc _ ih =>
      rw [camelCase_cons (ne_hyphen_of_isLetter hc)]
      exact List.forall_mem_cons.mpr ⟨hc, ih⟩
  | @hyphen c cs hc _ ih =>
      obtain ⟨hcapital, hupper, -⟩ := capital_of_isLetter hc
      rw [camelCase_hyphen (ne_hyphen_of_isLetter hc), hcapital]
      exact List.forall_mem_cons.mpr ⟨isLetter_of_isCapital hupper, ih⟩

end Letters

section Identifiers

/-- A character that may begin a name of a script. -/
def NameStart (c : Char) : Prop :=
  ('A' ≤ c ∧ c ≤ 'Z') ∨ ('a' ≤ c ∧ c ≤ 'z') ∨ c = '_' ∨ c = '$'

/-- The form of a name of a script, reserved or not. -/
def NameFormed (text : String) : Prop :=
  ∃ c cs, text.toList = c :: cs ∧ NameStart c ∧ ∀ d ∈ cs, NameStart d ∨ ('0' ≤ d ∧ d ≤ '9')

variable {name ident : String}

theorem isNameStart_iff {c : Char} : isNameStart c = true ↔ NameStart c := by
  simp only [isNameStart, Lexer.isLetter, Bool.or_eq_true, decide_eq_true_eq, beq_iff_eq, NameStart]
  tauto

theorem isNameChar_iff {c : Char} :
    isNameChar c = true ↔ NameStart c ∨ ('0' ≤ c ∧ c ≤ '9') := by
  rw [isNameChar, Bool.or_eq_true, isNameStart_iff, Lexer.isDigit, decide_eq_true_eq]

theorem isNameStart_of_isLetter {c : Char} (hc : Lexer.isLetter c = true) :
    isNameStart c = true := by
  rw [isNameStart, hc, Bool.true_or, Bool.true_or]

theorem isNameStart_of_isOperator {c : Char} (hc : Lexer.isOperator c = true) :
    isNameStart c = false := by
  have hall : Lexer.operatorChars.all (!isNameStart ·) = true := by decide
  simpa using List.all_eq_true.mp hall c (List.contains_iff_mem.mp hc)

theorem nameFormed_of_isValidName {cs : List Char} (h : isValidName cs = true) :
    NameFormed (String.ofList cs) := by
  cases cs with
  | nil => cases h
  | cons c cs =>
      obtain ⟨hstart, hrest⟩ := Bool.and_eq_true_iff.mp h
      refine ⟨c, cs, String.toList_ofList, isNameStart_iff.mp hstart, fun d hd ↦ ?_⟩
      exact isNameChar_iff.mp (List.all_eq_true.mp hrest d hd)

theorem NameFormed.underscore (h : NameFormed ident) : NameFormed ("_" ++ ident) := by
  obtain ⟨c, cs, hident, hc, hcs⟩ := h
  refine ⟨'_', c :: cs, ?_, .inr (.inr (.inl rfl)), List.forall_mem_cons.mpr ⟨.inl hc, hcs⟩⟩
  rw [String.toList_append, hident]
  rfl

/-- A name becomes its camel case, with an underscore in front of a reserved word. -/
theorem camelCase_of_identifier (h : identifier name = .ok ident) :
    isValidName (camelCase name.toList) = true ∧
      (ident = String.ofList (camelCase name.toList) ∧ ident ∉ reservedWords ∨
        ident = "_" ++ String.ofList (camelCase name.toList) ∧
          String.ofList (camelCase name.toList) ∈ reservedWords) := by
  unfold identifier at h
  split at h
  · cases h
  · dsimp only at h
    split at h
    next hvalid =>
      refine ⟨hvalid, ?_⟩
      by_cases hreserved : String.ofList (camelCase name.toList) ∈ reservedWords
      · rw [if_pos (List.contains_iff_mem.mpr hreserved)] at h
        cases h
        exact .inr ⟨rfl, hreserved⟩
      · rw [if_neg (mt List.contains_iff_mem.mp hreserved)] at h
        cases h
        exact .inl ⟨rfl, hreserved⟩
    next => cases h

theorem nameFormed_of_identifier (h : identifier name = .ok ident) : NameFormed ident := by
  obtain ⟨hvalid, ⟨rfl, -⟩ | ⟨rfl, -⟩⟩ := camelCase_of_identifier h
  · exact nameFormed_of_isValidName hvalid
  · exact (nameFormed_of_isValidName hvalid).underscore

theorem ofName?_eq_none_of_head {c : Char} (hname : name.toList.head? = some c)
    (hc : Lexer.isOperator c = false) : Operator.ofName? name = none := by
  refine List.find?_eq_none.mpr fun op _ hop ↦ ?_
  have hhead : (op.name.toList.head?.map Lexer.isOperator) = some true := by cases op <;> decide
  rw [eq_of_beq hop, hname, Option.map_some, hc] at hhead
  cases hhead

theorem exists_identifier {c : Char} (hname : name.toList.head? = some c)
    (hc : Lexer.isOperator c = false) (hvalid : isValidName (camelCase name.toList) = true) :
    ∃ ident, identifier name = .ok ident := by
  rw [identifier, ofName?_eq_none_of_head hname hc]
  exact ⟨_, if_pos hvalid⟩

theorem isValidName_camelCase {c : Char} {cs : List Char} (hc : Lexer.isLetter c = true)
    (h : Lexer.NameTail cs) : isValidName (camelCase (c :: cs)) = true := by
  rw [camelCase_cons (ne_hyphen_of_isLetter hc)]
  refine Bool.and_eq_true_iff.mpr ⟨isNameStart_of_isLetter hc, List.all_eq_true.mpr fun d hd ↦ ?_⟩
  rw [isNameChar, isNameStart_of_isLetter (isLetter_camelCase h d hd), Bool.true_or]

theorem not_isValidName_camelCase {cs : List Char}
    (h : ∀ c ∈ cs, Lexer.isOperator c = true) : isValidName (camelCase cs) = false := by
  have hall : Lexer.operatorChars.all (fun c ↦ Text.capital c == [c]) = true := by decide
  have hcapital : ∀ c, Lexer.isOperator c = true → ∀ d ∈ Text.capital c,
      Lexer.isOperator d = true := by
    intro c hc d hd
    have hcapital := eq_of_beq (List.all_eq_true.mp hall c (List.contains_iff_mem.mp hc))
    rw [hcapital, List.mem_singleton] at hd
    rwa [hd]
  have hoperators := forall_mem_camelCase hcapital h
  cases hword : camelCase cs with
  | nil => rfl
  | cons c word =>
      rw [hword] at hoperators
      rw [isValidName, isNameStart_of_isOperator (hoperators c List.mem_cons_self), Bool.false_and]

theorem exists_error_of_operators (h : ∀ c ∈ name.toList, Lexer.isOperator c = true) :
    ∃ e, identifier name = .error e := by
  rw [identifier]
  split
  · exact ⟨_, rfl⟩
  · exact ⟨_, if_neg (Bool.eq_false_iff.mp (not_isValidName_camelCase h))⟩

theorem not_isOperator_of_isLetter {c : Char} (hc : Lexer.isLetter c = true) :
    Lexer.isOperator c = false := by
  rw [Bool.eq_false_iff]
  intro hoperator
  have hstart := isNameStart_of_isOperator hoperator
  rw [isNameStart_of_isLetter hc] at hstart
  cases hstart

/-- Of the symbols, those that begin with an operator character have no name in a script. -/
theorem exists_error_iff_of_symbolText (h : SymbolText name.toList) :
    (∃ e, identifier name = .error e) ↔
      ∃ c ∈ Lexer.operatorChars, name.toList.head? = some c := by
  have hnamed {c : Char} (hname : name.toList.head? = some c) (hc : Lexer.isOperator c = false)
      (hvalid : isValidName (camelCase name.toList) = true) :
      (∃ e, identifier name = .error e) ↔
        ∃ c ∈ Lexer.operatorChars, name.toList.head? = some c := by
    obtain ⟨ident, hident⟩ := exists_identifier hname hc hvalid
    rw [hident, hname]
    refine iff_of_false nofun ?_
    rintro ⟨d, hd, heq⟩
    cases heq
    rw [Lexer.isOperator, List.contains_iff_mem.mpr hd] at hc
    cases hc
  generalize htext : name.toList = text at h
  cases h with
  | underscore =>
      rw [htext] at hnamed
      exact hnamed rfl (by decide) (by decide)
  | name hc h =>
      rw [htext] at hnamed
      exact hnamed rfl (not_isOperator_of_isLetter hc) (isValidName_camelCase hc h)
  | @operator c cs h =>
      refine iff_of_true (exists_error_of_operators (htext ▸ h)) ⟨c, ?_, rfl⟩
      exact List.contains_iff_mem.mp (h c List.mem_cons_self)

end Identifiers

/-- Whatever the name, what it becomes is formed like a name of a script and is not reserved there;
and of the symbols that the lexer reads, those that begin with an operator character are refused and
no others. -/
theorem identifier_outcome (name : String) :
    (∀ ident, identifier name = .ok ident → NameFormed ident ∧ ident ∉ reservedWords) ∧
      (Lexer.IsSymbol name → ((∃ e, identifier name = .error e) ↔
        ∃ c ∈ ['+', '-', '*', '/', '<', '>', '=', '!'], name.toList.head? = some c)) := by
  refine ⟨fun ident h ↦ ?_, fun h ↦ exists_error_iff_of_symbolText (symbolText_of_isSymbol h)⟩
  refine ⟨nameFormed_of_identifier h, ?_⟩
  obtain ⟨-, ⟨rfl, hident⟩ | ⟨rfl, hreserved⟩⟩ := camelCase_of_identifier h
  · exact hident
  · have hunderscored : ∀ word ∈ reservedWords, "_" ++ word ∉ reservedWords := by decide
    exact hunderscored _ hreserved

/-- A reserved word, and two operator runs. The second begins like a name of one hyphen, but nothing
is left of it when its hyphens are gone. -/
theorem identifier_outcome_reserved :
    identifier "delete" = .ok "_delete" ∧ NameFormed "_delete" ∧ "_delete" ∉ reservedWords ∧
      Lexer.IsSymbol "--" ∧ (∃ e, identifier "--" = .error e) := by
  have hdelete : identifier "delete" = .ok "_delete" := rfl
  have hhyphens : Lexer.IsSymbol "--" := ⟨"--", ⟨.symbol "--", ⟨1, 1⟩⟩, by decide +kernel, rfl⟩
  obtain ⟨hformed, hunreserved⟩ := (identifier_outcome "delete").1 "_delete" hdelete
  have hrefused := ((identifier_outcome "--").2 hhyphens).mpr ⟨'-', by decide, rfl⟩
  exact ⟨hdelete, hformed, hunreserved, hhyphens, hrefused⟩

section Collisions

variable {cs ds : List Char}

/-- The operator runs apart, a symbol without capitals can be told from its camel case. -/
theorem unjoin_camelCase_of_symbolText (h : SymbolText cs)
    (hvalid : isValidName (camelCase cs) = true) (hsmall : ∀ c ∈ cs, isCapital c = false) :
    unjoin (camelCase cs) = cs := by
  cases h with
  | underscore => rfl
  | name hc h => exact unjoin_camelCase (.letter hc h) hsmall
  | operator h =>
      rw [not_isValidName_camelCase h] at hvalid
      cases hvalid

/-- Only the underscore itself becomes a word that begins with one. -/
theorem eq_underscore_of_camelCase (h : SymbolText cs) (hvalid : isValidName (camelCase cs) = true)
    {word : List Char} (hword : camelCase cs = '_' :: word) : word = [] := by
  cases h with
  | underscore => exact (List.cons.inj hword).2.symm
  | name hc h =>
      rw [camelCase_cons (ne_hyphen_of_isLetter hc)] at hword
      rw [(List.cons.inj hword).1] at hc
      exact absurd hc (by decide)
  | operator h =>
      rw [not_isValidName_camelCase h] at hvalid
      cases hvalid

theorem camelCase_ne_underscored (h : SymbolText cs) (hvalid : isValidName (camelCase cs) = true)
    (hds : isValidName (camelCase ds) = true) :
    String.ofList (camelCase cs) ≠ "_" ++ String.ofList (camelCase ds) := by
  intro heq
  have htext := congrArg String.toList heq
  simp only [String.toList_append, String.toList_ofList] at htext
  have hnil : camelCase ds = [] := eq_underscore_of_camelCase h hvalid htext
  rw [hnil] at hds
  cases hds

/-- Symbols that meet in a script have the same camel case. -/
theorem camelCase_eq_of_identifier {a b ident : String} (ha : SymbolText a.toList)
    (hb : SymbolText b.toList) (hident : identifier a = .ok ident)
    (hident' : identifier b = .ok ident) : camelCase a.toList = camelCase b.toList := by
  obtain ⟨hvalid, hcases⟩ := camelCase_of_identifier hident
  obtain ⟨hvalid', hcases'⟩ := camelCase_of_identifier hident'
  rcases hcases with ⟨hplain, -⟩ | ⟨hunderscored, -⟩ <;>
    rcases hcases' with ⟨hplain', -⟩ | ⟨hunderscored', -⟩
  · exact String.ofList_injective (hplain.symm.trans hplain')
  · exact absurd (hplain.symm.trans hunderscored') (camelCase_ne_underscored ha hvalid hvalid')
  · exact absurd (hplain'.symm.trans hunderscored) (camelCase_ne_underscored hb hvalid' hvalid)
  · have htext := congrArg String.toList (hunderscored.symm.trans hunderscored')
    simp only [String.toList_append, String.toList_ofList] at htext
    exact List.append_cancel_left htext

end Collisions

def HasCapital (name : String) : Prop := ∃ c ∈ name.toList, 'A' ≤ c ∧ c ≤ 'Z'

theorem isCapital_of_not_hasCapital {name : String} (h : ¬HasCapital name) :
    ∀ c ∈ name.toList, isCapital c = false :=
  fun c hc ↦ decide_eq_false fun hcapital ↦ h ⟨c, hc, hcapital⟩

/-- Two symbols become the same name of a script only if there is a capital in one of them. -/
theorem identifier_collision {a b ident : String} (ha : Lexer.IsSymbol a) (hb : Lexer.IsSymbol b)
    (hne : a ≠ b) (hident : identifier a = .ok ident) (hident' : identifier b = .ok ident) :
    HasCapital a ∨ HasCapital b := by
  by_contra hsmall
  obtain ⟨hsmall, hsmall'⟩ := not_or.mp hsmall
  have htext := symbolText_of_isSymbol ha
  have htext' := symbolText_of_isSymbol hb
  have hcamel := camelCase_eq_of_identifier htext htext' hident hident'
  have hunjoin := unjoin_camelCase_of_symbolText htext (camelCase_of_identifier hident).1
    (isCapital_of_not_hasCapital hsmall)
  have hunjoin' := unjoin_camelCase_of_symbolText htext' (camelCase_of_identifier hident').1
    (isCapital_of_not_hasCapital hsmall')
  rw [hcamel, hunjoin'] at hunjoin
  exact hne (String.toList_injective hunjoin.symm)

theorem identifier_collision_hyphen :
    Lexer.IsSymbol "a-b" ∧ Lexer.IsSymbol "aB" ∧ "a-b" ≠ "aB" ∧ identifier "a-b" = .ok "aB" ∧
      identifier "aB" = .ok "aB" ∧ (HasCapital "a-b" ∨ HasCapital "aB") := by
  have hhyphen : Lexer.IsSymbol "a-b" :=
    ⟨"a-b", ⟨.symbol "a-b", ⟨1, 1⟩⟩, by decide +kernel, rfl⟩
  have hcapital : Lexer.IsSymbol "aB" := ⟨"aB", ⟨.symbol "aB", ⟨1, 1⟩⟩, by decide +kernel, rfl⟩
  exact ⟨hhyphen, hcapital, by decide, rfl, rfl,
    identifier_collision hhyphen hcapital (by decide) rfl rfl⟩

end Script

end MiniLisp
