import MiniLisp.Proofs.Brackets
import MiniLisp.Proofs.WrittenForms
import MiniLisp.Proofs.SingleLines

/-!
# The text of compiled programs

Every piece that the compiler writes is printable, and leaves the open brackets as they were: names
and numbers have no brackets in them, string literals escape what would end them, and each construct
closes the brackets that it opens around the pieces inside it. So every statement is a balanced line.
-/

namespace MiniLisp.Script

section Atoms

theorem plain_of_isNameChar {c : Char} (h : isNameChar c = true) : Plain c := by
  have hdelimiters : ['\x22', '(', '[', ')', ']'].all (!isNameChar ·) = true := by decide
  refine ⟨?_, fun hmem ↦ by simpa [h] using List.all_eq_true.mp hdelimiters c hmem⟩
  simp only [isNameChar, isNameStart, Bool.or_eq_true, beq_iff_eq] at h
  rcases h with ((hletter | rfl) | rfl) | hdigit
  · have hrange := Lexer.isLetter_iff.mp hletter
    unfold Printable
    omega
  · decide
  · decide
  · have hrange := Lexer.isDigit_iff.mp hdigit
    unfold Printable
    omega

theorem plain_of_isDigit {c : Char} (h : Lexer.isDigit c = true) : Plain c :=
  plain_of_isNameChar (Bool.or_eq_true_iff.mpr (.inr h))

theorem plain_numeral {n : Lexer.Numeral} (h : n.Digital) : ∀ c ∈ n.text, Plain c := by
  have hwhole : ∀ c ∈ n.whole, Plain c := fun c hc ↦ plain_of_isDigit (h.isDigit_whole c hc)
  have hfraction : ∀ c ∈ n.fraction, Plain c :=
    fun c hc ↦ plain_of_isDigit (h.isDigit_fraction c hc)
  have hpoint : Plain '.' := by decide
  unfold Lexer.Numeral.text
  split
  · exact hwhole
  · exact List.forall_mem_append.mpr ⟨hwhole, List.forall_mem_cons.mpr ⟨hpoint, hfraction⟩⟩

theorem render_of_not_isFinite {x : Double} (hx : x.isFinite = false) :
    x.render ∈ ["NaN", "-Infinity", "Infinity"] := by
  have hle : Double.infinityMagnitude ≤ x.magnitude := Nat.not_lt.mp (of_decide_eq_false hx)
  unfold Double.render
  split
  · exact List.mem_cons_self
  next hnan =>
    have hinfinite : x.isInfinite = true := by
      rw [Double.isNaN, decide_eq_true_eq, Nat.not_lt] at hnan
      exact beq_iff_eq.mpr (Nat.le_antisymm hnan hle)
    rw [if_pos hinfinite]
    split <;> simp

theorem neutral_number (x : Double) : Neutral x.render := by
  cases hx : x.isFinite with
  | true =>
      obtain ⟨negative, n, hdigital, -, htext, -⟩ := Double.render_spells hx
      have hminus : Plain '-' := by decide
      apply neutral_of_plain
      rw [htext]
      split
      · exact List.forall_mem_cons.mpr ⟨hminus, plain_numeral hdigital⟩
      · exact plain_numeral hdigital
  | false =>
      have hplain : ∀ text ∈ ["NaN", "-Infinity", "Infinity"],
          text.toList.all (fun c ↦ decide (Plain c)) = true := by decide
      exact neutral_text (hplain _ (render_of_not_isFinite hx))

theorem neutral_identifier {name ident : String} (h : identifier name = .ok ident) :
    Neutral ident := by
  unfold identifier at h
  split at h
  · cases h
  · dsimp only at h
    split at h
    next hvalid =>
      have hword : ∀ c ∈ camelCase name.toList, Plain c := by
        cases hname : camelCase name.toList with
        | nil => exact List.forall_mem_nil _
        | cons c cs =>
            rw [hname] at hvalid
            obtain ⟨hstart, hrest⟩ := Bool.and_eq_true_iff.mp hvalid
            refine List.forall_mem_cons.mpr ⟨?_, fun d hd ↦ ?_⟩
            · exact plain_of_isNameChar (Bool.or_eq_true_iff.mpr (.inl hstart))
            · exact plain_of_isNameChar (List.all_eq_true.mp hrest d hd)
      have hident : Neutral (String.ofList (camelCase name.toList)) :=
        neutral_of_plain (by simpa using hword)
      have hunderscore : Neutral "_" := neutral_text (by decide)
      cases h
      split
      · exact fun opened ↦ (hunderscore opened).append (hident opened)
      · exact hident
    · cases h

/-- The character stands for itself in a string literal. -/
def Literal (c : Char) : Prop := Printable c ∧ c ∉ ['\x22', '\x5c']

instance (c : Char) : Decidable (Literal c) := inferInstanceAs (Decidable (_ ∧ _))

theorem step_of_literal {c : Char} (h : Literal c) (opened : List Bracket) :
    Scanner.step ⟨.literal, opened⟩ c = some ⟨.literal, opened⟩ := by
  have hplain := h.2
  simp only [List.mem_cons, List.not_mem_nil, or_false, not_or] at hplain
  simp [Scanner.step, hplain]

theorem literal_hexDigits (width n : Nat) : ∀ c ∈ Text.hexDigits width n, Literal c := by
  have hzero : Literal '0' := by decide
  refine List.forall_mem_append.mpr ⟨fun c hc ↦ ?_, ?_⟩
  · exact List.eq_of_mem_replicate hc ▸ hzero
  · exact forall_mem_toDigits (by decide) (by decide) 16 n

/-- What a character becomes in a string literal is printable and does not end the literal. -/
theorem literalChar_spec (c : Char) : (∀ d ∈ literalChar c, Printable d) ∧
    ∀ opened, Scanner.scan ⟨.literal, opened⟩ (literalChar c) = some ⟨.literal, opened⟩ := by
  unfold literalChar
  split_ifs with hmark hnewline hreturn htab hbackspace hfeed hprintable
  · rcases hmark with rfl | rfl <;> exact ⟨forall_mem_of_all (by decide), fun _ ↦ rfl⟩
  · exact ⟨forall_mem_of_all (by decide), fun _ ↦ rfl⟩
  · exact ⟨forall_mem_of_all (by decide), fun _ ↦ rfl⟩
  · exact ⟨forall_mem_of_all (by decide), fun _ ↦ rfl⟩
  · exact ⟨forall_mem_of_all (by decide), fun _ ↦ rfl⟩
  · exact ⟨forall_mem_of_all (by decide), fun _ ↦ rfl⟩
  · have hc : Literal c := by
      refine ⟨⟨hprintable.1, Nat.le_of_lt_succ hprintable.2⟩, ?_⟩
      simpa using hmark
    refine ⟨List.forall_mem_singleton.mpr hc.1, fun opened ↦ ?_⟩
    exact Scanner.scan_of_steps (List.forall_mem_singleton.mpr (step_of_literal hc opened))
  · have hbackslash : Printable '\x5c' := by decide
    have hu : Printable 'u' := by decide
    refine ⟨fun d hd ↦ ?_, fun opened ↦ Scanner.scan_flatMap (fun unit ↦ ?_) _⟩
    · obtain ⟨unit, -, hd⟩ := List.mem_flatMap.mp hd
      rcases List.mem_cons.mp hd with rfl | hd
      · exact hbackslash
      · rcases List.mem_cons.mp hd with rfl | hd
        · exact hu
        · exact (literal_hexDigits 4 unit d hd).1
    · change Scanner.scan ⟨.literal, opened⟩ (Text.hexDigits 4 unit) = _
      exact Scanner.scan_of_steps fun d hd ↦ step_of_literal (literal_hexDigits 4 unit d hd) opened

theorem neutral_stringLiteral (s : String) : Neutral (stringLiteral s) := by
  intro opened
  have hquote : Printable '\x22' := by decide
  have hbody : Scanner.scan ⟨.literal, opened⟩ (s.toList.flatMap literalChar) =
      some ⟨.literal, opened⟩ :=
    Scanner.scan_flatMap (fun c ↦ (literalChar_spec c).2 opened) _
  constructor
  · rw [stringLiteral, String.toList_ofList]
    refine List.forall_mem_cons.mpr ⟨hquote, List.forall_mem_append.mpr ⟨fun c hc ↦ ?_, ?_⟩⟩
    · obtain ⟨d, -, hd⟩ := List.mem_flatMap.mp hc
      exact (literalChar_spec d).1 c hd
    · exact List.forall_mem_singleton.mpr hquote
  · rw [stringLiteral, String.toList_ofList, Scanner.scan_cons]
    change Scanner.scan ⟨.literal, opened⟩ (s.toList.flatMap literalChar ++ ['\x22']) = _
    rw [Scanner.scan_append, hbody]
    rfl

end Atoms

section Pieces

variable {o : List Bracket} {items args : List String}

theorem turns_round : Turns "(" o (.round :: o) := turns_text (by decide) rfl

theorem turns_roundEnd : Turns ")" (.round :: o) o := turns_text (by decide) rfl

theorem turns_square : Turns "[" o (.square :: o) := turns_text (by decide) rfl

theorem turns_squareEnd : Turns "]" (.square :: o) o := turns_text (by decide) rfl

theorem neutral_commas (h : ∀ item ∈ items, Neutral item) : Neutral (commas items) :=
  neutral_intercalate (neutral_text (by decide)) h

theorem neutral_array (h : ∀ item ∈ items, Neutral item) : Neutral (array items) :=
  fun o ↦ (turns_square.append (neutral_commas h (.square :: o))).append turns_squareEnd

theorem neutral_call {fn : String} (hfn : Neutral fn) (h : ∀ arg ∈ args, Neutral arg) :
    Neutral (call fn args) :=
  fun o ↦ (((hfn o).append turns_round).append (neutral_commas h _)).append turns_roundEnd

theorem neutral_function {names body : String} (hnames : Neutral names) (hbody : Neutral body) :
    Neutral ("((" ++ names ++ ") => " ++ body ++ ")") := by
  intro o
  have hopen : Turns "((" o (.round :: .round :: o) := turns_text (by decide) rfl
  have harrow : Turns ") => " (.round :: .round :: o) (.round :: o) := turns_text (by decide) rfl
  exact (((hopen.append (hnames _)).append harrow).append (hbody _)).append turns_roundEnd

theorem neutral_choice {test yes no : String} (htest : Neutral test) (hyes : Neutral yes)
    (hno : Neutral no) : Neutral ("(" ++ test ++ " ? " ++ yes ++ " : " ++ no ++ ")") := by
  intro o
  have hmark : Neutral " ? " := neutral_text (by decide)
  have hcolon : Neutral " : " := neutral_text (by decide)
  exact (((((turns_round.append (htest _)).append (hmark _)).append (hyes _)).append
    (hcolon _)).append (hno _)).append turns_roundEnd

theorem neutral_assignment {name value : String} (hname : Neutral name) (hvalue : Neutral value) :
    Neutral ("(" ++ name ++ " = " ++ value ++ ")") := by
  intro o
  have hequals : Neutral " = " := neutral_text (by decide)
  exact (((turns_round.append (hname _)).append (hequals _)).append (hvalue _)).append
    turns_roundEnd

theorem neutral_item {list index : String} (hlist : Neutral list) (hindex : Neutral index) :
    Neutral (list ++ "[" ++ index ++ "]") :=
  fun o ↦ (((hlist o).append turns_square).append (hindex _)).append turns_squareEnd

/-- An operand behind a sign, in brackets with it. -/
theorem neutral_prefixed {sign arg : String} (hsign : ∀ o, Turns sign o (.round :: o))
    (harg : Neutral arg) : Neutral (sign ++ arg ++ ")") :=
  fun o ↦ ((hsign o).append (harg _)).append turns_roundEnd

theorem neutral_boolean (b : Bool) : Neutral (renderBoolean b) :=
  neutral_text (by cases b <;> decide)

theorem neutral_null : Neutral "null" := neutral_text (by decide)

theorem dataItems_eq_map (forms : List Form) : dataItems forms = forms.map data := by
  induction forms with
  | nil => rfl
  | cons form forms ih => rw [dataItems, ih, List.map_cons]

theorem neutral_data (form : Form) : Neutral (data form) := by
  induction form using Form.induct with
  | number x => exact neutral_number x
  | string s => exact neutral_stringLiteral s
  | symbol name => exact neutral_stringLiteral name
  | boolean b => exact neutral_boolean b
  | nil => exact neutral_null
  | quote inner ih =>
      apply neutral_array
      simp only [List.mem_cons, List.not_mem_nil, or_false, forall_eq_or_imp, forall_eq]
      exact ⟨neutral_stringLiteral "quote", ih⟩
  | list items ih =>
      rw [data, dataItems_eq_map]
      exact neutral_array (List.forall_mem_map.mpr ih)

end Pieces

section Operators

variable {args : List String} (op : Operator)

theorem neutral_asFunction : Neutral op.asFunction :=
  fun _ ↦ turns_text (by cases op <;> decide) (by cases op <;> rfl)

/-- The operator between two operands. -/
theorem neutral_between : Neutral (" " ++ op.spelling ++ " ") :=
  neutral_text (by cases op <;> decide)

theorem neutral_comparisons (h : ∀ arg ∈ args, Neutral arg) :
    ∀ text ∈ comparisons op args, Neutral text := by
  induction args with
  | nil => exact List.forall_mem_nil _
  | cons a args ih =>
      obtain ⟨ha, hargs⟩ := List.forall_mem_cons.mp h
      cases args with
      | nil => exact List.forall_mem_nil _
      | cons b rest =>
          have hb := (List.forall_mem_cons.mp hargs).1
          refine List.forall_mem_cons.mpr ⟨fun o ↦ ?_, ih hargs⟩
          have hbetween := ((ha o).append (neutral_between op o)).append (hb o)
          rwa [← String.append_assoc, ← String.append_assoc] at hbetween

theorem neutral_compareAll (h : ∀ arg ∈ args, Neutral arg) {script : String}
    (hscript : compareAll op args = .ok script) : Neutral script := by
  unfold compareAll at hscript
  split at hscript
  · cases hscript
  · cases hscript
    exact neutral_text (by decide)
  · cases hscript
    have hand : Neutral " && " := neutral_text (by decide)
    have hall := neutral_intercalate hand (neutral_comparisons op h)
    exact fun o ↦ (turns_round.append (hall _)).append turns_roundEnd

theorem neutral_operate (h : ∀ arg ∈ args, Neutral arg) {script : String}
    (hscript : operate op args = .ok script) : Neutral script := by
  have hchain : Neutral (chain op args) := fun o ↦
    (turns_round.append (neutral_intercalate (neutral_between op) h _)).append turns_roundEnd
  unfold operate at hscript
  split at hscript
  case h_1 | h_2 =>
      cases hscript
      exact neutral_text (by decide)
  case h_3 | h_4 => cases hscript
  case h_5 | h_6 =>
      cases hscript
      exact List.forall_mem_singleton.mp h
  case h_7 | h_8 =>
      cases hscript
      exact neutral_prefixed (fun _ ↦ turns_text (by decide) rfl) (List.forall_mem_singleton.mp h)
  case h_9 | h_10 | h_11 | h_12 =>
      cases hscript
      exact hchain
  case h_13 => exact neutral_compareAll op h hscript

end Operators

section Forms

theorem neutral_emit {form : Form} {script : String} (h : emit form = .ok script) :
    Neutral script := by
  induction form using Form.induct generalizing script with
  | number x =>
      cases written_of_emit h
      exact neutral_number x
  | string s =>
      cases written_of_emit h
      exact neutral_stringLiteral s
  | boolean b =>
      cases written_of_emit h
      exact neutral_boolean b
  | nil =>
      cases written_of_emit h
      exact neutral_null
  | symbol name =>
      cases written_of_emit h with
      | operatorName => exact neutral_asFunction _
      | name hname => exact neutral_identifier hname
  | quote inner =>
      cases written_of_emit h
      exact neutral_data inner
  | list items ih =>
      have hall {operands : List Form} {texts : List String} (h : EmitsAll operands texts)
          (hsub : operands ⊆ items) : ∀ text ∈ texts, Neutral text :=
        h.forall_mem fun form hform _ htext ↦ ih form (hsub hform) htext
      cases written_of_emit h with
      | empty => exact fun _ ↦ turns_text (by decide) rfl
      | quote _ form => exact neutral_data form
      | list _ htexts => exact neutral_array (hall htexts (List.subset_cons_self _ _))
      | lambda _ _ hidents hbody =>
          have hnames := neutral_commas fun ident hident ↦
            neutral_identifier (hidents ident hident).choose_spec
          exact neutral_function hnames (ih _ (by simp) hbody)
      | conditional _ htest hyes hno =>
          exact neutral_choice (ih _ (by simp) htest) (ih _ (by simp) hyes) (ih _ (by simp) hno)
      | define _ hname hvalue =>
          exact neutral_assignment (neutral_identifier hname) (ih _ (by simp) hvalue)
      | log _ htexts =>
          exact neutral_call (neutral_text (by decide)) (hall htexts (List.subset_cons_self _ _))
      | nth _ hitems hindex => exact neutral_item (ih _ (by simp) hitems) (ih _ (by simp) hindex)
      | not _ harg =>
          exact neutral_prefixed (fun _ ↦ turns_text (by decide) rfl) (ih _ (by simp) harg)
      | operator _ htexts hscript =>
          exact neutral_operate _ (hall htexts (List.subset_cons_self _ _)) hscript
      | call _ hfn htexts =>
          exact neutral_call (neutral_identifier hfn) (hall htexts (List.subset_cons_self _ _))
      | headed hfn htexts =>
          exact neutral_call (ih _ List.mem_cons_self hfn) (hall htexts (List.subset_cons_self _ _))

theorem exists_of_statement {form : Form} {line : String} (h : statement form = .ok line) :
    ∃ text, Neutral text ∧ line = text ++ ";" := by
  unfold statement at h
  split at h
  · obtain ⟨ident, hident, h⟩ := ok_of_bind h
    obtain ⟨value, hvalue, h⟩ := ok_of_bind h
    cases h
    have hvar : Neutral "var " := neutral_text (by decide)
    have hequals : Neutral " = " := neutral_text (by decide)
    refine ⟨_, fun o ↦ ?_, rfl⟩
    exact (((hvar o).append (neutral_identifier hident o)).append (hequals o)).append
      (neutral_emit hvalue o)
  · obtain ⟨text, htext, h⟩ := ok_of_bind h
    cases h
    exact ⟨text, neutral_emit htext, rfl⟩

end Forms

/-- A compiled program has one line for each of its forms. Every line ends with a semicolon, is
printable, and is balanced. -/
theorem compiled_lines {nesting : Int} {source script : String}
    (h : compile nesting source = .ok script) :
    ∃ forms, readForms source nesting = .ok forms ∧ (forms ≠ [] →
      let lines := script.toList.splitOn '\n'
      lines.length = forms.length ∧ ∀ line ∈ lines,
        line.getLast? = some ';' ∧ (∀ c ∈ line, Printable c) ∧ Balanced line) := by
  obtain ⟨forms, statements, hread, hstatements, rfl⟩ := exists_statements_of_compile h
  refine ⟨forms, hread, fun hforms ↦ ?_⟩
  have hall := forall₂_of_mapM hstatements
  have hneutral : ∀ line ∈ statements, Neutral line ∧ line.toList.getLast? = some ';' := by
    intro line hline
    obtain ⟨form, -, hform⟩ := exists_mem_of_mem_right hall hline
    obtain ⟨text, htext, rfl⟩ := exists_of_statement hform
    have hend : Neutral ";" := neutral_text (by decide)
    exact ⟨fun o ↦ (htext o).append (hend o), by simp⟩
  have hnewline : ∀ line ∈ statements.map String.toList, '\n' ∉ line := by
    intro cs hcs hmem
    obtain ⟨line, hline, rfl⟩ := List.mem_map.mp hcs
    exact absurd (((hneutral line hline).1 []).printable '\n' hmem) (by decide)
  have hne : statements.map String.toList ≠ [] := by
    intro hnil
    rw [List.map_eq_nil_iff.mp hnil] at hall
    cases hall
    exact hforms rfl
  have hlines : ("\n".intercalate statements).toList.splitOn '\n' =
      statements.map String.toList := by
    rw [String.toList_intercalate]
    exact List.splitOn_intercalate '\n' hnewline hne
  intro lines
  subst lines
  rw [hlines, List.length_map, hall.length_eq]
  refine ⟨rfl, List.forall_mem_map.mpr fun line hline ↦ ?_⟩
  obtain ⟨hline, hlast⟩ := hneutral line hline
  exact ⟨hlast, (hline []).printable, hline.balanced⟩

/-- The first line has brackets and an escaped quotation mark in a string literal. -/
theorem compiled_lines_bracketString :
    compile 9 "(log \"([\\\"\")\n(nth '(x) 0)" =
      .ok "console.log(\"([\\\"\");\n[\"x\"][0];" ∧
    let lines := "console.log(\"([\\\"\");\n[\"x\"][0];".toList.splitOn '\n'
    lines.length = 2 ∧ ∀ line ∈ lines,
      line.getLast? = some ';' ∧ (∀ c ∈ line, Printable c) ∧ Balanced line := by
  have htokens : tokenize "(log \"([\\\"\")\n(nth '(x) 0)" = .ok [⟨.leftParen, ⟨1, 1⟩⟩,
      ⟨.symbol "log", ⟨1, 2⟩⟩, ⟨.string "([\"", ⟨1, 6⟩⟩, ⟨.rightParen, ⟨1, 12⟩⟩,
      ⟨.leftParen, ⟨2, 1⟩⟩, ⟨.symbol "nth", ⟨2, 2⟩⟩, ⟨.quoteMark, ⟨2, 6⟩⟩, ⟨.leftParen, ⟨2, 7⟩⟩,
      ⟨.symbol "x", ⟨2, 8⟩⟩, ⟨.rightParen, ⟨2, 9⟩⟩, ⟨.number .zero, ⟨2, 11⟩⟩,
      ⟨.rightParen, ⟨2, 12⟩⟩] := by decide +kernel
  have hlex := tokenize_eq_ok_iff.mp htokens
  have hforms : readForms "(log \"([\\\"\")\n(nth '(x) 0)" 9 =
      .ok [.list [.symbol "log", .string "([\""],
        .list [.symbol "nth", .quote (.list [.symbol "x"]), .number .zero]] := by
    rw [readForms_eq_answer, TokenStream.lazy, hlex, TokenStream.readForms,
      TokenStream.readFormsFrom_of_readForm_ok rfl, TokenStream.readFormsFrom_of_readForm_ok rfl,
      TokenStream.readFormsFrom_nil]
    rfl
  have hcompile : compile 9 "(log \"([\\\"\")\n(nth '(x) 0)" =
      .ok "console.log(\"([\\\"\");\n[\"x\"][0];" := by
    rw [compile, hforms]
    rfl
  obtain ⟨forms, hread, hlines⟩ := compiled_lines hcompile
  rw [hforms] at hread
  cases hread
  exact ⟨hcompile, hlines (List.cons_ne_nil _ _)⟩

end MiniLisp.Script
