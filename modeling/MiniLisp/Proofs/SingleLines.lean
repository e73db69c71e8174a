import MiniLisp.Proofs.LawfulTexts
import MiniLisp.Proofs.Observation
import MiniLisp.Proofs.Partition

/-!
# Text on a single line

Numbers, quoted text and string literals are printed without newlines. So are forms and values whose
names have none, and so is every error: of reading always, and of evaluation where it comes upon no
other names. The lexer finds only such names, so a session meets no others.
-/

namespace MiniLisp

/-- The text has no newline in it. -/
def OneLine (text : String) : Prop := '\n' ∉ text.toList

instance (text : String) : Decidable (OneLine text) := inferInstanceAs (Decidable (_ ∉ _))

@[simp] theorem oneLine_append {a b : String} : OneLine (a ++ b) ↔ OneLine a ∧ OneLine b := by
  simp [OneLine]

@[simp] theorem oneLine_ofList {cs : List Char} : OneLine (String.ofList cs) ↔ '\n' ∉ cs := by
  simp [OneLine]

theorem oneLine_intercalate {separator : String} (hseparator : OneLine separator)
    {texts : List String} (h : ∀ text ∈ texts, OneLine text) :
    OneLine (separator.intercalate texts) := by
  induction texts with
  | nil => exact List.not_mem_nil
  | cons text texts ih =>
      obtain ⟨hhead, htail⟩ := List.forall_mem_cons.mp h
      cases texts with
      | nil => simpa using hhead
      | cons next texts =>
          rw [String.intercalate_cons_cons]
          simp [hhead, hseparator, ih htail]

theorem oneLine_parenthesize {texts : List String} (h : ∀ text ∈ texts, OneLine text) :
    OneLine (parenthesize texts) := by
  have hitems : OneLine (" ".intercalate texts) := oneLine_intercalate (by decide) h
  have hopen : OneLine "(" := by decide
  have hclose : OneLine ")" := by decide
  simp [parenthesize, hitems, hopen, hclose]

section Digits

/-- What holds of the sixteen digits, and of the sign for what is none, holds of all numerals. -/
theorem forall_mem_toDigits {P : Char → Prop} (hdigit : ∀ m < 16, P (Nat.digitChar m))
    (hstar : P '*') (base n : Nat) : ∀ c ∈ Nat.toDigits base n, P c := by
  have hchar : ∀ m, P (Nat.digitChar m) := by
    intro m
    rcases Nat.lt_or_ge m 16 with h | h
    · exact hdigit m h
    · have hother : m.digitChar = '*' := by
        unfold Nat.digitChar
        repeat rw [if_neg (by omega)]
      rwa [hother]
  have hcore : ∀ fuel n ds, (∀ c ∈ ds, P c) → ∀ c ∈ Nat.toDigitsCore base fuel n ds, P c := by
    intro fuel
    induction fuel with
    | zero => exact fun _ _ h ↦ h
    | succ fuel ih =>
        intro n ds h
        have hmore : ∀ c ∈ (n % base).digitChar :: ds, P c :=
          List.forall_mem_cons.mpr ⟨hchar _, h⟩
        rw [Nat.toDigitsCore]
        split
        · exact hmore
        · exact ih _ _ hmore
  exact hcore (n + 1) n [] (List.forall_mem_nil _)

theorem newline_not_mem_toDigits (base n : Nat) : '\n' ∉ Nat.toDigits base n :=
  fun h ↦ forall_mem_toDigits (P := ('\n' ≠ ·)) (by decide) (by decide) base n '\n' h rfl

theorem oneLine_repr (n : Nat) : OneLine n.repr := by
  rw [Nat.repr, oneLine_ofList]
  exact newline_not_mem_toDigits 10 n

theorem oneLine_toString (n : Int) : OneLine (toString n) := by
  cases n with
  | ofNat n => exact oneLine_repr n
  | negSucc n => exact oneLine_append.mpr ⟨by decide, oneLine_repr (n + 1)⟩

theorem newline_not_mem_hexDigits (width n : Nat) : '\n' ∉ Text.hexDigits width n := by
  simp [Text.hexDigits, newline_not_mem_toDigits 16 n]

end Digits

namespace Decimal

theorem newline_not_mem_shortest (x : Double) : '\n' ∉ (shortest x).digits := by
  intro hmem
  obtain ⟨c, k, hpoint⟩ : ∃ c k, shortest x = ofPoint c k := ⟨_, _, rfl⟩
  obtain ⟨z, hz⟩ := eq_trimZeros_append (Nat.toDigits 10 c)
  rw [hpoint] at hmem
  apply newline_not_mem_toDigits 10 c
  rw [hz]
  exact List.mem_append_left _ hmem

variable {d : Decimal} (h : '\n' ∉ d.digits)

include h

theorem newline_not_mem_plain : '\n' ∉ d.plain := by
  have htake : '\n' ∉ d.digits.take d.point.toNat := fun hmem ↦ h (List.mem_of_mem_take hmem)
  have hdrop : '\n' ∉ d.digits.drop d.point.toNat := fun hmem ↦ h (List.mem_of_mem_drop hmem)
  unfold plain
  split
  · simp [h]
  · split
    · simp [h]
    · simp [htake, hdrop]

theorem newline_not_mem_scientific : '\n' ∉ d.scientific := by
  have htake : '\n' ∉ d.digits.take 1 := fun hmem ↦ h (List.mem_of_mem_take hmem)
  have htail : '\n' ∉ d.digits.tail := fun hmem ↦ h (List.mem_of_mem_tail hmem)
  have hplaces := newline_not_mem_toDigits 10 (d.point - 1).natAbs
  unfold scientific
  simp only [List.drop_one]
  split_ifs <;> simp [htake, htail, hplaces]

end Decimal

theorem Double.oneLine_render (x : Double) : OneLine x.render := by
  have hdigits := Decimal.newline_not_mem_plain (Decimal.newline_not_mem_shortest x)
  unfold render
  split
  · decide
  · split
    · split <;> decide
    · split
      · decide
      · rw [oneLine_ofList]
        split <;> simp [hdigits]

theorem Double.oneLine_inspect (x : Double) : OneLine x.inspect := by
  have hshortest := Decimal.newline_not_mem_shortest x
  have hplain := Decimal.newline_not_mem_plain hshortest
  have hscientific := Decimal.newline_not_mem_scientific hshortest
  unfold inspect
  split
  · decide
  · split
    · split <;> decide
    · split
      · split <;> decide
      · rw [oneLine_ofList]
        split_ifs <;> simp [hplain, hscientific]

namespace Text

theorem newline_not_mem_escapeChar (c : Char) : '\n' ∉ escapeChar c := by
  unfold escapeChar
  split
  · decide
  · split
    · decide
    · split
      · decide
      next hc => simpa using Ne.symm hc

theorem oneLine_escape (s : String) : OneLine (escape s) := by
  have hchars : '\n' ∉ s.toList.flatMap escapeChar := by
    intro hmem
    obtain ⟨c, -, hc⟩ := List.mem_flatMap.mp hmem
    exact newline_not_mem_escapeChar c hc
  rw [escape, oneLine_ofList, escapeChars]
  simp [hchars]

theorem newline_not_mem_quoteChar {mark : Char} (hmark : '\n' ≠ mark) (c : Char) :
    '\n' ∉ quoteChar mark c := by
  unfold quoteChar
  split
  next hc => rcases hc with rfl | rfl <;> simp [hmark]
  · split
    · decide
    · have hdigits := newline_not_mem_hexDigits
      split_ifs <;> simp [hdigits]
      next hc _ _ _ => exact Ne.symm hc

theorem oneLine_quote (s : String) : OneLine (quote s) := by
  have hmark : '\n' ≠ quoteMark s.toList := by
    unfold quoteMark
    split <;> decide
  have hchars : '\n' ∉ s.toList.flatMap (quoteChar (quoteMark s.toList)) := by
    intro hmem
    obtain ⟨c, -, hc⟩ := List.mem_flatMap.mp hmem
    exact newline_not_mem_quoteChar hmark c hc
  rw [quote, oneLine_ofList]
  simp [hmark, hchars]

end Text

section Reading

theorem Position.oneLine_render (p : Position) : OneLine p.render := by
  have hopen : OneLine "(" := by decide
  have hcolon : OneLine ":" := by decide
  have hclose : OneLine ")" := by decide
  simp [render, hopen, hcolon, hclose, oneLine_repr]

theorem Token.oneLine_inspect (token : Token) : OneLine token.inspect := by
  cases token with
  | number x => exact x.oneLine_inspect
  | leftParen | rightParen | quoteMark | string | symbol =>
      rw [inspect]
      exact Text.oneLine_quote _

theorem Expected.oneLine_describe (expected : Expected) : OneLine expected.describe := by
  cases expected <;> decide

theorem ParseError.oneLine_message (e : ParseError) : OneLine e.message := by
  have hbefore : OneLine "expected " := by decide
  cases e with
  | unexpectedToken expected found =>
      have hbetween : OneLine ", found " := by decide
      have hspace : OneLine " " := by decide
      unfold message
      simp only [oneLine_append]
      exact ⟨⟨⟨⟨⟨hbefore, expected.oneLine_describe⟩, hbetween⟩, found.token.oneLine_inspect⟩,
        hspace⟩, found.pos.oneLine_render⟩
  | endOfInput expected =>
      have hend : OneLine ", found end of input" := by decide
      unfold message
      simp only [oneLine_append]
      exact ⟨⟨hbefore, expected.oneLine_describe⟩, hend⟩
  | nestingTooDeep limit =>
      have hnested : OneLine "expression nested more than " := by decide
      have hlevels : OneLine " levels deep" := by decide
      unfold message
      simp only [oneLine_append]
      exact ⟨⟨hnested, oneLine_toString limit⟩, hlevels⟩

namespace Lexer

theorem newline_ne_of_isDigit {c : Char} (h : isDigit c = true) : '\n' ≠ c := by
  rintro rfl
  exact absurd h (by decide)

theorem newline_ne_of_isLetter {c : Char} (h : isLetter c = true) : '\n' ≠ c := by
  rintro rfl
  exact absurd h (by decide)

theorem newline_ne_of_isOperator {c : Char} (h : isOperator c = true) : '\n' ≠ c := by
  rintro rfl
  exact absurd h (by decide)

theorem Numeral.Digital.newline_not_mem {n : Numeral} (h : n.Digital) : '\n' ∉ n.text := by
  have hwhole : '\n' ∉ n.whole := fun hmem ↦ newline_ne_of_isDigit (h.isDigit_whole _ hmem) rfl
  have hfraction : '\n' ∉ n.fraction :=
    fun hmem ↦ newline_ne_of_isDigit (h.isDigit_fraction _ hmem) rfl
  rw [text]
  split
  · exact hwhole
  · simp [hwhole, hfraction]

theorem NameTail.newline_not_mem {cs : List Char} (h : NameTail cs) : '\n' ∉ cs := by
  induction h with
  | nil => exact List.not_mem_nil
  | letter hc _ ih => simp [newline_ne_of_isLetter hc, ih]
  | hyphen hc _ ih => simp [newline_ne_of_isLetter hc, ih]

theorem OperatorTail.newline_not_mem {cs rest : List Char} (h : OperatorTail rest cs) :
    '\n' ∉ cs := by
  induction h with
  | nil => exact List.not_mem_nil
  | cons hc _ _ ih => simp [newline_ne_of_isOperator hc, ih]

/-- Of all lexemes only a string literal may go over several lines. -/
theorem Lexeme.newline_not_mem {rest x : List Char} {token : Token} (h : Lexeme rest token x)
    (hstring : ∀ s, token ≠ .string s) : '\n' ∉ x := by
  cases h with
  | number hn => exact hn.newline_not_mem
  | negative hn => simp [hn.newline_not_mem]
  | name hc h => simp [newline_ne_of_isLetter hc, h.newline_not_mem]
  | operator h => exact h.newline_not_mem
  | string => exact absurd rfl (hstring _)
  | underscore | leftParen | rightParen | quoteMark => decide

theorem Lexeme.oneLine_name {rest x : List Char} {name : String}
    (h : Lexeme rest (.symbol name) x) : OneLine name := by
  have hx := h.newline_not_mem (by simp)
  cases h with
  | underscore => decide
  | name | operator => exact oneLine_ofList.mpr hx

theorem Faulty.oneLine_describe {fault : LexFault} {text : List Char} (h : Faulty fault text) :
    OneLine fault.describe := by
  cases h with
  | openComment | openString => decide
  | outOfRange h =>
      have hbefore : OneLine "number out of range: " := by decide
      exact oneLine_append.mpr ⟨hbefore, oneLine_ofList.mpr (h.newline_not_mem (by simp))⟩
  | @unknown c cs hblank =>
      have hbefore : OneLine "unknown character: " := by decide
      have hc : '\n' ≠ c := by
        rintro rfl
        exact absurd hblank (by decide)
      refine oneLine_append.mpr ⟨hbefore, ?_⟩
      simpa [OneLine] using hc

namespace Partition

variable {before text : List Char} {tokens : List PlacedToken} {error : Option LexError}

theorem exists_lexeme (h : Partition before text tokens error) :
    ∀ t ∈ tokens, ∃ rest x, Lexeme rest t.token x := by
  induction h with
  | ended | fault => exact fun _ ht ↦ absurd ht List.not_mem_nil
  | lexeme _ _ h _ _ _ ih => exact List.forall_mem_cons.mpr ⟨⟨_, _, h⟩, ih⟩

theorem exists_faulty (h : Partition before text tokens error) :
    ∀ e, error = some e → ∃ rest, Faulty e.fault rest := by
  induction h with
  | ended =>
      intro e he
      cases he
  | fault _ h =>
      intro e he
      cases he
      exact ⟨_, h⟩
  | lexeme _ _ _ _ _ _ ih => exact ih

end Partition

variable {source : String}

theorem exists_lexeme_of_lex {t : PlacedToken} (ht : t ∈ (lex source).tokens) :
    ∃ rest x, Lexeme rest t.token x := by
  obtain ⟨tokens, htokens, hpartition⟩ := partition_lexFrom [] .start source.toList [] rfl
  rw [lex, htokens] at ht
  exact hpartition.exists_lexeme t ht

theorem exists_faulty_of_lex {e : LexError} (he : (lex source).error = some e) :
    ∃ rest, Faulty e.fault rest := by
  obtain ⟨tokens, -, hpartition⟩ := partition_lexFrom [] .start source.toList [] rfl
  exact hpartition.exists_faulty e he

end Lexer

theorem oneLine_of_lex {source : String} {tokens : List PlacedToken} {e : LexError}
    (h : lex source = ⟨tokens, some e⟩) : OneLine e.message := by
  have herror : (lex source).error = some e := by rw [h]
  obtain ⟨rest, hfaulty⟩ := Lexer.exists_faulty_of_lex herror
  have hspace : OneLine " " := by decide
  simp [LexError.message, hfaulty.oneLine_describe, hspace, Position.oneLine_render]

end Reading

section Evaluation

theorem Form.oneLine_render {form : Form} (h : ∀ name, form.Mentions name → OneLine name) :
    OneLine form.render := by
  induction form using Form.induct with
  | number x => exact x.oneLine_render
  | string s => exact Text.oneLine_escape s
  | symbol name => exact h name (.symbol name)
  | boolean b => cases b <;> decide
  | nil => decide
  | quote inner ih =>
      apply oneLine_parenthesize
      intro text htext
      rcases List.mem_cons.mp htext with rfl | htext
      · decide
      · rw [List.mem_singleton.mp htext]
        exact ih fun name hname ↦ h name (.quote hname)
  | list items ih =>
      rw [render_list]
      apply oneLine_parenthesize
      intro text htext
      obtain ⟨item, hitem, rfl⟩ := List.mem_map.mp htext
      exact ih item hitem fun name hname ↦ h name (.list hitem hname)

/-- Every name is on one line, and so is every error. -/
def Law.oneLine : Law := .naming OneLine fun e ↦ OneLine e.message

theorem oneLine_closureText {params : List String} {body : Form}
    (hparams : ∀ name ∈ params, OneLine name) (hbody : Law.oneLine.form body) :
    OneLine (closureText params body) := by
  apply oneLine_parenthesize
  intro text htext
  simp only [List.mem_cons, List.not_mem_nil, or_false] at htext
  rcases htext with rfl | rfl | rfl
  · decide
  · exact oneLine_parenthesize hparams
  · exact Form.oneLine_render hbody

theorem Primitive.oneLine_name (op : Primitive) : OneLine op.name := by
  cases op <;> decide

theorem Value.Obeys.oneLine_text {v : Value} {size : Nat} (h : v.Obeys Law.oneLine size) :
    OneLine v.text := by
  induction h with
  | boolean b => cases b <;> decide
  | number x => exact x.oneLine_render
  | string s => exact Text.oneLine_escape s
  | symbol h => exact h
  | nil => decide
  | @list items _ ih =>
      rw [Value.text, Value.render, Value.renderItems_eq_map]
      apply oneLine_parenthesize
      intro text htext
      obtain ⟨v, hv, rfl⟩ := List.mem_map.mp htext
      exact ih v hv
  | closure hparams hbody => exact oneLine_closureText hparams hbody
  | native op => exact op.oneLine_name

end Evaluation

end MiniLisp
