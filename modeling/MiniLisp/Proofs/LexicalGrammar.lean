import MiniLisp.Proofs.Lexemes

/-!
# The lexical grammar

What may stand between tokens, and what text is a lexeme for which token. A rule may look at one
character behind the lexeme. The piece that the lexer finds at a character is a lexeme of the
grammar, and no longer one begins there.
-/

namespace MiniLisp

namespace Lexer

/-- Blanks and comments; a comment ends at the first closing bracket. -/
inductive Gap : List Char → Prop
  | nil : Gap []
  | blank {c : Char} {cs : List Char} (hc : Text.isBlank c = true) (h : Gap cs) : Gap (c :: cs)
  | comment {body cs : List Char} (hbody : ']' ∉ body) (h : Gap cs) :
      Gap ('[' :: (body ++ ']' :: cs))

/-- What follows the first letter of a name: letters, and hyphens before a letter. -/
inductive NameTail : List Char → Prop
  | nil : NameTail []
  | letter {c : Char} {cs : List Char} (hc : isLetter c = true) (h : NameTail cs) :
      NameTail (c :: cs)
  | hyphen {c : Char} {cs : List Char} (hc : isLetter c = true) (h : NameTail cs) :
      NameTail ('-' :: c :: cs)

/-- Operator characters in front of the rest, no minus sign among them before a digit. -/
inductive OperatorTail (rest : List Char) : List Char → Prop
  | nil : OperatorTail rest []
  | cons {c : Char} {cs : List Char} (hc : isOperator c = true)
      (hminus : c = '-' → startsWithDigit (cs ++ rest) = false) (h : OperatorTail rest cs) :
      OperatorTail rest (c :: cs)

/-- Text between quotation marks, and what it stands for. -/
inductive StringText : List Char → List Char → Prop
  | nil : StringText [] []
  | plain {c : Char} {raw text : List Char} (hquotation : c ≠ '\x22') (hbackslash : c ≠ '\x5c')
      (h : StringText raw text) : StringText (c :: raw) (c :: text)
  | escape {c d : Char} {raw text : List Char} (hc : unescape? c = some d)
      (h : StringText raw text) : StringText ('\x5c' :: c :: raw) (d :: text)
  | backslash {c : Char} {raw text : List Char} (hc : unescape? c = none)
      (h : StringText (c :: raw) text) : StringText ('\x5c' :: c :: raw) ('\x5c' :: text)

/-- In front of the rest, the text is a lexeme for the token; a number may be out of range. -/
inductive Lexeme (rest : List Char) : Token → List Char → Prop
  | number {n : Numeral} (hn : n.Digital) :
      Lexeme rest (.number (Double.ofDecimal false n.whole n.fraction)) n.text
  | negative {n : Numeral} (hn : n.Digital) :
      Lexeme rest (.number (Double.ofDecimal true n.whole n.fraction)) ('-' :: n.text)
  | underscore : Lexeme rest (.symbol "_") ['_']
  | name {c : Char} {cs : List Char} (hc : isLetter c = true) (h : NameTail cs) :
      Lexeme rest (.symbol (String.ofList (c :: cs))) (c :: cs)
  | operator {c : Char} {cs : List Char} (h : OperatorTail rest (c :: cs)) :
      Lexeme rest (.symbol (String.ofList (c :: cs))) (c :: cs)
  | string {raw text : List Char} (h : StringText raw text) :
      Lexeme rest (.string (String.ofList text)) ('\x22' :: (raw ++ ['\x22']))
  | leftParen : Lexeme rest .leftParen ['(']
  | rightParen : Lexeme rest .rightParen [')']
  | quoteMark : Lexeme rest .quoteMark ['\x27']

theorem Gap.of_blanks {cs : List Char} (h : ∀ c ∈ cs, Text.isBlank c = true) : Gap cs := by
  induction cs with
  | nil => exact .nil
  | cons c cs ih =>
      obtain ⟨hc, hcs⟩ := List.forall_mem_cons.mp h
      exact .blank hc (ih hcs)

theorem Gap.append {a b : List Char} (ha : Gap a) (hb : Gap b) : Gap (a ++ b) := by
  induction ha with
  | nil => exact hb
  | blank hc _ ih => exact .blank hc ih
  | @comment body cs hbody _ ih => simpa using Gap.comment hbody ih

section Names

theorem NameTail.of_letter {c : Char} {cs : List Char} (hc : isLetter c = true)
    (h : NameTail (c :: cs)) : NameTail cs := by
  cases h with
  | letter _ h => exact h
  | hyphen => exact absurd hc (by decide)

theorem nameTail_nameRest (cs : List Char) : NameTail (nameRest cs) := by
  induction cs with
  | nil => exact .nil
  | cons c cs ih =>
      rw [nameRest]
      split
      next hgoes =>
        by_cases hletter : isLetter c = true
        · exact .letter hletter ih
        have hhyphen : c = '-' ∧ startsWithLetter cs = true := by simpa [hletter] using hgoes
        obtain ⟨rfl, hstart⟩ := hhyphen
        cases cs with
        | nil => cases hstart
        | cons d ds =>
            have hd : isLetter d = true := hstart
            have hnext : nameRest (d :: ds) = d :: nameRest ds := by
              rw [nameRest, hd, Bool.true_or, if_pos rfl]
            rw [hnext] at ih ⊢
            exact .hyphen hd (ih.of_letter hd)
      next => exact .nil

theorem exists_nameRest_append (cs : List Char) : ∃ rest, cs = nameRest cs ++ rest := by
  induction cs with
  | nil => exact ⟨[], rfl⟩
  | cons c cs ih =>
      rw [nameRest]
      split
      · obtain ⟨rest, hrest⟩ := ih
        exact ⟨rest, by rw [List.cons_append, ← hrest]⟩
      · exact ⟨c :: cs, rfl⟩

theorem NameTail.length_le {cs : List Char} (h : NameTail cs) (rest : List Char) :
    cs.length ≤ (nameRest (cs ++ rest)).length := by
  induction h with
  | nil => exact Nat.zero_le _
  | letter hc _ ih => simpa [nameRest, hc] using ih
  | hyphen hc _ ih => simpa [nameRest, startsWithLetter, hc] using ih

end Names

section Operators

theorem exists_operatorRun_append (cs : List Char) : ∃ rest, cs = operatorRun cs ++ rest := by
  induction cs with
  | nil => exact ⟨[], rfl⟩
  | cons c cs ih =>
      rw [operatorRun]
      split
      · obtain ⟨rest, hrest⟩ := ih
        exact ⟨rest, by rw [List.cons_append, ← hrest]⟩
      · exact ⟨c :: cs, rfl⟩

theorem operatorTail_operatorRun {cs rest : List Char} (h : cs = operatorRun cs ++ rest) :
    OperatorTail rest (operatorRun cs) := by
  induction cs with
  | nil => exact .nil
  | cons c cs ih =>
      rw [operatorRun] at h ⊢
      split at h
      next hgoes =>
        have hrest : cs = operatorRun cs ++ rest := (List.cons.inj h).2
        obtain ⟨hc, hminus⟩ := Bool.and_eq_true_iff.mp hgoes
        rw [if_pos hgoes]
        refine .cons hc (fun heq ↦ ?_) (ih hrest)
        rw [← hrest]
        simpa [heq] using hminus
      next hstops =>
        rw [if_neg hstops]
        exact .nil

theorem OperatorTail.length_le {cs rest : List Char} (h : OperatorTail rest cs) :
    cs.length ≤ (operatorRun (cs ++ rest)).length := by
  induction h with
  | nil => exact Nat.zero_le _
  | @cons c cs hc hminus _ ih =>
      have hgoes : (isOperator c && !(c == '-' && startsWithDigit (cs ++ rest))) = true := by
        by_cases heq : c = '-'
        · subst heq
          simp [hc, hminus]
        · simp [hc, heq]
      rw [List.cons_append, operatorRun, if_pos hgoes]
      exact Nat.succ_le_succ ih

end Operators

section Comments

theorem idxOf?_closing_eq_some {cs : List Char} {n : Nat} (h : cs.idxOf? ']' = some n) :
    ∃ body rest, cs = body ++ ']' :: rest ∧ ']' ∉ body ∧ body.length = n := by
  obtain ⟨hn, hclosing, hbefore⟩ := List.idxOf?_eq_some_iff.mp h
  refine ⟨cs.take n, cs.drop (n + 1), ?_, fun hmem ↦ ?_, List.length_take_of_le hn.le⟩
  · rw [← hclosing, List.getElem_cons_drop, List.take_append_drop]
  · obtain ⟨i, hi, hbracket⟩ := List.mem_take_iff_getElem.mp hmem
    exact hbefore i (by omega) hbracket

theorem idxOf?_closing_append {body : List Char} (h : ']' ∉ body) (rest : List Char) :
    (body ++ ']' :: rest).idxOf? ']' = some body.length := by
  refine List.idxOf?_eq_some_iff.mpr ⟨by simp, by simp, fun i hi hbracket ↦ ?_⟩
  rw [List.getElem_append_left hi] at hbracket
  exact h (hbracket ▸ List.getElem_mem hi)

end Comments

section Strings

theorem StringText.stringBody {raw text : List Char} (h : StringText raw text)
    (done rest : List Char) :
    Lexer.stringBody done (raw ++ '\x22' :: rest) = some (done.reverse ++ text, rest) := by
  induction h generalizing done with
  | nil => simpa using stringBody_quotation done rest
  | plain hquotation hbackslash _ ih =>
      rw [List.cons_append, stringBody_cons done _ hquotation hbackslash, ih]
      simp
  | escape hc _ ih => simp [Lexer.stringBody, hc, ih]
  | backslash hc _ ih =>
      rw [List.cons_append] at ih
      simp [Lexer.stringBody, hc, ih]

theorem exists_stringText {done cs text rest : List Char}
    (h : stringBody done cs = some (text, rest)) : ∃ raw tail,
      text = done.reverse ++ tail ∧ StringText raw tail ∧ cs = raw ++ '\x22' :: rest := by
  induction done, cs using stringBody.induct with
  | case1 done => simp [stringBody] at h
  | case2 done cs =>
      rw [stringBody_quotation] at h
      cases h
      exact ⟨[], [], by simp, .nil, rfl⟩
  | case3 done => simp [stringBody] at h
  | case4 done c cs d hc hslash ih =>
      have h : stringBody (d :: done) cs = some (text, rest) := by simpa [stringBody, hc] using h
      obtain ⟨raw, tail, rfl, hraw, rfl⟩ := ih h
      exact ⟨_, d :: tail, by simp, .escape hc hraw, rfl⟩
  | case5 done c cs hc hslash ih =>
      have h : stringBody ('\x5c' :: done) (c :: cs) = some (text, rest) := by
        simpa [stringBody, hc] using h
      obtain ⟨raw, tail, rfl, hraw, hcs⟩ := ih h
      cases raw with
      | nil =>
          have heq : c = '\x22' := (List.cons.inj hcs).1
          rw [heq] at hc
          cases hc
      | cons d raw =>
          obtain ⟨rfl, rfl⟩ := List.cons.inj hcs
          exact ⟨_, '\x5c' :: tail, by simp, .backslash hc hraw, rfl⟩
  | case6 done c cs hquotation hbackslash ih =>
      rw [stringBody_cons done cs hquotation hbackslash] at h
      obtain ⟨raw, tail, rfl, hraw, rfl⟩ := ih h
      exact ⟨c :: raw, c :: tail, by simp, .plain hquotation hbackslash hraw, rfl⟩

end Strings

section Numerals

theorem exists_fractionDigits_append {cs ds : List Char} {d : Char}
    (h : fractionDigits cs = d :: ds) : ∃ rest, cs = '.' :: (d :: ds ++ rest) := by
  unfold fractionDigits at h
  split at h
  next tail =>
    refine ⟨tail.dropWhile isDigit, ?_⟩
    rw [← h, List.takeWhile_append_dropWhile]
  next => nomatch h

theorem exists_scan_append (cs : List Char) : ∃ rest, cs = (Numeral.scan cs).text ++ rest := by
  have hcs : cs = cs.takeWhile isDigit ++ cs.dropWhile isDigit :=
    List.takeWhile_append_dropWhile.symm
  cases hfraction : fractionDigits (cs.dropWhile isDigit) with
  | nil => exact ⟨cs.dropWhile isDigit, by simp [Numeral.scan, Numeral.text, hfraction]⟩
  | cons d ds =>
      obtain ⟨rest, hrest⟩ := exists_fractionDigits_append hfraction
      refine ⟨rest, ?_⟩
      rw [hrest] at hcs
      simpa [Numeral.scan, Numeral.text, hfraction] using hcs

theorem length_whole_le (n : Numeral) : n.whole.length ≤ n.text.length := by
  unfold Numeral.text
  split <;> simp

theorem length_text_le_scan {n : Numeral} (hn : n.Digital) (rest : List Char) :
    n.text.length ≤ (Numeral.scan (n.text ++ rest)).text.length := by
  obtain ⟨whole, fraction⟩ := n
  cases fraction with
  | nil =>
      have hwhole : (Numeral.scan (whole ++ rest)).whole = whole ++ rest.takeWhile isDigit :=
        List.takeWhile_append_of_pos hn.isDigit_whole
      have hle := length_whole_le (Numeral.scan (whole ++ rest))
      rw [hwhole, List.length_append] at hle
      exact Nat.le_of_add_right_le hle
  | cons d ds =>
      have hpoint : startsWithDigit ('.' :: (d :: ds ++ rest)) = false := rfl
      obtain ⟨htake, hdrop⟩ := takeWhile_isDigit_append hn.isDigit_whole hpoint
      have hscan : Numeral.scan (whole ++ '.' :: (d :: ds ++ rest)) =
          ⟨whole, d :: ds ++ rest.takeWhile isDigit⟩ := by
        rw [Numeral.scan, htake, hdrop, fractionDigits,
          List.takeWhile_append_of_pos hn.isDigit_fraction]
      have htext : (Numeral.mk whole (d :: ds)).text ++ rest =
          whole ++ '.' :: (d :: ds ++ rest) := by
        simp [Numeral.text]
      rw [htext, hscan]
      simp [Numeral.text]

theorem digital_scan {cs : List Char} (h : startsWithDigit cs = true) :
    (Numeral.scan cs).Digital := by
  refine ⟨?_, fun c hc ↦ List.mem_takeWhile_imp hc, fun c hc ↦ ?_⟩
  · cases cs with
    | nil => cases h
    | cons c cs =>
        have hc : isDigit c = true := h
        simp [Numeral.scan, hc]
  · simp only [Numeral.scan, fractionDigits] at hc
    split at hc
    · exact List.mem_takeWhile_imp hc
    · cases hc

end Numerals

/-- A number in range is a lexeme that ends where its text does; another is a fault. -/
theorem numberPiece_cases (negative : Bool) (text : List Char) (n : Numeral) :
    (numberPiece negative text n =
        .lexeme (.number (Double.ofDecimal negative n.whole n.fraction)) (text.length - 1) ∧
      (Double.ofDecimal negative n.whole n.fraction).isInfinite = false) ∨
    (numberPiece negative text n = .fault (.numberOutOfRange (String.ofList text)) ∧
      (Double.ofDecimal negative n.whole n.fraction).isInfinite = true) := by
  by_cases hrange : (Double.ofDecimal negative n.whole n.fraction).isInfinite = true
  · exact .inr ⟨if_pos hrange, hrange⟩
  · exact .inl ⟨if_neg hrange, Bool.eq_false_iff.mpr hrange⟩

theorem numberPiece_eq_lexeme {negative : Bool} {text : List Char} {n : Numeral} {token : Token}
    {more : Nat} (h : numberPiece negative text n = .lexeme token more) :
    token = .number (Double.ofDecimal negative n.whole n.fraction) ∧ more = text.length - 1 ∧
      (Double.ofDecimal negative n.whole n.fraction).isInfinite = false := by
  rcases numberPiece_cases negative text n with ⟨hpiece, hrange⟩ | ⟨hpiece, -⟩
  · cases hpiece.symm.trans h
    exact ⟨rfl, rfl, hrange⟩
  · cases hpiece.symm.trans h

theorem numberPiece_eq_fault {negative : Bool} {text : List Char} {n : Numeral} {fault : LexFault}
    (h : numberPiece negative text n = .fault fault) :
    fault = .numberOutOfRange (String.ofList text) ∧
      (Double.ofDecimal negative n.whole n.fraction).isInfinite = true := by
  rcases numberPiece_cases negative text n with ⟨hpiece, -⟩ | ⟨hpiece, hrange⟩
  · cases hpiece.symm.trans h
  · cases hpiece.symm.trans h
    exact ⟨rfl, hrange⟩

theorem numberPiece_ne_gap {negative : Bool} {text : List Char} {n : Numeral} {more : Nat} :
    numberPiece negative text n ≠ .gap more := by
  intro h
  rcases numberPiece_cases negative text n with ⟨hpiece, -⟩ | ⟨hpiece, -⟩
  · cases hpiece.symm.trans h
  · cases hpiece.symm.trans h

theorem numberPiece_ne_unknown {negative : Bool} {text : List Char} {n : Numeral} {d : Char} :
    numberPiece negative text n ≠ .fault (.unknownCharacter d) := by
  intro h
  cases (numberPiece_eq_fault h).1

theorem length_text_pos {n : Numeral} (hn : n.Digital) : 0 < n.text.length :=
  Nat.lt_of_lt_of_le (List.length_pos_iff.mpr hn.whole_ne_nil) (length_whole_le n)

/-- No lexeme of any rule that begins where the text does is longer. -/
def Longest (text rest : List Char) : Prop :=
  ∀ token other more, Lexeme more token other → other ++ more = text ++ rest →
    other.length ≤ text.length

/-- The number of characters that are read as one piece; none where no lexeme begins. -/
def Piece.reach : Piece → Nat
  | .gap _ => 0
  | .lexeme _ more => more + 1
  | .fault (.numberOutOfRange text) => text.toList.length
  | .fault _ => 0

theorem reach_numberPiece {negative : Bool} {text : List Char} {n : Numeral}
    (h : 0 < text.length) : (numberPiece negative text n).reach = text.length := by
  rcases numberPiece_cases negative text n with ⟨hpiece, -⟩ | ⟨hpiece, -⟩
  · rw [hpiece, Piece.reach]
    omega
  · simp [hpiece, Piece.reach]

theorem Lexeme.length_le_reach {c : Char} {cs x rest : List Char} {token : Token}
    (h : Lexeme rest token x) (heq : x ++ rest = c :: cs) : x.length ≤ (piece c cs).reach := by
  cases h with
  | @number n hn =>
      obtain ⟨d, ds, htext, hd⟩ := text_eq_cons hn
      have hlength := length_text_le_scan hn rest
      have hc : d = c := by
        rw [htext] at heq
        exact (List.cons.inj heq).1
      rw [heq] at hlength
      rw [piece_digit cs (hc ▸ hd),
        reach_numberPiece (Nat.lt_of_lt_of_le (length_text_pos hn) hlength)]
      exact hlength
  | @negative n hn =>
      rw [List.cons_append] at heq
      obtain ⟨rfl, rfl⟩ := List.cons.inj heq
      obtain ⟨d, ds, htext, hd⟩ := text_eq_cons hn
      have hstart : startsWithDigit (n.text ++ rest) = true := by
        rw [htext]
        exact hd
      rw [piece_minus _ hstart, reach_numberPiece (by simp)]
      exact Nat.succ_le_succ (length_text_le_scan hn rest)
  | underscore =>
      rw [List.cons_append] at heq
      obtain ⟨rfl, rfl⟩ := List.cons.inj heq
      exact Nat.le_refl 1
  | name hc htail =>
      rw [List.cons_append] at heq
      obtain ⟨rfl, rfl⟩ := List.cons.inj heq
      rw [piece_letter _ hc]
      exact Nat.succ_le_succ (htail.length_le rest)
  | operator h =>
      rw [List.cons_append] at heq
      obtain ⟨rfl, rfl⟩ := List.cons.inj heq
      cases h with
      | cons hc hminus htail =>
          rw [piece_operator _ hc hminus]
          exact Nat.succ_le_succ htail.length_le
  | @string raw text htext =>
      rw [List.cons_append] at heq
      obtain ⟨rfl, rfl⟩ := List.cons.inj heq
      rw [List.append_assoc, List.singleton_append, piece_quotation, htext.stringBody]
      simp only [Piece.reach, List.length_append, List.length_cons, List.length_nil]
      omega
  | leftParen | rightParen | quoteMark =>
      rw [List.cons_append] at heq
      obtain ⟨rfl, rfl⟩ := List.cons.inj heq
      exact Nat.le_refl 1

theorem longest_of_reach {c : Char} {cs x rest : List Char} (heq : x ++ rest = c :: cs)
    (h : (piece c cs).reach = x.length) : Longest x rest := by
  intro token other more hother hmore
  rw [← h]
  exact hother.length_le_reach (hmore.trans heq)

theorem Lexeme.ne_nil {rest x : List Char} {token : Token} (h : Lexeme rest token x) : x ≠ [] := by
  cases h with
  | number hn => exact List.length_pos_iff.mp (length_text_pos hn)
  | negative | underscore | name | operator | string | leftParen | rightParen | quoteMark =>
      exact List.cons_ne_nil _ _

/-- The lexeme that the lexer finds is one of the grammar, and a number in range. -/
theorem exists_lexeme_of_piece {c : Char} {cs : List Char} {token : Token} {more : Nat}
    (h : piece c cs = .lexeme token more) : ∃ x rest, x ++ rest = c :: cs ∧ x.length = more + 1 ∧
      Lexeme rest token x ∧ ∀ d, token = .number d → d.isInfinite = false := by
  have hbegins := begins_piece c cs
  rw [h] at hbegins
  generalize hpiece : Piece.lexeme token more = found at hbegins
  cases hbegins with
  | blank | comment | openComment | openString | unknown => nomatch hpiece
  | number hdigit =>
      have hdigital : (Numeral.scan (c :: cs)).Digital := digital_scan hdigit
      obtain ⟨rfl, rfl, hrange⟩ := numberPiece_eq_lexeme hpiece.symm
      obtain ⟨rest, hrest⟩ := exists_scan_append (c :: cs)
      have hpos := length_text_pos hdigital
      refine ⟨_, rest, hrest.symm, by omega, .number hdigital, ?_⟩
      rintro d ⟨⟩
      exact hrange
  | negative hdigit =>
      have hdigital : (Numeral.scan cs).Digital := digital_scan hdigit
      obtain ⟨rfl, rfl, hrange⟩ := numberPiece_eq_lexeme hpiece.symm
      obtain ⟨rest, hrest⟩ := exists_scan_append cs
      refine ⟨_, rest, congrArg (List.cons '-') hrest.symm, by simp, .negative hdigital, ?_⟩
      rintro d ⟨⟩
      exact hrange
  | name hletter =>
      obtain ⟨rfl, rfl⟩ := Piece.lexeme.inj hpiece
      obtain ⟨rest, hrest⟩ := exists_nameRest_append cs
      exact ⟨c :: nameRest cs, rest, congrArg (List.cons c) hrest.symm, rfl,
        .name hletter (nameTail_nameRest cs), nofun⟩
  | underscore =>
      obtain ⟨rfl, rfl⟩ := Piece.lexeme.inj hpiece
      exact ⟨['_'], cs, rfl, rfl, .underscore, nofun⟩
  | operator hoperator hminus =>
      obtain ⟨rfl, rfl⟩ := Piece.lexeme.inj hpiece
      obtain ⟨rest, hrest⟩ := exists_operatorRun_append cs
      refine ⟨c :: operatorRun cs, rest, congrArg (List.cons c) hrest.symm, rfl,
        .operator ?_, nofun⟩
      refine .cons hoperator (fun heq ↦ ?_) (operatorTail_operatorRun hrest)
      rw [← hrest]
      exact hminus heq
  | @string text rest hbody =>
      obtain ⟨rfl, rfl⟩ := Piece.lexeme.inj hpiece
      obtain ⟨raw, tail, rfl, hraw, rfl⟩ := exists_stringText hbody
      refine ⟨_, rest, ?_, ?_, .string hraw, nofun⟩
      · simp
      · simp only [List.length_cons, List.length_append, List.length_nil]
        omega
  | leftParen =>
      obtain ⟨rfl, rfl⟩ := Piece.lexeme.inj hpiece
      exact ⟨['('], cs, rfl, rfl, .leftParen, nofun⟩
  | rightParen =>
      obtain ⟨rfl, rfl⟩ := Piece.lexeme.inj hpiece
      exact ⟨[')'], cs, rfl, rfl, .rightParen, nofun⟩
  | quoteMark =>
      obtain ⟨rfl, rfl⟩ := Piece.lexeme.inj hpiece
      exact ⟨['\x27'], cs, rfl, rfl, .quoteMark, nofun⟩

/-- Text at which no piece begins, and what is wrong with it. -/
inductive Faulty : LexFault → List Char → Prop
  | openComment {cs : List Char} (h : ']' ∉ cs) : Faulty .unterminatedComment ('[' :: cs)
  | openString {cs : List Char}
      (h : ∀ raw text rest, StringText raw text → cs ≠ raw ++ '\x22' :: rest) :
      Faulty .unterminatedString ('\x22' :: cs)
  | outOfRange {x rest : List Char} {d : Double} (h : Lexeme rest (.number d) x)
      (hlongest : Longest x rest) (hrange : d.isInfinite = true) :
      Faulty (.numberOutOfRange (String.ofList x)) (x ++ rest)
  | unknown {c : Char} {cs : List Char} (hblank : Text.isBlank c = false) (hbracket : c ≠ '[')
      (h : ∀ rest token x, ¬Lexeme rest token (c :: x)) : Faulty (.unknownCharacter c) (c :: cs)

/-- The character begins no piece, whatever follows. -/
structure Unknown (c : Char) : Prop where
  isBlank : Text.isBlank c = false
  ne_bracket : c ≠ '['
  isDigit : isDigit c = false
  isLetter : isLetter c = false
  ne_underscore : c ≠ '_'
  isOperator : isOperator c = false
  ne_quotation : c ≠ '\x22'
  ne_leftParen : c ≠ '('
  ne_rightParen : c ≠ ')'
  ne_quoteMark : c ≠ '\x27'

theorem Unknown.piece {c : Char} (h : Unknown c) (cs : List Char) :
    Lexer.piece c cs = .fault (.unknownCharacter c) := by
  have hminus : c ≠ '-' := fun heq ↦ by
    have hoperator := h.isOperator
    rw [heq] at hoperator
    exact absurd hoperator (by decide)
  simp [Lexer.piece, h.isBlank, h.ne_bracket, h.isDigit, h.isLetter, h.ne_underscore,
    h.isOperator, h.ne_quotation, h.ne_leftParen, h.ne_rightParen, h.ne_quoteMark, hminus]

theorem unknown_of_piece {c d : Char} {cs : List Char}
    (h : piece c cs = .fault (.unknownCharacter d)) : d = c ∧ Unknown c := by
  have hunknown : Unknown c := {
    isBlank := Bool.eq_false_iff.mpr fun hc ↦ by
      rw [piece, if_pos hc] at h
      cases h
    ne_bracket := by
      rintro rfl
      cases hclose : cs.idxOf? ']' <;> simp [piece, hclose, Text.isBlank, Text.inRanges,
        Text.blankRanges] at h
    isDigit := Bool.eq_false_iff.mpr fun hc ↦ numberPiece_ne_unknown ((piece_digit cs hc) ▸ h)
    isLetter := Bool.eq_false_iff.mpr fun hc ↦ by
      rw [piece_letter cs hc] at h
      cases h
    ne_underscore := by
      rintro rfl
      cases h
    isOperator := Bool.eq_false_iff.mpr fun hc ↦ by
      by_cases hminus : c = '-' ∧ startsWithDigit cs = true
      · obtain ⟨rfl, hdigit⟩ := hminus
        exact numberPiece_ne_unknown ((piece_minus cs hdigit) ▸ h)
      · rw [piece_operator cs hc fun heq ↦
          Bool.eq_false_iff.mpr fun hdigit ↦ hminus ⟨heq, hdigit⟩] at h
        cases h
    ne_quotation := by
      rintro rfl
      rw [piece_quotation] at h
      cases hbody : stringBody [] cs <;> simp [hbody] at h
    ne_leftParen := by
      rintro rfl
      cases h
    ne_rightParen := by
      rintro rfl
      cases h
    ne_quoteMark := by
      rintro rfl
      cases h }
  rw [hunknown.piece] at h
  cases h
  exact ⟨rfl, hunknown⟩

theorem Unknown.not_lexeme {c : Char} (h : Unknown c) (rest : List Char) (token : Token)
    (x : List Char) : ¬Lexeme rest token (c :: x) := by
  intro hx
  have hle := hx.length_le_reach (List.cons_append ..)
  simp [h.piece, Piece.reach] at hle

/-- Where the lexer finds no piece, the grammar has none, and the fault says why. -/
theorem faulty_of_piece {c : Char} {cs : List Char} {fault : LexFault}
    (h : piece c cs = .fault fault) : Faulty fault (c :: cs) := by
  have hbegins := begins_piece c cs
  rw [h] at hbegins
  generalize hpiece : Piece.fault fault = found at hbegins
  cases hbegins with
  | blank | comment | name | underscore | operator | string | leftParen | rightParen | quoteMark =>
      nomatch hpiece
  | openComment hclose =>
      cases hpiece
      exact .openComment (List.idxOf?_eq_none_iff.mp hclose)
  | number hdigit =>
      have hdigital : (Numeral.scan (c :: cs)).Digital := digital_scan hdigit
      obtain ⟨rfl, hrange⟩ := numberPiece_eq_fault hpiece.symm
      obtain ⟨rest, hrest⟩ := exists_scan_append (c :: cs)
      have hlongest := longest_of_reach hrest.symm (by rw [h]; simp [Piece.reach])
      have hfaulty := Faulty.outOfRange (.number hdigital) hlongest hrange
      rwa [← hrest] at hfaulty
  | negative hdigit =>
      have hdigital : (Numeral.scan cs).Digital := digital_scan hdigit
      obtain ⟨rfl, hrange⟩ := numberPiece_eq_fault hpiece.symm
      obtain ⟨rest, hrest⟩ := exists_scan_append cs
      have heq : '-' :: (Numeral.scan cs).text ++ rest = '-' :: cs :=
        congrArg (List.cons '-') hrest.symm
      have hlongest := longest_of_reach heq (by rw [h]; simp [Piece.reach])
      rw [← heq]
      exact .outOfRange (.negative hdigital) hlongest hrange
  | openString hbody =>
      cases hpiece
      refine .openString fun raw text rest htext heq ↦ ?_
      rw [heq, htext.stringBody] at hbody
      nomatch hbody
  | unknown =>
      cases hpiece
      obtain ⟨-, hunknown⟩ := unknown_of_piece h
      exact .unknown hunknown.isBlank hunknown.ne_bracket fun rest token x ↦
        hunknown.not_lexeme rest token x

end Lexer

end MiniLisp
