import MiniLisp.Proofs.ShortestDecimal
import MiniLisp.Text.Escape

/-!
# Lexemes on their own

A lexeme ends before a character that no name, number or operator goes on with. Cut off there, it is
read again as the same token; so is the text that a token is printed as, a zero losing its sign.
-/

namespace MiniLisp

namespace Lexer

/-- Whether no name, number or operator goes on with this text. -/
def stops : List Char → Bool
  | [] => true
  | c :: _ => !isLetter c && !isDigit c && !isOperator c && c != '.'

/-- In front of a stop, the text is one lexeme, that of the token. -/
def Spells (token : Token) (text : List Char) : Prop :=
  ∃ c cs, text = c :: cs ∧
    ∀ rest, stops rest = true → piece c (cs ++ rest) = .lexeme token cs.length

theorem stops_cons {c : Char} {cs : List Char} : stops (c :: cs) = true ↔
    isLetter c = false ∧ isDigit c = false ∧ isOperator c = false ∧ c ≠ '.' := by
  simp only [stops, Bool.and_eq_true, Bool.not_eq_true', bne_iff_ne, and_assoc]

theorem startsWithDigit_of_stops {cs : List Char} (h : stops cs = true) :
    startsWithDigit cs = false := by
  cases cs with
  | nil => rfl
  | cons c cs => exact (stops_cons.mp h).2.1

theorem isLetter_iff {c : Char} : isLetter c = true ↔
    97 ≤ c.toNat ∧ c.toNat ≤ 122 ∨ 65 ≤ c.toNat ∧ c.toNat ≤ 90 := decide_eq_true_iff

theorem isDigit_iff {c : Char} : isDigit c = true ↔ 48 ≤ c.toNat ∧ c.toNat ≤ 57 :=
  decide_eq_true_iff

theorem isBlank_of_graphic {c : Char} (h : 33 ≤ c.toNat ∧ c.toNat ≤ 126) :
    Text.isBlank c = false := by
  simp [Text.isBlank, Text.inRanges, Text.blankRanges]
  omega

theorem isDigit_of_isOperator {c : Char} (h : isOperator c = true) : isDigit c = false := by
  have hmem : c ∈ operatorChars := List.contains_iff_mem.mp h
  simp only [operatorChars, List.mem_cons, List.not_mem_nil, or_false] at hmem
  rcases hmem with rfl | rfl | rfl | rfl | rfl | rfl | rfl | rfl <;> rfl

section Pieces

variable {c : Char} (cs : List Char)

theorem piece_letter (h : isLetter c = true) : piece c cs =
    .lexeme (.symbol (String.ofList (c :: nameRest cs))) (nameRest cs).length := by
  have hrange := isLetter_iff.mp h
  have hblank : Text.isBlank c = false := isBlank_of_graphic (by omega)
  have hbracket : c ≠ '[' := fun heq ↦ by simp [heq] at hrange
  have hminus : c ≠ '-' := fun heq ↦ by simp [heq] at hrange
  have hdigit : isDigit c = false := by
    rw [Bool.eq_false_iff, Ne, isDigit_iff]
    omega
  simp [piece, hblank, hbracket, hminus, hdigit, h]

theorem piece_operator (h : isOperator c = true) (hminus : c = '-' → startsWithDigit cs = false) :
    piece c cs =
      .lexeme (.symbol (String.ofList (c :: operatorRun cs))) (operatorRun cs).length := by
  have hmem : c ∈ operatorChars := List.contains_iff_mem.mp h
  have hother : Text.isBlank c = false ∧ c ≠ '[' ∧ isDigit c = false ∧ isLetter c = false ∧
      c ≠ '_' := by
    simp only [operatorChars, List.mem_cons, List.not_mem_nil, or_false] at hmem
    rcases hmem with rfl | rfl | rfl | rfl | rfl | rfl | rfl | rfl <;> decide
  obtain ⟨hblank, hbracket, hdigit, hletter, hunderscore⟩ := hother
  have hguard : ¬(c = '-' ∧ startsWithDigit cs = true) := fun ⟨heq, hdigit⟩ ↦ by
    rw [hminus heq] at hdigit
    nomatch hdigit
  simp only [piece, hblank, hbracket, hdigit, hguard, hletter, hunderscore, h, if_true, if_false,
    Bool.false_eq_true]

theorem piece_digit (h : isDigit c = true) : piece c cs =
    numberPiece false (Numeral.scan (c :: cs)).text (Numeral.scan (c :: cs)) := by
  have hrange := isDigit_iff.mp h
  have hblank : Text.isBlank c = false := isBlank_of_graphic (by omega)
  have hbracket : c ≠ '[' := fun heq ↦ by simp [heq] at hrange
  simp [piece, hblank, hbracket, h]

theorem piece_minus (h : startsWithDigit cs = true) : piece '-' cs =
    numberPiece true ('-' :: (Numeral.scan cs).text) (Numeral.scan cs) := by
  simp [piece, Text.isBlank, Text.inRanges, Text.blankRanges, isDigit, h]

theorem piece_quotation : piece '\x22' cs = match stringBody [] cs with
    | some (text, rest) => .lexeme (.string (String.ofList text)) (cs.length - rest.length)
    | none => .fault .unterminatedString := rfl

theorem piece_leftParen : piece '(' cs = .lexeme .leftParen 0 := rfl

theorem piece_rightParen : piece ')' cs = .lexeme .rightParen 0 := rfl

theorem piece_quoteMark : piece '\x27' cs = .lexeme .quoteMark 0 := rfl

theorem piece_space : piece ' ' cs = .gap 0 := rfl

end Pieces

theorem nameRest_of_stops {rest : List Char} (h : stops rest = true) : nameRest rest = [] := by
  cases rest with
  | nil => rfl
  | cons c cs =>
      obtain ⟨hletter, -, hoperator, -⟩ := stops_cons.mp h
      have hminus : (c == '-') = false := by
        by_cases heq : c = '-'
        · subst heq
          exact absurd hoperator (by decide)
        · simpa using heq
      simp [nameRest, hletter, hminus]

theorem operatorRun_of_stops {rest : List Char} (h : stops rest = true) :
    operatorRun rest = [] := by
  cases rest with
  | nil => rfl
  | cons c cs =>
      obtain ⟨-, -, hoperator, -⟩ := stops_cons.mp h
      simp [operatorRun, hoperator]

/-- Cut off after the name, its letters go on as far as before. -/
theorem nameRest_nameRest_append (cs : List Char) {rest : List Char} (h : stops rest = true) :
    nameRest (nameRest cs ++ rest) = nameRest cs := by
  induction cs with
  | nil => exact nameRest_of_stops h
  | cons c cs ih =>
      by_cases hgoes : (isLetter c || (c == '-' && startsWithLetter cs)) = true
      · have hnext : nameRest (c :: cs) = c :: nameRest cs := by rw [nameRest, if_pos hgoes]
        have hletter : startsWithLetter cs = true →
            startsWithLetter (nameRest cs ++ rest) = true := by
          cases cs with
          | nil => exact fun hfalse ↦ nomatch hfalse
          | cons d ds =>
              intro hd
              have hd' : isLetter d = true := hd
              rw [nameRest, if_pos (by rw [hd', Bool.true_or])]
              exact hd
        have hstill : (isLetter c || (c == '-' && startsWithLetter (nameRest cs ++ rest))) =
            true := by
          simp only [Bool.or_eq_true, Bool.and_eq_true] at hgoes ⊢
          exact hgoes.imp_right (And.imp_right hletter)
        rw [hnext, List.cons_append, nameRest, if_pos hstill, ih]
      · have hnext : nameRest (c :: cs) = [] := by rw [nameRest, if_neg hgoes]
        rw [hnext]
        exact nameRest_of_stops h

theorem startsWithDigit_operatorRun_append (cs : List Char) {rest : List Char}
    (h : stops rest = true) : startsWithDigit (operatorRun cs ++ rest) = false := by
  cases cs with
  | nil => exact startsWithDigit_of_stops h
  | cons c cs =>
      by_cases hgoes : (isOperator c && !(c == '-' && startsWithDigit cs)) = true
      · rw [operatorRun, if_pos hgoes]
        exact isDigit_of_isOperator (Bool.and_eq_true_iff.mp hgoes).1
      · rw [operatorRun, if_neg hgoes]
        exact startsWithDigit_of_stops h

theorem operatorRun_operatorRun_append (cs : List Char) {rest : List Char}
    (h : stops rest = true) : operatorRun (operatorRun cs ++ rest) = operatorRun cs := by
  induction cs with
  | nil => exact operatorRun_of_stops h
  | cons c cs ih =>
      by_cases hgoes : (isOperator c && !(c == '-' && startsWithDigit cs)) = true
      · have hnext : operatorRun (c :: cs) = c :: operatorRun cs := by
          rw [operatorRun, if_pos hgoes]
        have hstill : (isOperator c && !(c == '-' && startsWithDigit (operatorRun cs ++ rest))) =
            true := by
          rw [startsWithDigit_operatorRun_append cs h, Bool.and_false, Bool.not_false,
            Bool.and_true]
          exact (Bool.and_eq_true_iff.mp hgoes).1
        rw [hnext, List.cons_append, operatorRun, if_pos hstill, ih]
      · have hnext : operatorRun (c :: cs) = [] := by rw [operatorRun, if_neg hgoes]
        rw [hnext]
        exact operatorRun_of_stops h

theorem spells_name {c : Char} (cs : List Char) (h : isLetter c = true) :
    Spells (.symbol (String.ofList (c :: nameRest cs))) (c :: nameRest cs) := by
  refine ⟨c, nameRest cs, rfl, fun rest hrest ↦ ?_⟩
  rw [piece_letter _ h, nameRest_nameRest_append cs hrest]

theorem spells_operator {c : Char} (cs : List Char) (h : isOperator c = true) :
    Spells (.symbol (String.ofList (c :: operatorRun cs))) (c :: operatorRun cs) := by
  refine ⟨c, operatorRun cs, rfl, fun rest hrest ↦ ?_⟩
  rw [piece_operator _ h fun _ ↦ startsWithDigit_operatorRun_append cs hrest,
    operatorRun_operatorRun_append cs hrest]

theorem stringBody_quotation (done cs : List Char) :
    stringBody done ('\x22' :: cs) = some (done.reverse, cs) := by
  rw [stringBody.eq_def]
  rfl

theorem stringBody_cons {c : Char} (done cs : List Char) (hquotation : c ≠ '\x22')
    (hbackslash : c ≠ '\x5c') : stringBody done (c :: cs) = stringBody (c :: done) cs := by
  rw [stringBody.eq_def]
  simp only [hquotation, hbackslash, if_false]

theorem stringBody_escapeChar (done : List Char) (c : Char) (rest : List Char) :
    stringBody done (Text.escapeChar c ++ rest) = stringBody (c :: done) rest := by
  unfold Text.escapeChar
  split
  next hc => simp [stringBody, unescape?, hc]
  next hbackslash =>
    split
    next hc => simp [stringBody, unescape?, hc]
    next hquotation =>
      split
      next hc => simp [stringBody, unescape?, hc]
      next => exact stringBody_cons done rest hquotation hbackslash

/-- An escaped text is read up to its closing quotation mark, whatever follows. -/
theorem stringBody_escape (done cs rest : List Char) :
    stringBody done (cs.flatMap Text.escapeChar ++ '"' :: rest) =
      some (done.reverse ++ cs, rest) := by
  induction cs generalizing done with
  | nil => simpa using stringBody_quotation done rest
  | cons c cs ih =>
      rw [List.flatMap_cons, List.append_assoc, stringBody_escapeChar, ih]
      simp

theorem piece_escape (cs rest : List Char) :
    piece '"' (cs.flatMap Text.escapeChar ++ '"' :: rest) =
      .lexeme (.string (String.ofList cs)) (cs.flatMap Text.escapeChar ++ ['"']).length := by
  rw [piece_quotation, stringBody_escape]
  simp only [List.reverse_nil, List.nil_append, List.length_append, List.length_cons]
  congr 1
  simp only [List.length_nil]
  omega

theorem spells_string (s : String) : Spells (.string s) (Text.escapeChars s.toList) := by
  refine ⟨'"', _, rfl, fun rest _ ↦ ?_⟩
  rw [List.append_assoc, List.singleton_append, piece_escape, String.ofList_toList]

theorem takeWhile_isDigit_append {ds rest : List Char} (hds : ∀ c ∈ ds, isDigit c = true)
    (hrest : startsWithDigit rest = false) :
    (ds ++ rest).takeWhile isDigit = ds ∧ (ds ++ rest).dropWhile isDigit = rest := by
  rw [List.takeWhile_append_of_pos hds, List.dropWhile_append_of_pos hds]
  cases rest with
  | nil => simp
  | cons c cs =>
      have hc : isDigit c = false := hrest
      simp [hc]

theorem scan_text_append {n : Numeral} (hn : n.Digital) {rest : List Char}
    (hrest : stops rest = true) : Numeral.scan (n.text ++ rest) = n := by
  obtain ⟨whole, fraction⟩ := n
  have hstart := startsWithDigit_of_stops hrest
  cases fraction with
  | nil =>
      have hpoint : fractionDigits rest = [] := by
        cases rest with
        | nil => rfl
        | cons c cs =>
            obtain ⟨-, -, -, hpoint⟩ := stops_cons.mp hrest
            unfold fractionDigits
            split
            next heq => exact absurd (List.cons.inj heq).1 hpoint
            next => rfl
      obtain ⟨htake, hdrop⟩ := takeWhile_isDigit_append hn.isDigit_whole hstart
      simp only at htake hdrop
      simp only [Numeral.text, Numeral.scan, List.isEmpty_nil, if_true, htake, hdrop, hpoint]
  | cons d ds =>
      have hpoint : startsWithDigit ('.' :: (d :: ds ++ rest)) = false := rfl
      obtain ⟨htake, hdrop⟩ := takeWhile_isDigit_append hn.isDigit_whole hpoint
      obtain ⟨hfraction, -⟩ := takeWhile_isDigit_append hn.isDigit_fraction hstart
      simp only at htake hdrop hfraction
      simp only [Numeral.text, Numeral.scan, List.isEmpty_cons, if_false, Bool.false_eq_true,
        List.append_assoc, List.cons_append] at htake hdrop hfraction ⊢
      rw [htake, hdrop, fractionDigits, hfraction]

theorem text_eq_cons {n : Numeral} (hn : n.Digital) :
    ∃ d ds, n.text = d :: ds ∧ isDigit d = true := by
  obtain ⟨d, ds, hwhole⟩ := List.exists_cons_of_ne_nil hn.whole_ne_nil
  have hd : isDigit d = true := hn.isDigit_whole d (by rw [hwhole]; exact List.mem_cons_self)
  cases hfraction : n.fraction.isEmpty with
  | true => exact ⟨d, ds, by simp [Numeral.text, hfraction, hwhole], hd⟩
  | false => exact ⟨d, ds ++ '.' :: n.fraction, by simp [Numeral.text, hfraction, hwhole], hd⟩

/-- A numeral that is in range is one lexeme, also behind a sign. -/
theorem spells_numeral {n : Numeral} (hn : n.Digital) {negative : Bool}
    (hrange : (Double.ofDecimal negative n.whole n.fraction).isInfinite = false) :
    Spells (.number (Double.ofDecimal negative n.whole n.fraction))
      (if negative then '-' :: n.text else n.text) := by
  obtain ⟨d, ds, htext, hd⟩ := text_eq_cons hn
  cases negative with
  | true =>
      refine ⟨'-', n.text, rfl, fun rest hrest ↦ ?_⟩
      have hstart : startsWithDigit (n.text ++ rest) = true := by
        rw [htext]
        exact hd
      rw [piece_minus _ hstart, scan_text_append hn hrest]
      simp [numberPiece, hrange]
  | false =>
      refine ⟨d, ds, htext, fun rest hrest ↦ ?_⟩
      have hscan := scan_text_append hn hrest
      rw [htext, List.cons_append] at hscan
      rw [piece_digit _ hd, hscan]
      simp [numberPiece, hrange, htext]

theorem spells_render {x : Double} (hx : x.isFinite = true) :
    Spells (.number x.dropZeroSign) x.render.toList := by
  obtain ⟨negative, n, hn, -, htext, hvalue⟩ := Double.render_spells hx
  have hrange : x.dropZeroSign.isInfinite = false := by
    unfold Double.dropZeroSign
    split
    · rfl
    · exact beq_false_of_ne (Nat.ne_of_lt (of_decide_eq_true hx))
  rw [htext, ← hvalue]
  exact spells_numeral hn (by rw [hvalue]; exact hrange)

end Lexer

def Token.dropZeroSign : Token → Token
  | .number x => .number x.dropZeroSign
  | token => token

def Token.text : Token → List Char
  | .leftParen => ['(']
  | .rightParen => [')']
  | .quoteMark => ['\x27']
  | .number x => x.render.toList
  | .string s => Text.escapeChars s.toList
  | .symbol name => name.toList

namespace Lexer

theorem spells_mark {c : Char} {token : Token} (h : ∀ cs, piece c cs = .lexeme token 0) :
    Spells token [c] := ⟨c, [], rfl, fun rest _ ↦ h rest⟩

theorem spells_number_of_numberPiece {negative : Bool} {text : List Char} {n : Numeral}
    {token : Token} {more : Nat} (h : numberPiece negative text n = .lexeme token more) :
    Spells token.dropZeroSign token.text := by
  unfold numberPiece at h
  simp only at h
  split at h
  · nomatch h
  next hrange =>
    obtain ⟨rfl, -⟩ := Piece.lexeme.inj h
    exact spells_render (Double.isFinite_ofDecimal (Bool.eq_false_iff.mpr hrange))

/-- What the lexer can find at a character. -/
inductive Begins (cs : List Char) : Char → Piece → Prop
  | blank {c : Char} (h : Text.isBlank c = true) : Begins cs c (.gap 0)
  | comment {n : Nat} (h : cs.idxOf? ']' = some n) : Begins cs '[' (.gap (n + 1))
  | openComment (h : cs.idxOf? ']' = none) : Begins cs '[' (.fault .unterminatedComment)
  | number {c : Char} (h : isDigit c = true) :
      Begins cs c (numberPiece false (Numeral.scan (c :: cs)).text (Numeral.scan (c :: cs)))
  | negative (h : startsWithDigit cs = true) :
      Begins cs '-' (numberPiece true ('-' :: (Numeral.scan cs).text) (Numeral.scan cs))
  | name {c : Char} (h : isLetter c = true) :
      Begins cs c (.lexeme (.symbol (String.ofList (c :: nameRest cs))) (nameRest cs).length)
  | underscore : Begins cs '_' (.lexeme (.symbol "_") 0)
  | operator {c : Char} (h : isOperator c = true) (hminus : c = '-' → startsWithDigit cs = false) :
      Begins cs c (.lexeme (.symbol (String.ofList (c :: operatorRun cs))) (operatorRun cs).length)
  | string {text rest : List Char} (h : stringBody [] cs = some (text, rest)) :
      Begins cs '\x22' (.lexeme (.string (String.ofList text)) (cs.length - rest.length))
  | openString (h : stringBody [] cs = none) : Begins cs '\x22' (.fault .unterminatedString)
  | leftParen : Begins cs '(' (.lexeme .leftParen 0)
  | rightParen : Begins cs ')' (.lexeme .rightParen 0)
  | quoteMark : Begins cs '\x27' (.lexeme .quoteMark 0)
  | unknown (c : Char) : Begins cs c (.fault (.unknownCharacter c))

theorem begins_piece (c : Char) (cs : List Char) : Begins cs c (piece c cs) := by
  unfold piece
  by_cases hblank : Text.isBlank c = true
  · rw [if_pos hblank]
    exact .blank hblank
  rw [if_neg hblank]
  by_cases hbracket : c = '['
  · rw [if_pos hbracket, hbracket]
    cases hclose : cs.idxOf? ']' with
    | none => exact .openComment hclose
    | some n => exact .comment hclose
  rw [if_neg hbracket]
  by_cases hdigit : isDigit c = true
  · rw [if_pos hdigit]
    exact .number hdigit
  rw [if_neg hdigit]
  by_cases hminus : c = '-' ∧ startsWithDigit cs = true
  · rw [if_pos hminus, hminus.1]
    exact .negative hminus.2
  rw [if_neg hminus]
  by_cases hletter : isLetter c = true
  · rw [if_pos hletter]
    exact .name hletter
  rw [if_neg hletter]
  by_cases hunderscore : c = '_'
  · rw [if_pos hunderscore, hunderscore]
    exact .underscore
  rw [if_neg hunderscore]
  by_cases hoperator : isOperator c = true
  · rw [if_pos hoperator]
    exact .operator hoperator fun heq ↦ Bool.eq_false_iff.mpr fun hdigit ↦ hminus ⟨heq, hdigit⟩
  rw [if_neg hoperator]
  by_cases hquotation : c = '\x22'
  · rw [if_pos hquotation, hquotation]
    cases hbody : stringBody [] cs with
    | none => exact .openString hbody
    | some body => exact .string hbody
  rw [if_neg hquotation]
  by_cases hopen : c = '('
  · rw [if_pos hopen, hopen]
    exact .leftParen
  rw [if_neg hopen]
  by_cases hclose : c = ')'
  · rw [if_pos hclose, hclose]
    exact .rightParen
  rw [if_neg hclose]
  by_cases hmark : c = '\x27'
  · rw [if_pos hmark, hmark]
    exact .quoteMark
  rw [if_neg hmark]
  exact .unknown c

/-- What the lexer finds is printed as a lexeme for the same token, but for the sign of a zero. -/
theorem spells_of_piece {c : Char} {cs : List Char} {token : Token} {more : Nat}
    (h : piece c cs = .lexeme token more) : Spells token.dropZeroSign token.text := by
  have hbegins := begins_piece c cs
  rw [h] at hbegins
  generalize hpiece : Piece.lexeme token more = found at hbegins
  cases hbegins with
  | blank | comment | openComment | openString | unknown => nomatch hpiece
  | number | negative => exact spells_number_of_numberPiece hpiece.symm
  | name hletter =>
      obtain ⟨rfl, -⟩ := Piece.lexeme.inj hpiece
      simpa [Token.dropZeroSign, Token.text] using spells_name cs hletter
  | underscore =>
      obtain ⟨rfl, -⟩ := Piece.lexeme.inj hpiece
      exact spells_mark fun _ ↦ rfl
  | operator hoperator =>
      obtain ⟨rfl, -⟩ := Piece.lexeme.inj hpiece
      simpa [Token.dropZeroSign, Token.text] using spells_operator cs hoperator
  | string =>
      obtain ⟨rfl, -⟩ := Piece.lexeme.inj hpiece
      exact spells_string _
  | leftParen =>
      obtain ⟨rfl, -⟩ := Piece.lexeme.inj hpiece
      exact spells_mark piece_leftParen
  | rightParen =>
      obtain ⟨rfl, -⟩ := Piece.lexeme.inj hpiece
      exact spells_mark piece_rightParen
  | quoteMark =>
      obtain ⟨rfl, -⟩ := Piece.lexeme.inj hpiece
      exact spells_mark piece_quoteMark

end Lexer

end MiniLisp
