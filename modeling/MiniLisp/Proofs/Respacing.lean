import MiniLisp.Proofs.LazyReading
import MiniLisp.Proofs.Separation

/-!
# Gaps between tokens

A gap keeps texts apart: behind it a text is split as on its own, so another gap in its place changes
only positions. Nor does a gap in front of any token of a text, for the text before that token is
split the same without what follows it.
-/

namespace MiniLisp

namespace Lexer

variable {c : Char} {cs rest : List Char}

section Cutting

theorem startsWithLetter_of_append (h : startsWithLetter (cs ++ rest) = false) :
    startsWithLetter cs = false := by
  cases cs with
  | nil => rfl
  | cons c cs => exact h

theorem startsWithDigit_of_append (h : startsWithDigit (cs ++ rest) = false) :
    startsWithDigit cs = false := by
  cases cs with
  | nil => rfl
  | cons c cs => exact h

/-- A name that ends within a text has its letters there. -/
theorem startsWithLetter_of_nameRest (h : (nameRest (cs ++ rest)).length ≤ cs.length)
    (hletter : startsWithLetter (cs ++ rest) = true) : startsWithLetter cs = true := by
  cases cs with
  | cons c cs => exact hletter
  | nil =>
      cases rest with
      | nil => exact hletter
      | cons c rest =>
          have hc : isLetter c = true := hletter
          simp [nameRest, hc] at h

theorem nameRest_of_append (h : (nameRest (cs ++ rest)).length ≤ cs.length) :
    nameRest cs = nameRest (cs ++ rest) := by
  induction cs with
  | nil => exact (List.eq_nil_of_length_eq_zero (Nat.le_zero.mp h)).symm
  | cons c cs ih =>
      by_cases hgoes : (isLetter c || (c == '-' && startsWithLetter (cs ++ rest))) = true
      · have hnext : nameRest (c :: cs ++ rest) = c :: nameRest (cs ++ rest) := by
          rw [List.cons_append, nameRest, if_pos hgoes]
        rw [hnext] at h ⊢
        have hlength := Nat.le_of_succ_le_succ h
        have hstill : (isLetter c || (c == '-' && startsWithLetter cs)) = true := by
          simp only [Bool.or_eq_true, Bool.and_eq_true] at hgoes ⊢
          exact hgoes.imp_right (And.imp_right (startsWithLetter_of_nameRest hlength))
        rw [nameRest, if_pos hstill, ih hlength]
      · have hstops : ¬(isLetter c || (c == '-' && startsWithLetter cs)) = true := by
          simp only [Bool.or_eq_true, Bool.and_eq_true, not_or, not_and, Bool.not_eq_true] at hgoes ⊢
          exact hgoes.imp_right fun h hminus ↦ startsWithLetter_of_append (h hminus)
        rw [List.cons_append, nameRest, nameRest, if_neg hgoes, if_neg hstops]

/-- An operator that ends within a text is cut off there, unless a minus sign behind it belongs to a
number outside. -/
theorem operatorRun_of_append (h : (operatorRun (cs ++ rest)).length ≤ cs.length)
    (hminus : startsWithDigit rest = true → cs.drop (operatorRun (cs ++ rest)).length ≠ ['-']) :
    operatorRun cs = operatorRun (cs ++ rest) := by
  induction cs with
  | nil => exact (List.eq_nil_of_length_eq_zero (Nat.le_zero.mp h)).symm
  | cons c cs ih =>
      by_cases hgoes : (isOperator c && !(c == '-' && startsWithDigit (cs ++ rest))) = true
      · have hnext : operatorRun (c :: cs ++ rest) = c :: operatorRun (cs ++ rest) := by
          rw [List.cons_append, operatorRun, if_pos hgoes]
        rw [hnext] at h hminus ⊢
        have hstill : (isOperator c && !(c == '-' && startsWithDigit cs)) = true := by
          simp only [Bool.and_eq_true, Bool.not_eq_true', Bool.and_eq_false_imp] at hgoes ⊢
          exact hgoes.imp_right fun h heq ↦ startsWithDigit_of_append (h heq)
        rw [operatorRun, if_pos hstill, ih (Nat.le_of_succ_le_succ h) hminus]
      · have hnext : operatorRun (c :: cs ++ rest) = [] := by
          rw [List.cons_append, operatorRun, if_neg hgoes]
        rw [hnext] at hminus ⊢
        cases cs with
        | cons d ds => exact if_neg hgoes
        | nil =>
            have hdigit : c = '-' → startsWithDigit rest = false := fun heq ↦
              Bool.eq_false_iff.mpr fun hdigit ↦ hminus hdigit (by rw [heq]; rfl)
            have hoperator : isOperator c = false := by
              by_contra hc
              refine hgoes ?_
              simp only [Bool.not_eq_false] at hc
              rw [hc, List.nil_append, Bool.true_and, Bool.not_eq_true', Bool.and_eq_false_imp,
                beq_iff_eq]
              exact hdigit
            simp [operatorRun, hoperator]

theorem takeWhile_of_append {p : Char → Bool} (h : ((cs ++ rest).takeWhile p).length ≤ cs.length) :
    cs.takeWhile p = (cs ++ rest).takeWhile p ∧
      (cs ++ rest).dropWhile p = cs.dropWhile p ++ rest := by
  induction cs with
  | nil =>
      have hnil : rest.takeWhile p = [] := List.eq_nil_of_length_eq_zero (Nat.le_zero.mp h)
      have hall : rest.takeWhile p ++ rest.dropWhile p = rest := List.takeWhile_append_dropWhile
      rw [hnil, List.nil_append] at hall
      exact ⟨hnil.symm, hall⟩
  | cons c cs ih =>
      rw [List.cons_append, List.takeWhile_cons] at h ⊢
      rw [List.dropWhile_cons, List.takeWhile_cons, List.dropWhile_cons]
      split at h
      next hc =>
        obtain ⟨htake, hdrop⟩ := ih (Nat.le_of_succ_le_succ h)
        simp only [hc, if_true]
        exact ⟨congrArg (List.cons c) htake, hdrop⟩
      next hc => simp [hc]

theorem fractionDigits_of_append (h : fractionDigits (cs ++ rest) = [] ∨
    (fractionDigits (cs ++ rest)).length < cs.length) :
    fractionDigits cs = fractionDigits (cs ++ rest) := by
  cases cs with
  | nil => exact (h.resolve_right (Nat.not_lt_zero _)).symm
  | cons c cs =>
      by_cases hc : c = '.'
      · subst hc
        refine (takeWhile_of_append ?_).1
        rcases h with h | h
        · exact Nat.le_trans (Nat.le_of_eq (congrArg List.length h)) (Nat.zero_le _)
        · exact Nat.le_of_lt_succ h
      · rw [List.cons_append, fractionDigits_of_ne hc, fractionDigits_of_ne hc]

theorem scan_of_append (h : (Numeral.scan (cs ++ rest)).text.length ≤ cs.length) :
    Numeral.scan cs = Numeral.scan (cs ++ rest) := by
  obtain ⟨htake, hdrop⟩ :=
    takeWhile_of_append (Nat.le_trans (length_whole_le (Numeral.scan (cs ++ rest))) h)
  have hlength : (cs.takeWhile isDigit).length + (cs.dropWhile isDigit).length = cs.length := by
    rw [← List.length_append, List.takeWhile_append_dropWhile]
  have hfraction : fractionDigits (cs.dropWhile isDigit) =
      fractionDigits (cs.dropWhile isDigit ++ rest) := by
    refine fractionDigits_of_append ?_
    rw [Numeral.scan, Numeral.text, hdrop, ← htake] at h
    split at h
    next hempty => exact .inl (List.isEmpty_iff.mp hempty)
    next =>
      refine .inr ?_
      simp only [List.length_append, List.length_cons] at h
      omega
  rw [Numeral.scan, Numeral.scan, htake, hdrop, hfraction]

theorem idxOf?_of_append {n : Nat} (h : (cs ++ rest).idxOf? ']' = some n) (hn : n < cs.length) :
    cs.idxOf? ']' = some n := by
  obtain ⟨_, hclosing, hbefore⟩ := List.idxOf?_eq_some_iff.mp h
  refine List.idxOf?_eq_some_iff.mpr ⟨hn, ?_, fun i hi ↦ ?_⟩
  · rwa [List.getElem_append_left hn] at hclosing
  · have hi' := hbefore i hi
    rwa [List.getElem_append_left (Nat.lt_trans hi hn)] at hi'

theorem stringBody_of_append {text left : List Char}
    (h : stringBody [] (cs ++ rest) = some (text, left))
    (hlength : (cs ++ rest).length - left.length ≤ cs.length) :
    ∃ left', stringBody [] cs = some (text, left') ∧ left = left' ++ rest := by
  obtain ⟨raw, tail, rfl, hraw, hcs⟩ := exists_stringText h
  have hshort : (raw ++ ['\x22']).length ≤ cs.length := by
    rw [hcs] at hlength
    simp only [List.length_append, List.length_cons, List.length_nil] at hlength ⊢
    omega
  obtain ⟨left', rfl⟩ : raw ++ ['\x22'] <+: cs :=
    List.prefix_of_prefix_length_le ⟨left, by rw [hcs]; simp⟩ (List.prefix_append cs rest) hshort
  refine ⟨left', ?_, by simpa using hcs.symm⟩
  rw [List.append_assoc, List.singleton_append, hraw.stringBody]
  rfl

/-- A piece that ends within a text is found there whatever follows, but for an operator in front of a
minus sign at the end of the text. -/
theorem piece_of_append {more : Nat} (h : piece c (cs ++ rest) = .gap more ∨
    ∃ token, piece c (cs ++ rest) = .lexeme token more) (hmore : more ≤ cs.length)
    (hminus : startsWithDigit rest = true → cs.drop more ≠ ['-']) :
    piece c cs = piece c (cs ++ rest) := by
  have hbegins := begins_piece c (cs ++ rest)
  generalize hfound : piece c (cs ++ rest) = found at hbegins h
  cases hbegins with
  | openComment | openString | unknown => simp at h
  | blank hblank => rw [piece, if_pos hblank]
  | @comment n hclose =>
      have hn : n + 1 = more := by simpa using h
      rw [piece_bracket, idxOf?_of_append hclose (by omega)]
  | number hdigit =>
      obtain ⟨-, hlength, -⟩ := numberPiece_eq_lexeme (h.resolve_left numberPiece_ne_gap).choose_spec
      have hscan : Numeral.scan (c :: cs) = Numeral.scan (c :: cs ++ rest) :=
        scan_of_append (by rw [List.cons_append, List.length_cons]; omega)
      rw [piece_digit _ hdigit, hscan]
      rfl
  | negative hdigit =>
      obtain ⟨-, hlength, -⟩ := numberPiece_eq_lexeme (h.resolve_left numberPiece_ne_gap).choose_spec
      have hscan : Numeral.scan cs = Numeral.scan (cs ++ rest) :=
        scan_of_append (by rw [List.length_cons] at hlength; omega)
      have hstart : startsWithDigit cs = true := by
        cases cs with
        | cons d ds => exact hdigit
        | nil =>
            have hpos := length_text_pos (digital_scan hdigit)
            rw [List.length_cons] at hlength
            rw [List.length_nil] at hmore
            omega
      rw [piece_minus _ hstart, hscan]
  | name hletter =>
      have hlength : (nameRest (cs ++ rest)).length = more := by simpa using h
      rw [piece_letter _ hletter, nameRest_of_append (hlength ▸ hmore)]
  | underscore => rfl
  | operator hoperator hoperand =>
      have hlength : (operatorRun (cs ++ rest)).length = more := by simpa using h
      rw [piece_operator _ hoperator fun heq ↦ startsWithDigit_of_append (hoperand heq),
        operatorRun_of_append (hlength ▸ hmore) (by rwa [hlength])]
  | @string text left hbody =>
      have hlength : (cs ++ rest).length - left.length = more := by simpa using h
      obtain ⟨left', hbody', rfl⟩ := stringBody_of_append hbody (by omega)
      rw [piece_quotation, hbody']
      simp only [List.length_append]
      congr 1
      omega
  | leftParen | rightParen | quoteMark => rfl

end Cutting

/-- In front of the rest, the text falls into whole pieces: none reaches into the rest. -/
inductive Whole (rest : List Char) : List Char → Prop
  | nil : Whole rest []
  | cons {c : Char} {x cs : List Char} (hpiece : piece c (x ++ cs ++ rest) = .gap x.length ∨
      ∃ token, piece c (x ++ cs ++ rest) = .lexeme token x.length) (h : Whole rest cs) :
      Whole rest (c :: (x ++ cs))

namespace Whole

/-- A minus sign in front of a digit is no piece of its own. -/
theorem ne_minus (h : Whole rest cs) (hdigit : startsWithDigit rest = true) : cs ≠ ['-'] := by
  intro hcs
  cases h with
  | nil => cases hcs
  | @cons c x cs hpiece _ =>
      obtain ⟨rfl, hnil⟩ := List.cons.inj hcs
      rw [hnil, List.nil_append, piece_minus _ hdigit] at hpiece
      obtain ⟨token, hlexeme⟩ := hpiece.resolve_left numberPiece_ne_gap
      have hlength := (numberPiece_eq_lexeme hlexeme).2.1
      have hpos := length_text_pos (digital_scan hdigit)
      rw [(List.append_eq_nil_iff.mp hnil).1, List.length_cons, List.length_nil] at hlength
      omega

theorem piece_eq {x : List Char} (h : Whole rest cs)
    (hpiece : piece c (x ++ cs ++ rest) = .gap x.length ∨
      ∃ token, piece c (x ++ cs ++ rest) = .lexeme token x.length) :
    piece c (x ++ cs) = piece c (x ++ cs ++ rest) := by
  refine piece_of_append hpiece (by simp) fun hdigit ↦ ?_
  rw [List.drop_left]
  exact h.ne_minus hdigit

/-- Text that falls into whole pieces is split the same without what follows it. -/
theorem lexFrom_append (h : Whole rest cs) (done : List PlacedToken) (pos : Position) :
    (lexFrom done pos cs).error = none ∧ lexFrom done pos (cs ++ rest) =
      lexFrom (lexFrom done pos cs).tokens.reverse (pos.advance cs) rest := by
  -- a piece that ends within the text is found there without the rest
  induction h generalizing done pos with
  | nil =>
      rw [lexFrom, List.reverse_reverse]
      exact ⟨rfl, rfl⟩
  | @cons c x cs hpiece h ih =>
      have hcut := h.piece_eq hpiece
      have hsource : c :: (x ++ cs) ++ rest = c :: (x ++ (cs ++ rest)) := by simp
      rw [hsource, ← List.cons_append, Position.advance_append, List.cons_append]
      rw [List.append_assoc] at hpiece hcut
      rcases hpiece with hgap | ⟨token, hlexeme⟩
      · rw [lexFrom_of_gap (hcut.trans hgap), lexFrom_of_gap hgap]
        exact ih done _
      · rw [lexFrom_of_lexeme (hcut.trans hlexeme), lexFrom_of_lexeme hlexeme]
        exact ih _ _

theorem behind_piece {before after : List Char} {more : Nat}
    (h : piece c cs = .gap more ∨ ∃ token, piece c cs = .lexeme token more)
    (hcs : cs.drop more = before ++ after) (hwhole : Whole after before) :
    c :: cs = c :: (cs.take more ++ before) ++ after ∧
      Whole after (c :: (cs.take more ++ before)) := by
  have hall : cs = cs.take more ++ before ++ after := by
    rw [List.append_assoc, ← hcs, List.take_append_drop]
  refine ⟨congrArg (List.cons c) hall, .cons ?_ hwhole⟩
  rw [← hall, List.length_take_of_le (le_length_of_piece h)]
  exact h

end Whole

/-- A token stands behind text that falls into whole pieces. -/
theorem exists_whole_of_mem (done : List PlacedToken) (pos : Position) (cs : List Char) :
    ∀ t ∈ (lexFrom done pos cs).tokens, t ∈ done ∨
      ∃ before after, cs = before ++ after ∧ Whole after before ∧ t.pos = pos.advance before := by
  induction done, pos, cs using lexFrom.induct with
  | case1 done pos =>
      rw [lexFrom]
      exact fun t ht ↦ .inl (List.mem_reverse.mp ht)
  | case2 done pos c cs more hgap ih =>
      rw [lexFrom, hgap]
      intro t ht
      rcases ih t ht with ht | ⟨before, after, hcs, hwhole, hpos⟩
      · exact .inl ht
      obtain ⟨hall, hbefore⟩ := hwhole.behind_piece (.inl hgap) hcs
      exact .inr ⟨_, after, hall, hbefore, by rw [hpos, ← Position.advance_append]; rfl⟩
  | case3 done pos c cs token more hlexeme ih =>
      rw [lexFrom, hlexeme]
      intro t ht
      rcases ih t ht with ht | ⟨before, after, hcs, hwhole, hpos⟩
      · rcases List.mem_cons.mp ht with rfl | ht
        · exact .inr ⟨[], c :: cs, rfl, .nil, rfl⟩
        · exact .inl ht
      obtain ⟨hall, hbefore⟩ := hwhole.behind_piece (.inr ⟨token, hlexeme⟩) hcs
      exact .inr ⟨_, after, hall, hbefore, by rw [hpos, ← Position.advance_append]; rfl⟩
  | case4 done pos c cs fault hfault =>
      rw [lexFrom, hfault]
      exact fun t ht ↦ .inl (List.mem_reverse.mp ht)

end Lexer

namespace Position

/-- The position comes earlier in the text. -/
def Before (p q : Position) : Prop := p.line < q.line ∨ p.line = q.line ∧ p.column < q.column

theorem before_step (p : Position) (c : Char) : p.Before (p.step c) := by
  unfold step Before
  split
  · exact .inl (Nat.lt_succ_self _)
  · exact .inr ⟨rfl, Nat.lt_succ_self _⟩

theorem Before.trans {p q r : Position} (h : p.Before q) (h' : q.Before r) : p.Before r := by
  unfold Before at *
  omega

theorem before_advance (p : Position) {cs : List Char} (h : cs ≠ []) : p.Before (p.advance cs) := by
  induction cs generalizing p with
  | nil => exact absurd rfl h
  | cons c cs ih =>
      cases cs with
      | nil => exact p.before_step c
      | cons d ds => exact (p.before_step c).trans (ih (p.step c) (List.cons_ne_nil d ds))

theorem not_before_self (p : Position) : ¬p.Before p := by
  unfold Before
  omega

/-- Two parts that begin a text are one if the same position is behind them. -/
theorem eq_of_advance_eq (p : Position) {a b x y : List Char} (h : a ++ b = x ++ y)
    (hpos : p.advance a = p.advance x) : a = x := by
  have hmore {u v : List Char} (hadvance : p.advance u = p.advance (u ++ v)) : v = [] := by
    by_contra hv
    have hbefore := before_advance (p.advance u) hv
    rw [← advance_append, ← hadvance] at hbefore
    exact not_before_self _ hbefore
  rcases List.append_eq_append_iff.mp h with ⟨v, rfl, -⟩ | ⟨v, rfl, -⟩
  · rw [hmore hpos, List.append_nil]
  · rw [hmore hpos.symm, List.append_nil]

end Position

namespace Lexed

/-- The same tokens up to the same fault, wherever they stand. -/
def SameTokens (x y : Lexed) : Prop :=
  x.tokens.map (·.token) = y.tokens.map (·.token) ∧ x.error.map (·.fault) = y.error.map (·.fault)

theorem sameTokens_shift (tokens : List PlacedToken) (x : Lexed) (base base' : Position) :
    SameTokens ⟨tokens ++ x.tokens.map (PlacedToken.shift base), x.error.map (LexError.shift base)⟩
      ⟨tokens ++ x.tokens.map (PlacedToken.shift base'),
        x.error.map (LexError.shift base')⟩ := by
  constructor
  · simp only [List.map_append, List.map_map]
    rfl
  · simp only [Option.map_map]
    rfl

end Lexed

/-- Where a token begins, a text can be cut in two that are split as on their own. -/
theorem lex_append_of_mem {a b : String} {t : PlacedToken} (ht : t ∈ (lex (a ++ b)).tokens)
    (hpos : t.pos = .behind a.toList) : (lex a).error = none ∧ lex (a ++ b) =
      ⟨(lex a).tokens ++ (lex b).tokens.map (PlacedToken.shift (.behind a.toList)),
        (lex b).error.map (LexError.shift (.behind a.toList))⟩ := by
  rw [lex, String.toList_append] at ht
  rcases Lexer.exists_whole_of_mem [] .start _ t ht with ht | ⟨before, after, hcs, hwhole, hbefore⟩
  · cases ht
  rw [hpos, ← Position.start_advance] at hbefore
  obtain rfl : a.toList = before := Position.eq_of_advance_eq .start hcs hbefore
  obtain rfl : b.toList = after := List.append_cancel_left hcs
  obtain ⟨hend, happend⟩ := hwhole.lexFrom_append [] .start
  refine ⟨hend, ?_⟩
  rw [lex, String.toList_append, happend, Position.start_advance, Lexer.lexFrom_eq_shift,
    List.reverse_reverse]
  rfl

/-- Behind a text that is split to its end, a gap keeps a text apart: its tokens and its fault are
those it has on its own, moved to where it stands. So another gap there changes only positions, and
so does a gap in front of any token of a text. -/
theorem lex_respaced :
    (∀ (a gap b : String) (tokens : List PlacedToken) (base : Position),
      tokenize a = .ok tokens → Lexer.Gap gap.toList → gap ≠ "" →
      base = .behind (a ++ gap).toList →
      lex (a ++ gap ++ b) = ⟨tokens ++ (lex b).tokens.map (PlacedToken.shift base),
        (lex b).error.map (LexError.shift base)⟩) ∧
    (∀ (a gap other b : String) (tokens : List PlacedToken), tokenize a = .ok tokens →
      Lexer.Gap gap.toList → gap ≠ "" → Lexer.Gap other.toList → other ≠ "" →
      (lex (a ++ gap ++ b)).SameTokens (lex (a ++ other ++ b))) ∧
    ∀ (a gap b : String) (t : PlacedToken), Lexer.Gap gap.toList → gap ≠ "" →
      t ∈ (lex (a ++ b)).tokens → t.pos = .behind a.toList →
      (lex (a ++ gap ++ b)).SameTokens (lex (a ++ b)) := by
  have hsplit {a gap b : String} (ha : (lex a).error = none) (hgap : Lexer.Gap gap.toList)
      (hne : gap ≠ "") := lex_append_gap ha hgap (fun hnil ↦ hne (String.toList_eq_nil_iff.mp hnil)) b
  refine ⟨?_, ?_, ?_⟩
  · rintro a gap b tokens base ha hgap hne rfl
    have hlex := tokenize_eq_ok_iff.mp ha
    rw [hsplit (by rw [hlex]) hgap hne, hlex]
  · intro a gap other b tokens ha hgap hne hother hne'
    have hend : (lex a).error = none := by rw [tokenize_eq_ok_iff.mp ha]
    rw [hsplit hend hgap hne, hsplit hend hother hne']
    exact Lexed.sameTokens_shift _ _ _ _
  · intro a gap b t hgap hne ht hpos
    obtain ⟨hend, hcut⟩ := lex_append_of_mem ht hpos
    rw [hsplit hend hgap hne, hcut]
    exact Lexed.sameTokens_shift _ _ _ _

/-- The comment keeps an operator and a number apart, whose fault stays on the second line; a newline
does as well. Where the number has a sign of its own, the operator ends in front of it anyway. -/
theorem lex_respaced_operator :
    tokenize "+-" = .ok [⟨.symbol "+-", ⟨1, 1⟩⟩] ∧ Lexer.Gap "[1]".toList ∧
    lex ("+-" ++ "[1]" ++ "1\n\x22") =
      ⟨[⟨.symbol "+-", ⟨1, 1⟩⟩, ⟨.number .one, ⟨1, 6⟩⟩], some ⟨.unterminatedString, ⟨2, 1⟩⟩⟩ ∧
    (lex ("+-" ++ "[1]" ++ "1\n\x22")).SameTokens (lex ("+-" ++ "\n" ++ "1\n\x22")) ∧
    ⟨.number (-.one), ⟨1, 2⟩⟩ ∈ (lex ("+" ++ "-1")).tokens ∧
    (lex ("+" ++ "[1]" ++ "-1")).SameTokens (lex ("+" ++ "-1")) := by
  have htokens : tokenize "+-" = .ok [⟨.symbol "+-", ⟨1, 1⟩⟩] := by decide +kernel
  have hcomment : Lexer.Gap "[1]".toList := .comment (by decide : ']' ∉ ['1']) .nil
  have hnewline : Lexer.Gap "\n".toList := .blank (by decide) .nil
  have hsigned : ⟨.number (-.one), ⟨1, 2⟩⟩ ∈ (lex ("+" ++ "-1")).tokens := by decide +kernel
  have hsplit := lex_respaced.1 "+-" "[1]" "1\n\x22" _ ⟨1, 6⟩ htokens hcomment (by decide)
    (by decide +kernel)
  have hrest : (lex "1\n\x22").tokens = [⟨.number .one, ⟨1, 1⟩⟩] := by decide +kernel
  have hfault : (lex "1\n\x22").error = some ⟨.unterminatedString, ⟨2, 1⟩⟩ := by decide +kernel
  rw [hrest, hfault] at hsplit
  exact ⟨htokens, hcomment, hsplit,
    lex_respaced.2.1 "+-" "[1]" "\n" "1\n\x22" _ htokens hcomment (by decide) hnewline (by decide),
    hsigned, lex_respaced.2.2 "+" "[1]" "-1" _ hcomment (by decide) hsigned (by decide +kernel)⟩

end MiniLisp
