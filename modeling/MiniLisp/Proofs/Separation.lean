import MiniLisp.Proofs.Partition

/-!
# Text behind separated text

A piece that ends before the end of a text, or at it, is the same whatever stands behind the text, as
long as no name, number or operator goes on there. So text that is split to its end can be cut off
at a gap: its tokens come first, and the text behind the gap is split as on its own.
-/

namespace MiniLisp

namespace Lexer

variable {rest : List Char}

section Boundary

theorem startsWithLetter_append_of_stops (h : stops rest = true) (cs : List Char) :
    startsWithLetter (cs ++ rest) = startsWithLetter cs := by
  cases cs with
  | nil =>
      cases rest with
      | nil => rfl
      | cons c cs => exact (stops_cons.mp h).1
  | cons c cs => rfl

theorem startsWithDigit_append_of_stops (h : stops rest = true) (cs : List Char) :
    startsWithDigit (cs ++ rest) = startsWithDigit cs := by
  cases cs with
  | nil => exact startsWithDigit_of_stops h
  | cons c cs => rfl

theorem nameRest_append_of_stops (h : stops rest = true) (cs : List Char) :
    nameRest (cs ++ rest) = nameRest cs := by
  induction cs with
  | nil => exact nameRest_of_stops h
  | cons c cs ih => rw [List.cons_append, nameRest, nameRest, startsWithLetter_append_of_stops h, ih]

theorem operatorRun_append_of_stops (h : stops rest = true) (cs : List Char) :
    operatorRun (cs ++ rest) = operatorRun cs := by
  induction cs with
  | nil => exact operatorRun_of_stops h
  | cons c cs ih =>
      rw [List.cons_append, operatorRun, operatorRun, startsWithDigit_append_of_stops h, ih]

theorem takeWhile_append_of_stops (h : stops rest = true) (cs : List Char) :
    (cs ++ rest).takeWhile isDigit = cs.takeWhile isDigit := by
  induction cs with
  | nil => exact (takeWhile_isDigit_append (List.forall_mem_nil _) (startsWithDigit_of_stops h)).1
  | cons c cs ih => rw [List.cons_append, List.takeWhile_cons, List.takeWhile_cons, ih]

theorem dropWhile_append_of_stops (h : stops rest = true) (cs : List Char) :
    (cs ++ rest).dropWhile isDigit = cs.dropWhile isDigit ++ rest := by
  induction cs with
  | nil => exact (takeWhile_isDigit_append (List.forall_mem_nil _) (startsWithDigit_of_stops h)).2
  | cons c cs ih =>
      rw [List.cons_append, List.dropWhile_cons, List.dropWhile_cons, ih]
      split <;> rfl

theorem fractionDigits_of_ne {c : Char} (hc : c ≠ '.') (cs : List Char) :
    fractionDigits (c :: cs) = [] := by
  unfold fractionDigits
  split
  next heq => exact absurd (List.cons.inj heq).1 hc
  next => rfl

theorem fractionDigits_append_of_stops (h : stops rest = true) (cs : List Char) :
    fractionDigits (cs ++ rest) = fractionDigits cs := by
  cases cs with
  | nil =>
      cases rest with
      | nil => rfl
      | cons c rest => exact fractionDigits_of_ne (stops_cons.mp h).2.2.2 rest
  | cons c cs =>
      by_cases hc : c = '.'
      · rw [hc, List.cons_append, fractionDigits, fractionDigits, takeWhile_append_of_stops h]
      · rw [List.cons_append, fractionDigits_of_ne hc, fractionDigits_of_ne hc]

theorem scan_append_of_stops (h : stops rest = true) (cs : List Char) :
    Numeral.scan (cs ++ rest) = Numeral.scan cs := by
  rw [Numeral.scan, takeWhile_append_of_stops h, dropWhile_append_of_stops h,
    fractionDigits_append_of_stops h, Numeral.scan]

theorem stringBody_append {done cs text left : List Char}
    (h : stringBody done cs = some (text, left)) (rest : List Char) :
    stringBody done (cs ++ rest) = some (text, left ++ rest) := by
  obtain ⟨raw, tail, rfl, hraw, rfl⟩ := exists_stringText h
  rw [List.append_assoc, List.cons_append, hraw.stringBody]

theorem piece_bracket (cs : List Char) : piece '[' cs = match cs.idxOf? ']' with
    | some n => .gap (n + 1)
    | none => .fault .unterminatedComment := rfl

/-- A piece that is found in a text is found there in front of any stop. -/
theorem piece_append_of_stops (h : stops rest = true) {c : Char} {cs : List Char}
    (hpiece : ∀ fault, piece c cs ≠ .fault fault) : piece c (cs ++ rest) = piece c cs := by
  have hbegins := begins_piece c cs
  generalize hfound : piece c cs = found at hbegins hpiece
  cases hbegins with
  | openComment | openString | unknown => exact absurd rfl (hpiece _)
  | blank hblank => rw [piece, if_pos hblank]
  | comment hclose =>
      obtain ⟨body, left, rfl, hbody, rfl⟩ := idxOf?_closing_eq_some hclose
      rw [List.append_assoc, List.cons_append, piece_bracket, idxOf?_closing_append hbody]
  | number hdigit =>
      rw [piece_digit _ hdigit, ← List.cons_append, scan_append_of_stops h]
  | negative hdigit =>
      rw [piece_minus _ ((startsWithDigit_append_of_stops h cs).trans hdigit),
        scan_append_of_stops h]
  | name hletter => rw [piece_letter _ hletter, nameRest_append_of_stops h]
  | underscore => rfl
  | operator hoperator hminus =>
      rw [piece_operator _ hoperator fun heq ↦
        (startsWithDigit_append_of_stops h cs).trans (hminus heq), operatorRun_append_of_stops h]
  | string hbody =>
      rw [piece_quotation, stringBody_append hbody]
      simp only [List.length_append]
      congr 1
      omega
  | leftParen | rightParen | quoteMark => rfl

end Boundary

section Gaps

theorem not_isBlank_of_graphic {c : Char} (hc : Text.isBlank c = true) :
    c.toNat < 33 ∨ 126 < c.toNat := by
  by_contra hrange
  rw [isBlank_of_graphic (by omega)] at hc
  nomatch hc

theorem graphic_of_isOperator {c : Char} (h : isOperator c = true) :
    33 ≤ c.toNat ∧ c.toNat ≤ 126 := by
  have hmem : c ∈ operatorChars := List.contains_iff_mem.mp h
  simp only [operatorChars, List.mem_cons, List.not_mem_nil, or_false] at hmem
  rcases hmem with rfl | rfl | rfl | rfl | rfl | rfl | rfl | rfl <;> decide

theorem Gap.stops_append {gap : List Char} (hgap : Gap gap) (hne : gap ≠ []) (rest : List Char) :
    stops (gap ++ rest) = true := by
  cases hgap with
  | nil => exact absurd rfl hne
  | comment => rfl
  | @blank c cs hc _ =>
      have hrange := not_isBlank_of_graphic hc
      refine stops_cons.mpr ⟨?_, ?_, ?_, ?_⟩
      · rw [Bool.eq_false_iff, Ne, isLetter_iff]
        omega
      · rw [Bool.eq_false_iff, Ne, isDigit_iff]
        omega
      · rw [Bool.eq_false_iff, Ne]
        intro hoperator
        have := graphic_of_isOperator hoperator
        omega
      · rintro rfl
        exact absurd hc (by decide)

theorem le_length_of_piece {c : Char} {cs : List Char} {more : Nat}
    (h : piece c cs = .gap more ∨ ∃ token, piece c cs = .lexeme token more) :
    more ≤ cs.length := by
  rcases h with h | ⟨token, h⟩
  · obtain ⟨gap, rest, hcs, hlength, -⟩ := exists_gap_of_piece h
    exact le_length_of_append hcs hlength
  · obtain ⟨x, rest, hcs, hlength, -⟩ := exists_lexeme_of_piece h
    exact le_length_of_append hcs hlength

/-- A piece that makes no token is passed over. -/
theorem lexFrom_of_gap {c : Char} {x : List Char} (h : piece c (x ++ rest) = .gap x.length)
    (done : List PlacedToken) (pos : Position) :
    lexFrom done pos (c :: (x ++ rest)) = lexFrom done (pos.advance (c :: x)) rest := by
  rw [lexFrom, h]
  simp only
  rw [List.take_left, List.drop_left]

/-- A piece that makes a token adds it, and the rest comes next. -/
theorem lexFrom_of_lexeme {c : Char} {x : List Char} {token : Token}
    (h : piece c (x ++ rest) = .lexeme token x.length) (done : List PlacedToken) (pos : Position) :
    lexFrom done pos (c :: (x ++ rest)) =
      lexFrom (⟨token, pos⟩ :: done) (pos.advance (c :: x)) rest := by
  rw [lexFrom, h]
  simp only
  rw [List.take_left, List.drop_left]

/-- A gap leaves no token behind. -/
theorem lexFrom_gap {gap : List Char} (hgap : Gap gap) (done : List PlacedToken) (pos : Position)
    (rest : List Char) :
    lexFrom done pos (gap ++ rest) = lexFrom done (pos.advance gap) rest := by
  induction hgap generalizing pos with
  | nil => rfl
  | @blank c cs hc _ ih =>
      have hpiece : piece c ([] ++ (cs ++ rest)) = .gap 0 := by rw [piece, if_pos hc]
      exact (lexFrom_of_gap hpiece done pos).trans (ih (pos.step c))
  | @comment body cs hbody _ ih =>
      have hcut : '[' :: (body ++ ']' :: cs) ++ rest = '[' :: (body ++ [']'] ++ (cs ++ rest)) := by
        simp
      have hpiece : piece '[' (body ++ [']'] ++ (cs ++ rest)) = .gap (body ++ [']']).length := by
        rw [List.append_assoc, List.singleton_append, piece_bracket, idxOf?_closing_append hbody,
          List.length_append, List.length_singleton]
      rw [hcut, lexFrom_of_gap hpiece, ih, ← Position.advance_append]
      simp

/-- Text that is split to its end is split the same in front of a stop. -/
theorem lexFrom_append_of_stops (h : stops rest = true) (done : List PlacedToken) (pos : Position)
    (cs : List Char) (hend : (lexFrom done pos cs).error = none) :
    lexFrom done pos (cs ++ rest) =
      lexFrom (lexFrom done pos cs).tokens.reverse (pos.advance cs) rest := by
  -- no piece reaches into `rest`, so the run over `cs` is the same piece after piece
  induction done, pos, cs using lexFrom.induct with
  | case1 done pos =>
      rw [lexFrom, List.reverse_reverse]
      rfl
  | case2 done pos c cs more hgap ih =>
      have hlength := le_length_of_piece (.inl hgap)
      have hpiece : piece c (cs ++ rest) = .gap more :=
        (piece_append_of_stops h (by simp [hgap])).trans hgap
      rw [lexFrom, hgap] at hend
      rw [List.cons_append, lexFrom, hpiece, lexFrom, hgap]
      simp only at hend ⊢
      rw [List.take_append_of_le_length hlength, List.drop_append_of_le_length hlength, ih hend,
        ← Position.advance_append, List.cons_append, List.take_append_drop]
  | case3 done pos c cs token more hlexeme ih =>
      have hlength := le_length_of_piece (.inr ⟨token, hlexeme⟩)
      have hpiece : piece c (cs ++ rest) = .lexeme token more :=
        (piece_append_of_stops h (by simp [hlexeme])).trans hlexeme
      rw [lexFrom, hlexeme] at hend
      rw [List.cons_append, lexFrom, hpiece, lexFrom, hlexeme]
      simp only at hend ⊢
      rw [List.take_append_of_le_length hlength, List.drop_append_of_le_length hlength, ih hend,
        ← Position.advance_append, List.cons_append, List.take_append_drop]
  | case4 done pos c cs fault hfault =>
      rw [lexFrom, hfault] at hend
      cases hend

end Gaps

end Lexer

namespace Position

/-- The place of what stands at `p` in a text of its own, when that text begins at `base`. -/
def shift (base p : Position) : Position :=
  if p.line = 1 then ⟨base.line, base.column + (p.column - 1)⟩
  else ⟨base.line + (p.line - 1), p.column⟩

variable {p : Position}

theorem shift_step (base : Position) (hline : 1 ≤ p.line) (hcolumn : 1 ≤ p.column) (c : Char) :
    base.shift (p.step c) = (base.shift p).step c := by
  unfold step shift
  by_cases hc : c = '\n'
  · have hnext : p.line + 1 ≠ 1 := by omega
    simp only [if_pos hc, if_neg hnext]
    split
    · simp_all
    · congr 1
      simp only
      omega
  · simp only [if_neg hc]
    split
    · congr 1
      simp only
      omega
    · rfl

theorem one_le_advance (hline : 1 ≤ p.line) (hcolumn : 1 ≤ p.column) (cs : List Char) :
    1 ≤ (p.advance cs).line ∧ 1 ≤ (p.advance cs).column := by
  induction cs generalizing p with
  | nil => exact ⟨hline, hcolumn⟩
  | cons c cs ih =>
      refine ih ?_ ?_
      · unfold step
        split
        · exact Nat.le_add_left 1 _
        · exact hline
      · unfold step
        split
        · exact Nat.le_refl 1
        · exact Nat.le_add_left 1 _

theorem shift_advance (base : Position) (hline : 1 ≤ p.line) (hcolumn : 1 ≤ p.column)
    (cs : List Char) : base.shift (p.advance cs) = (base.shift p).advance cs := by
  induction cs generalizing p with
  | nil => rfl
  | cons c cs ih =>
      have hstep := one_le_advance hline hcolumn [c]
      have hshift := ih hstep.1 hstep.2
      rw [advance, advance, List.foldl_cons, List.foldl_cons, ← shift_step base hline hcolumn]
      exact hshift

end Position

def PlacedToken.shift (base : Position) (t : PlacedToken) : PlacedToken :=
  { t with pos := base.shift t.pos }

def LexError.shift (base : Position) (e : LexError) : LexError := { e with pos := base.shift e.pos }

namespace Lexer

/-- A text is split the same wherever it begins, but for the places of its tokens. -/
theorem lexFrom_shift (base : Position) (before done : List PlacedToken) (p : Position)
    (hline : 1 ≤ p.line) (hcolumn : 1 ≤ p.column) (cs : List Char) :
    lexFrom (done.map (PlacedToken.shift base) ++ before) (base.shift p) cs =
      ⟨before.reverse ++ (lexFrom done p cs).tokens.map (PlacedToken.shift base),
        (lexFrom done p cs).error.map (LexError.shift base)⟩ := by
  induction done, p, cs using lexFrom.induct with
  | case1 done p =>
      rw [lexFrom, lexFrom]
      simp
  | case2 done p c cs more hgap ih =>
      have hnext := Position.one_le_advance hline hcolumn (c :: cs.take more)
      rw [lexFrom, hgap, lexFrom, hgap]
      simp only
      rw [← Position.shift_advance base hline hcolumn, ih hnext.1 hnext.2]
  | case3 done p c cs token more hlexeme ih =>
      have hnext := Position.one_le_advance hline hcolumn (c :: cs.take more)
      rw [lexFrom, hlexeme, lexFrom, hlexeme]
      simp only
      rw [← Position.shift_advance base hline hcolumn, ← ih hnext.1 hnext.2]
      rfl
  | case4 done p c cs fault hfault =>
      rw [lexFrom, hfault, lexFrom, hfault]
      simp [LexError.shift]

/-- Anywhere in a text, what comes is split as on its own. -/
theorem lexFrom_eq_shift (before : List PlacedToken) (base : Position) (text : String) :
    lexFrom before base text.toList =
      ⟨before.reverse ++ (lex text).tokens.map (PlacedToken.shift base),
        (lex text).error.map (LexError.shift base)⟩ :=
  lexFrom_shift base before [] .start (Nat.le_refl 1) (Nat.le_refl 1) text.toList

end Lexer

/-- Behind a text that is split to its end and a gap, a text is split as on its own. -/
theorem lex_append_gap {a gap : String} (ha : (lex a).error = none)
    (hgap : Lexer.Gap gap.toList) (hne : gap.toList ≠ []) (b : String) :
    lex (a ++ gap ++ b) =
      ⟨(lex a).tokens ++
          (lex b).tokens.map (PlacedToken.shift (Position.behind (a ++ gap).toList)),
        (lex b).error.map (LexError.shift (Position.behind (a ++ gap).toList))⟩ := by
  have hstops := hgap.stops_append hne b.toList
  have hplace : (Position.start.advance a.toList).advance gap.toList =
      Position.behind (a ++ gap).toList := by
    rw [Position.start_advance, Position.behind_advance, String.toList_append]
  have hsource : (a ++ gap ++ b).toList = a.toList ++ (gap.toList ++ b.toList) := by
    simp [String.toList_append]
  rw [lex, hsource, Lexer.lexFrom_append_of_stops hstops [] .start a.toList ha,
    Lexer.lexFrom_gap hgap, hplace, Lexer.lexFrom_eq_shift, List.reverse_reverse]
  rfl

end MiniLisp
