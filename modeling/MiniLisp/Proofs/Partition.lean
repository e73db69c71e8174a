import MiniLisp.Proofs.LexicalGrammar

/-!
# Text as gaps and lexemes

The tokens of a text are those of its lexemes, each the longest that begins where it does, with gaps
around them. Splitting ends behind the last gap, or at a fault. Positions count the newlines before
a place, and the characters behind the last of them.
-/

namespace MiniLisp

/-- The position behind a text. -/
def Position.behind (before : List Char) : Position :=
  ⟨before.count '\n' + 1, (before.rtakeWhile (· != '\n')).length + 1⟩

theorem Position.start_advance (before : List Char) :
    Position.start.advance before = Position.behind before := by
  induction before using List.reverseRecOn with
  | nil => rfl
  | append_singleton before c ih =>
      rw [advance] at ih ⊢
      rw [List.foldl_concat, ih, step, behind, behind, List.count_append]
      by_cases hc : c = '\n'
      · simp [hc, List.rtakeWhile_concat_neg]
      · simp [hc, List.rtakeWhile_concat_pos]

theorem Position.advance_append (pos : Position) (a b : List Char) :
    pos.advance (a ++ b) = (pos.advance a).advance b :=
  List.foldl_append

theorem Position.behind_advance (before cs : List Char) :
    (Position.behind before).advance cs = Position.behind (before ++ cs) := by
  rw [← start_advance, ← start_advance, advance_append]

namespace Lexer

/-- Behind the text `before`, the text consists of gaps and of the longest lexemes for these tokens,
to its end or to a fault. -/
inductive Partition : List Char → List Char → List PlacedToken → Option LexError → Prop
  | ended {before gap : List Char} (hgap : Gap gap) : Partition before gap [] none
  | fault {before gap text : List Char} {fault : LexFault} (hgap : Gap gap)
      (h : Faulty fault text) :
      Partition before (gap ++ text) [] (some ⟨fault, Position.behind (before ++ gap)⟩)
  | lexeme {before gap x rest : List Char} {token : Token} {tokens : List PlacedToken}
      {error : Option LexError} (hgap : Gap gap) (hne : x ≠ []) (h : Lexeme rest token x)
      (hlongest : Longest x rest) (hrange : ∀ d, token = .number d → d.isInfinite = false)
      (hrest : Partition (before ++ gap ++ x) rest tokens error) :
      Partition before (gap ++ (x ++ rest))
        (⟨token, Position.behind (before ++ gap)⟩ :: tokens) error

theorem Partition.behind_gap {before gap text : List Char} {tokens : List PlacedToken}
    {error : Option LexError} (hgap : Gap gap) (h : Partition (before ++ gap) text tokens error) :
    Partition before (gap ++ text) tokens error := by
  generalize hbefore : before ++ gap = whole at h
  cases h with
  | ended hmore => exact .ended (hgap.append hmore)
  | fault hmore h =>
      rw [← hbefore, ← List.append_assoc, List.append_assoc before]
      exact .fault (hgap.append hmore) h
  | lexeme hmore hne h hlongest hrange hrest =>
      subst hbefore
      rw [← List.append_assoc, List.append_assoc before]
      refine .lexeme (hgap.append hmore) hne h hlongest hrange ?_
      rwa [← List.append_assoc before]

theorem exists_gap_of_piece {c : Char} {cs : List Char} {more : Nat}
    (h : piece c cs = .gap more) :
    ∃ gap rest, gap ++ rest = c :: cs ∧ gap.length = more + 1 ∧ Gap gap := by
  have hbegins := begins_piece c cs
  rw [h] at hbegins
  generalize hpiece : Piece.gap more = found at hbegins
  cases hbegins with
  | blank hblank =>
      cases hpiece
      exact ⟨[c], cs, rfl, rfl, .blank hblank .nil⟩
  | comment hclose =>
      cases hpiece
      obtain ⟨body, rest, rfl, hbody, rfl⟩ := idxOf?_closing_eq_some hclose
      exact ⟨'[' :: (body ++ [']']), rest, by simp, by simp, .comment hbody .nil⟩
  | number | negative => exact absurd hpiece.symm numberPiece_ne_gap
  | openComment | openString | unknown | name | underscore | operator | string | leftParen
  | rightParen | quoteMark => nomatch hpiece

/-- A piece of a text, cut at its length. -/
theorem take_drop_of_append {c : Char} {cs x rest : List Char} {more : Nat}
    (h : x ++ rest = c :: cs) (hlength : x.length = more + 1) :
    c :: cs.take more = x ∧ cs.drop more = rest := by
  constructor
  · rw [← List.take_succ_cons, ← h, ← hlength, List.take_left]
  · rw [← List.drop_succ_cons, ← h, ← hlength, List.drop_left]

theorem le_length_of_append {c : Char} {cs x rest : List Char} {more : Nat}
    (h : x ++ rest = c :: cs) (hlength : x.length = more + 1) : more ≤ cs.length := by
  have := congrArg List.length h
  simp only [List.length_append, List.length_cons] at this
  omega

theorem partition_lexFrom (done : List PlacedToken) (pos : Position) (cs before : List Char)
    (hpos : pos = Position.behind before) : ∃ tokens,
      (lexFrom done pos cs).tokens = done.reverse ++ tokens ∧
        Partition before cs tokens (lexFrom done pos cs).error := by
  -- a position is told by the whole text before it, so that text grows with the run
  induction done, pos, cs using lexFrom.induct generalizing before with
  | case1 done pos =>
      rw [lexFrom]
      exact ⟨[], by simp, .ended .nil⟩
  | case2 done pos c cs more hgap ih =>
      obtain ⟨gap, rest, hcs, hlength, h⟩ := exists_gap_of_piece hgap
      obtain ⟨htake, hdrop⟩ := take_drop_of_append hcs hlength
      rw [lexFrom, hgap]
      simp only
      rw [htake, hdrop, hpos, Position.behind_advance] at ih ⊢
      obtain ⟨tokens, htokens, hrest⟩ := ih (before ++ gap) rfl
      rw [← hcs]
      exact ⟨tokens, htokens, hrest.behind_gap h⟩
  | case3 done pos c cs token more hlexeme ih =>
      obtain ⟨x, rest, hcs, hlength, h, hrange⟩ := exists_lexeme_of_piece hlexeme
      obtain ⟨htake, hdrop⟩ := take_drop_of_append hcs hlength
      have hlongest : Longest x rest := longest_of_reach hcs (by rw [hlexeme, hlength]; rfl)
      rw [lexFrom, hlexeme]
      simp only
      rw [htake, hdrop, hpos, Position.behind_advance] at ih ⊢
      obtain ⟨tokens, htokens, hrest⟩ := ih (before ++ x) rfl
      refine ⟨⟨token, Position.behind before⟩ :: tokens, ?_, ?_⟩
      · rw [htokens]
        simp
      · rw [← hcs]
        have hall : Partition before ([] ++ (x ++ rest)) _ _ :=
          .lexeme .nil h.ne_nil h hlongest hrange (by simpa using hrest)
        simpa using hall
  | case4 done pos c cs fault hfault =>
      rw [lexFrom, hfault]
      have hall : Partition before ([] ++ c :: cs) _ _ := .fault .nil (faulty_of_piece hfault)
      refine ⟨[], by simp, ?_⟩
      rw [hpos]
      simpa using hall

end Lexer

/-- A text is split into the longest lexemes, with gaps around them, up to its end or to a fault;
every token and the fault bear the position of their first character. -/
theorem lex_partition (source : String) :
    Lexer.Partition [] source.toList (lex source).tokens (lex source).error := by
  obtain ⟨tokens, htokens, h⟩ := Lexer.partition_lexFrom [] .start source.toList [] rfl
  rw [lex, htokens]
  exact h

end MiniLisp
