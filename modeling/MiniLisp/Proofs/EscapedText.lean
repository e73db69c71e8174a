import MiniLisp.Proofs.Separation
import MiniLisp.Proofs.SingleLines

/-!
# Escaped text in any context

An escaped text is one string wherever a token may begin. Nothing in it ends the string early, and
the string takes nothing of what follows, which is split as on its own and further on in the same
line.
-/

namespace MiniLisp

namespace Text

/-- Writes `new` in place of every `old`. -/
def replaceChar (old : Char) (new cs : List Char) : List Char :=
  cs.flatMap fun c ↦ if c = old then new else [c]

theorem replaceChar_append (old : Char) (new as bs : List Char) :
    replaceChar old new (as ++ bs) = replaceChar old new as ++ replaceChar old new bs :=
  List.flatMap_append

theorem replaceChar_singleton_of_ne {old c : Char} (new : List Char) (h : c ≠ old) :
    replaceChar old new [c] = [c] := by
  simp [replaceChar, h]

theorem escapeChar_eq_replaceChar (c : Char) :
    escapeChar c = replaceChar '\n' ['\x5c', 'n']
      (replaceChar '\x22' ['\x5c', '\x22'] (replaceChar '\x5c' ['\x5c', '\x5c'] [c])) := by
  unfold escapeChar
  split
  next hbackslash =>
    subst hbackslash
    rfl
  next hbackslash =>
    rw [replaceChar_singleton_of_ne _ hbackslash]
    split
    next hquotation =>
      subst hquotation
      rfl
    next hquotation =>
      rw [replaceChar_singleton_of_ne _ hquotation]
      split
      next hnewline =>
        subst hnewline
        rfl
      next hnewline => rw [replaceChar_singleton_of_ne _ hnewline]

/-- The characters are escaped by three replacements. Backslashes come first: those that the other
two write are not doubled. -/
theorem flatMap_escapeChar_eq_replaceChar (cs : List Char) :
    cs.flatMap escapeChar = replaceChar '\n' ['\x5c', 'n']
      (replaceChar '\x22' ['\x5c', '\x22'] (replaceChar '\x5c' ['\x5c', '\x5c'] cs)) := by
  induction cs with
  | nil => rfl
  | cons c cs ih =>
      rw [List.flatMap_cons, ih, escapeChar_eq_replaceChar, ← replaceChar_append,
        ← replaceChar_append, ← replaceChar_append, List.singleton_append]

end Text

namespace Position

/-- The position further on in the same line. -/
def right (pos : Position) (columns : Nat) : Position := ⟨pos.line, pos.column + columns⟩

theorem advance_of_newline_not_mem {cs : List Char} (h : '\n' ∉ cs) (pos : Position) :
    pos.advance cs = pos.right cs.length := by
  induction cs generalizing pos with
  | nil => rfl
  | cons c cs ih =>
      obtain ⟨hc, hcs⟩ := List.ne_and_not_mem_of_not_mem_cons h
      have hstep : pos.step c = pos.right 1 := if_neg (Ne.symm hc)
      rw [advance, List.foldl_cons, ← advance, ih hcs, hstep, right, right, right,
        List.length_cons, Nat.add_assoc, Nat.add_comm 1]

end Position

/-- The lexer goes on behind an escaped text with exactly what stands there. -/
theorem Lexer.lexFrom_escape (done : List PlacedToken) (pos : Position) (s : String)
    (rest : List Char) : lexFrom done pos ((Text.escape s).toList ++ rest) =
      lexFrom (⟨.string s, pos⟩ :: done) (pos.right (Text.escape s).length) rest := by
  have hline := Position.advance_of_newline_not_mem (Text.oneLine_escape s) pos
  have hcut : (Text.escape s).toList =
      '\x22' :: (s.toList.flatMap Text.escapeChar ++ ['\x22']) := String.toList_ofList
  have hpiece := piece_escape s.toList rest
  rw [String.ofList_toList, ← List.singleton_append, ← List.append_assoc] at hpiece
  rw [String.length_toList, hcut] at hline
  rw [hcut, List.cons_append, lexFrom_of_lexeme hpiece, hline]

theorem lex_append_escape {before : String} (h : (lex before).error = none) (s rest : String) :
    lex (before ++ Text.escape s ++ rest) =
      Lexer.lexFrom (⟨.string s, .behind before.toList⟩ :: (lex before).tokens.reverse)
        ((Position.behind before.toList).right (Text.escape s).length) rest.toList := by
  have hstops : Lexer.stops ((Text.escape s).toList ++ rest.toList) = true := by
    rw [Text.escape, String.toList_ofList]
    rfl
  rw [lex, String.toList_append, String.toList_append, List.append_assoc,
    Lexer.lexFrom_append_of_stops hstops [] .start before.toList h, Position.start_advance,
    Lexer.lexFrom_escape]
  rfl

theorem lex_escape (s : String) : lex (Text.escape s) = ⟨[⟨.string s, .start⟩], none⟩ := by
  have h := Lexer.lexFrom_escape [] .start s []
  rwa [List.append_nil, Lexer.lexFrom] at h

theorem Text.escape_injective : Function.Injective escape := by
  intro s t h
  have htokens : lex (escape s) = lex (escape t) := congrArg lex h
  rw [lex_escape, lex_escape] at htokens
  simpa using htokens

/-- Wherever a token may begin, an escaped text is one token, the string of that text; what follows
is split from there on as on its own. The escaped text, made by three replacements, is a single line
and that of no other text. -/
theorem escaped_text_lexed (s : String) :
    (Text.escape s).toList =
      '\x22' :: (Text.replaceChar '\n' ['\x5c', 'n'] (Text.replaceChar '\x22' ['\x5c', '\x22']
        (Text.replaceChar '\x5c' ['\x5c', '\x5c'] s.toList)) ++ ['\x22']) ∧
    (∀ (done : List PlacedToken) (pos : Position) (rest : List Char),
      Lexer.lexFrom done pos ((Text.escape s).toList ++ rest) =
        Lexer.lexFrom (⟨.string s, pos⟩ :: done) (pos.right (Text.escape s).length) rest) ∧
    (∀ (before rest : String) (tokens : List PlacedToken) (pos next : Position),
      tokenize before = .ok tokens → pos = .behind before.toList →
      next = pos.right (Text.escape s).length →
      lex (before ++ Text.escape s ++ rest) =
        ⟨tokens ++ ⟨.string s, pos⟩ :: (lex rest).tokens.map (PlacedToken.shift next),
          (lex rest).error.map (LexError.shift next)⟩) ∧
    OneLine (Text.escape s) ∧ ∀ t, Text.escape t = Text.escape s → t = s := by
  refine ⟨?_, fun done pos rest ↦ Lexer.lexFrom_escape done pos s rest, ?_, Text.oneLine_escape s,
    fun t h ↦ Text.escape_injective h⟩
  · rw [← Text.flatMap_escapeChar_eq_replaceChar]
    exact String.toList_ofList
  · rintro before rest tokens pos next h rfl rfl
    have hlex := tokenize_eq_ok_iff.mp h
    have hend : (lex before).error = none := by rw [hlex]
    have hsplit := lex_append_escape hend s rest
    rw [hlex, Lexer.lexFrom_eq_shift] at hsplit
    simpa using hsplit

/-- A text of quotation marks and backslashes, with a newline between them, ends where it is closed
and not before; the name behind it is on the same line. -/
theorem escaped_text_lexed_backslashes :
    tokenize "(x " = .ok [⟨.leftParen, ⟨1, 1⟩⟩, ⟨.symbol "x", ⟨1, 2⟩⟩] ∧
    lex ("(x " ++ Text.escape "\x5c\x22\n\x5c\x5cn\x5c" ++ "n)") =
      ⟨[⟨.leftParen, ⟨1, 1⟩⟩, ⟨.symbol "x", ⟨1, 2⟩⟩, ⟨.string "\x5c\x22\n\x5c\x5cn\x5c", ⟨1, 4⟩⟩,
        ⟨.symbol "n", ⟨1, 19⟩⟩, ⟨.rightParen, ⟨1, 20⟩⟩], none⟩ := by
  have hbefore : tokenize "(x " = .ok [⟨.leftParen, ⟨1, 1⟩⟩, ⟨.symbol "x", ⟨1, 2⟩⟩] := by
    decide +kernel
  have hrest : lex "n)" = ⟨[⟨.symbol "n", ⟨1, 1⟩⟩, ⟨.rightParen, ⟨1, 2⟩⟩], none⟩ :=
    tokenize_eq_ok_iff.mp (by decide +kernel)
  have hall := (escaped_text_lexed "\x5c\x22\n\x5c\x5cn\x5c").2.2.1 "(x " "n)" _ ⟨1, 4⟩ ⟨1, 19⟩
    hbefore (by decide +kernel) (by decide +kernel)
  rw [hrest] at hall
  exact ⟨hbefore, hall⟩

end MiniLisp
