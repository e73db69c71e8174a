import MiniLisp.Form.Printer
import MiniLisp.Proofs.Lexemes

/-!
# Splitting text piece by piece

The tokens of a text are those of its pieces, one after the other, as long as what follows a piece
lets it end there.
-/

namespace MiniLisp

namespace Lexer

variable {a b text rest : List Char} {ts us tokens : List Token} {token : Token}

/-- In front of the rest, the text is split into these tokens. -/
def Splits (text rest : List Char) (tokens : List Token) : Prop :=
  ∀ done pos, ∃ placed : List PlacedToken, placed.map PlacedToken.token = tokens ∧
    lexFrom done pos (text ++ rest) = lexFrom (placed.reverse ++ done) (pos.advance text) rest

theorem splits_nil (rest : List Char) : Splits [] rest [] := fun _ _ ↦ ⟨[], rfl, rfl⟩

theorem Splits.append (ha : Splits a (b ++ rest) ts) (hb : Splits b rest us) :
    Splits (a ++ b) rest (ts ++ us) := by
  intro done pos
  obtain ⟨first, hfirst, hlexFirst⟩ := ha done pos
  obtain ⟨second, hsecond, hlexSecond⟩ := hb (first.reverse ++ done) (pos.advance a)
  refine ⟨first ++ second, by rw [List.map_append, hfirst, hsecond], ?_⟩
  rw [List.append_assoc, hlexFirst, hlexSecond, List.reverse_append, List.append_assoc,
    Position.advance, Position.advance, Position.advance, List.foldl_append]

theorem splits_gap {c : Char} {cs : List Char} (h : piece c (cs ++ rest) = .gap cs.length) :
    Splits (c :: cs) rest [] := by
  intro done pos
  refine ⟨[], rfl, ?_⟩
  rw [List.cons_append, lexFrom, h]
  simp

theorem splits_lexeme {c : Char} {cs : List Char}
    (h : piece c (cs ++ rest) = .lexeme token cs.length) : Splits (c :: cs) rest [token] := by
  intro done pos
  refine ⟨[⟨token, pos⟩], rfl, ?_⟩
  rw [List.cons_append, lexFrom, h]
  simp

theorem Spells.splits (h : Spells token text) (hrest : stops rest = true) :
    Splits text rest [token] := by
  obtain ⟨c, cs, rfl, hpiece⟩ := h
  exact splits_lexeme (hpiece rest hrest)

theorem tokenize_of_splits {source : String} (h : Splits source.toList [] tokens) :
    ∃ placed, tokenize source = .ok placed ∧ placed.map PlacedToken.token = tokens := by
  obtain ⟨placed, hplaced, hlex⟩ := h [] .start
  refine ⟨placed, ?_, hplaced⟩
  rw [List.append_nil, List.append_nil] at hlex
  have hsource : lex source = ⟨placed, none⟩ := by
    rw [lex, hlex, lexFrom, List.reverse_reverse]
  rw [tokenize, hsource]

theorem lexFrom_forall {P : Token → Prop}
    (hpiece : ∀ c cs token more, piece c cs = .lexeme token more → P token)
    (done : List PlacedToken) (pos : Position) (cs : List Char) (hdone : ∀ t ∈ done, P t.token) :
    ∀ t ∈ (lexFrom done pos cs).tokens, P t.token := by
  induction done, pos, cs using lexFrom.induct with
  | case1 done pos =>
      rw [lexFrom]
      exact fun t ht ↦ hdone t (List.mem_reverse.mp ht)
  | case2 done pos c cs more hgap ih =>
      rw [lexFrom, hgap]
      exact ih hdone
  | case3 done pos c cs token more hlexeme ih =>
      rw [lexFrom, hlexeme]
      refine ih fun t ht ↦ ?_
      rcases List.mem_cons.mp ht with rfl | ht
      · exact hpiece c cs token more hlexeme
      · exact hdone t ht
  | case4 done pos c cs fault hfault =>
      rw [lexFrom, hfault]
      exact fun t ht ↦ hdone t (List.mem_reverse.mp ht)

/-- The tokens of a text are printed as lexemes for the same tokens, but for the sign of a zero. -/
theorem spells_of_tokenize {source : String} {placed : List PlacedToken}
    (h : tokenize source = .ok placed) :
    ∀ t ∈ placed, Spells t.token.dropZeroSign t.token.text := by
  have hall := lexFrom_forall (fun _ _ _ _ ↦ spells_of_piece) [] .start source.toList nofun
  rw [← lex] at hall
  unfold tokenize at h
  rcases hlex : lex source with ⟨tokens, error⟩
  rw [hlex] at h hall
  cases error with
  | none =>
      cases h
      exact hall
  | some e => nomatch h

section Parentheses

variable {texts : List String} {tss : List (List Token)}

/-- Texts that are split by themselves wherever they may end, one space apart. -/
theorem splits_intercalate
    (h : List.Forall₂ (fun text ts ↦ ∀ rest, stops rest = true → Splits text.toList rest ts)
      texts tss) (hrest : stops rest = true) :
    Splits (" ".intercalate texts).toList rest tss.flatten := by
  induction h with
  | nil => exact splits_nil rest
  | @cons text ts texts tss htext htexts ih =>
      cases htexts with
      | nil => simpa using htext rest hrest
      | @cons next us texts tss hnext htexts =>
          have hspace : Splits [' '] ((" ".intercalate (next :: texts)).toList ++ rest) [] :=
            splits_gap (piece_space _)
          have htail := hspace.append ih
          have hhead := htext (([' '] ++ (" ".intercalate (next :: texts)).toList) ++ rest) rfl
          have hall := hhead.append htail
          rw [String.intercalate_cons_cons, String.toList_append, String.toList_append]
          simpa using hall

theorem splits_parenthesize
    (h : List.Forall₂ (fun text ts ↦ ∀ rest, stops rest = true → Splits text.toList rest ts)
      texts tss) (rest : List Char) : Splits (parenthesize texts).toList rest
      (.leftParen :: (tss.flatten ++ [.rightParen])) := by
  have hopen : Splits ['('] ((" ".intercalate texts).toList ++ [')'] ++ rest) [.leftParen] :=
    splits_lexeme (piece_leftParen _)
  have hclose : Splits [')'] rest [.rightParen] := splits_lexeme (piece_rightParen _)
  have hinside : Splits (" ".intercalate texts).toList ([')'] ++ rest) tss.flatten :=
    splits_intercalate h rfl
  have hall := hopen.append (hinside.append hclose)
  simpa [parenthesize] using hall

end Parentheses

end Lexer

end MiniLisp
