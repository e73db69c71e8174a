import MiniLisp.Proofs.Lexemes
import MiniLisp.Proofs.ZeroSigns

/-!
# Printed numbers read back

A finite number is printed in positional notation, without a fraction of nothing but zeros, and the
lexer takes the whole text as that number; only a zero loses its sign. So numbers with one text are
equal.
-/

namespace MiniLisp

namespace Lexer

variable {token : Token} {source : String}

/-- A lexeme that is the whole text is its only token. -/
theorem Spells.tokenize (h : Spells token source.toList) :
    tokenize source = .ok [⟨token, .start⟩] := by
  obtain ⟨c, cs, htext, hpiece⟩ := h
  have hwhole : piece c cs = .lexeme token cs.length := by simpa using hpiece [] rfl
  have hlex : lex source = ⟨[⟨token, .start⟩], none⟩ := by
    rw [lex, htext, lexFrom, hwhole]
    simp [lexFrom]
  rw [MiniLisp.tokenize, hlex]

/-- A fraction that does not end in a zero leaves no `.0` at the end. -/
theorem Numeral.Digital.not_suffix_text {n : Numeral} (hn : n.Digital)
    (hlast : n.fraction.getLast? ≠ some '0') : ¬ ['.', '0'] <:+ n.text := by
  rintro ⟨front, hfront⟩
  unfold Numeral.text at hfront
  split_ifs at hfront with hfraction
  · have hpoint : '.' ∈ n.whole := by
      rw [← hfront]
      exact List.mem_append_right _ List.mem_cons_self
    exact absurd (hn.isDigit_whole _ hpoint) (by decide)
  · have hne : n.fraction ≠ [] := by simpa using hfraction
    have hend : (['.', '0'] : List Char).getLast? = n.fraction.getLast? := by
      calc (['.', '0'] : List Char).getLast?
          = (n.whole ++ '.' :: n.fraction).getLast? := by
            rw [← hfront, List.getLast?_append_of_ne_nil _ (by simp)]
        _ = n.fraction.getLast? := by
            rw [List.getLast?_append_of_ne_nil _ (by simp), List.getLast?_cons_of_ne_nil hne]
    exact hlast hend.symm

end Lexer

namespace Double

variable {x : Double}

theorem not_suffix_render (hx : x.isFinite = true) : ¬ ['.', '0'] <:+ x.render.toList := by
  obtain ⟨negative, n, hn, hlast, htext, -⟩ := render_spells hx
  have hshort := hn.not_suffix_text hlast
  rw [htext]
  cases negative with
  | false => exact hshort
  | true =>
      rintro (hsuffix : _ <:+ '-' :: n.text)
      rcases List.suffix_cons_iff.mp hsuffix with heq | hsuffix
      · cases heq
      · exact hshort hsuffix

/-- The text of a number is one lexeme for it, so the number can be told from the text. -/
theorem render_inj {y : Double} (hx : x.isFinite = true) (hy : y.isFinite = true) :
    x.render = y.render ↔ x.equal y = true := by
  rw [equal_iff (isNaN_of_isFinite hx) (isNaN_of_isFinite hy)]
  constructor
  · intro h
    have hreads := (Lexer.spells_render hx).tokenize
    rw [h, (Lexer.spells_render hy).tokenize] at hreads
    injection hreads with hplaced
    injection hplaced with hplaced
    injection hplaced with htoken
    injection htoken with hvalue
    exact hvalue.symm
  · intro h
    rw [← render_dropZeroSign x, h, render_dropZeroSign]

/-- The text of a finite number is a numeral with or without a sign, has no `.0` at its end, and is
one token, which is the number without the sign of a zero. -/
theorem tokenize_render (hx : x.isFinite = true) :
    (∃ (negative : Bool) (n : Lexer.Numeral), n.Digital ∧
      x.render.toList = if negative then '-' :: n.text else n.text) ∧
    ¬ ['.', '0'] <:+ x.render.toList ∧
    tokenize x.render = .ok [⟨.number x.dropZeroSign, .start⟩] ∧
    ∀ y : Double, y.isFinite = true → x.equal y = false → x.render ≠ y.render := by
  obtain ⟨negative, n, hn, -, htext, -⟩ := render_spells hx
  refine ⟨⟨negative, n, hn, htext⟩, not_suffix_render hx, (Lexer.spells_render hx).tokenize, ?_⟩
  intro y hy hne hrender
  rw [(render_inj hx hy).mp hrender] at hne
  nomatch hne

/-- The number next to zero, and its neighbour. -/
theorem tokenize_render_subnormal :
    (Double.mk 1).isFinite = true ∧
      tokenize (Double.mk 1).render = .ok [⟨.number ⟨1⟩, ⟨1, 1⟩⟩] ∧
      (Double.mk 1).render ≠ (Double.mk 2).render := by
  have hfinite : (Double.mk 1).isFinite = true := by decide
  obtain ⟨-, -, htoken, hother⟩ := tokenize_render hfinite
  exact ⟨hfinite, htoken, hother ⟨2⟩ (by decide) (by decide)⟩

end Double

end MiniLisp
