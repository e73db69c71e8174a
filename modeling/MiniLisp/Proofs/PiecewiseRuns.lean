import MiniLisp.Interpret
import MiniLisp.Proofs.PlacedReading

/-!
# Programs fed in pieces

A text whose forms can be read, a gap and another text have the effect of the two texts one after the
other: the tokens of the second are those it has on its own, at other places, and evaluation goes on
from the store that the first one left. A text that cannot be split has no effect.
-/

namespace MiniLisp

def RunError.shift (base : Position) : RunError → RunError
  | .read e => .read (e.shift base)
  | .eval e => .eval e

namespace Run

variable {α β : Type}

theorem adaptExcept_bind {ε ε' σ : Type} (f : ε → ε') (x : EStateM ε σ α) (g : α → EStateM ε σ β) :
    EStateM.adaptExcept f (x >>= g) =
      EStateM.adaptExcept f x >>= fun a ↦ EStateM.adaptExcept f (g a) := by
  funext s
  simp only [EStateM.adaptExcept, bind, EStateM.bind]
  cases x s <;> rfl

theorem ofEval_bind (x : Eval α) (g : α → Eval β) :
    ofEval (x >>= g) = ofEval x >>= fun a ↦ ofEval (g a) :=
  adaptExcept_bind RunError.eval x g

theorem shift_ofEval (base : Position) (x : Eval α) :
    EStateM.adaptExcept (RunError.shift base) (ofEval x) = ofEval x := by
  funext s
  simp only [ofEval, EStateM.adaptExcept]
  cases x s <;> rfl

end Run

theorem evaluateForms_append (limit : Int) (scope : FrameId) (last : Value)
    (forms more : List Form) :
    evaluateForms limit scope last (forms ++ more) =
      evaluateForms limit scope last forms >>= fun v ↦ evaluateForms limit scope v more := by
  induction forms generalizing last with
  | nil => rfl
  | cons form forms ih =>
      simp only [List.cons_append, evaluateForms, ih, bind_assoc]

/-- The value of a run whose forms have been evaluated, unless an error ended their reading. -/
def runEnd (error : Option ReadError) (v : Value) : Run Value :=
  match error with
  | some e => throw (.read e)
  | none => return v

theorem runBatch_eq (limit : Int) (scope : FrameId) (batch : TokenStream.Batch) :
    runBatch limit scope batch =
      Run.ofEval (evaluateForms limit scope .nil batch.forms) >>= runEnd batch.error := rfl

theorem interpret_of_lex {source : String} {tokens : List PlacedToken}
    (h : lex source = ⟨tokens, none⟩) (limits : Limits) (scope : FrameId) :
    interpret limits source scope =
      runBatch limits.depth scope (TokenStream.mk tokens none limits.nesting).readForms := by
  rw [interpret, TokenStream.eager, tokenize_eq_ok_iff.mpr h]
  rfl

/-- A text of one form does what its form does. -/
theorem interpret_single (limits : Limits) {source : String} {tokens : List PlacedToken}
    {form : Form} (htokens : tokenize source = .ok tokens)
    (hform : (TokenStream.mk tokens none limits.nesting).readForm =
      (.ok form, ⟨[], none, limits.nesting⟩)) (scope : FrameId) :
    interpret limits source scope =
      runBatch limits.depth scope ⟨[form], none, ⟨[], none, limits.nesting⟩⟩ := by
  rw [interpret_of_lex (tokenize_eq_ok_iff.mp htokens), TokenStream.readForms_single hform]

theorem exists_acceptsAll_of_readForms {source : String} {limit : Int} {forms : List Form}
    (h : readForms source limit = .ok forms) :
    ∃ tokens, lex source = ⟨tokens, none⟩ ∧ AcceptsAll limit tokens forms [] := by
  rw [readForms_eq_answer, TokenStream.lazy] at h
  generalize lex source = lexed at h ⊢
  obtain ⟨tokens, error⟩ := lexed
  cases error with
  | some e =>
      rw [TokenStream.answer_readForms_some] at h
      cases h
  | none =>
      refine ⟨tokens, rfl, ?_⟩
      obtain ⟨read, left, hall, hstop⟩ := exists_acceptsAll limit tokens
      rw [TokenStream.readForms, hall.readFormsFrom] at h
      cases left with
      | nil =>
          rw [TokenStream.readFormsFrom_nil] at h
          have hforms : read = forms := by simpa [TokenStream.Batch.answer] using h
          exact hforms ▸ hall
      | cons t left =>
          obtain ⟨x, hx, -⟩ := TokenStream.exists_error_of_not_accepts hstop
          rw [TokenStream.answer_readFormsFrom_of_error (List.cons_ne_nil t left) hx] at h
          cases h

/-- The value behind a text: its own, or the one before it where the text has no forms. -/
def valueBehind (nesting : Int) (source : String) (before own : Value) : Value :=
  match readForms source nesting with
  | .ok [] => before
  | _ => own

/-- Behind a value, the forms of a text and their end have the effect they have on their own. -/
theorem evaluateForms_runEnd_shift (base : Position) (limit : Int) (scope : FrameId)
    {nesting : Int} {source : String} {batch : TokenStream.Batch}
    (h : readForms source nesting = batch.answer) (v : Value) :
    Run.ofEval (evaluateForms limit scope v batch.forms) >>=
        runEnd (batch.error.map (ReadError.shift base)) =
      EStateM.adaptExcept (RunError.shift base) (runBatch limit scope batch) >>=
        fun u ↦ pure (valueBehind nesting source v u) := by
  rw [runBatch_eq, Run.adaptExcept_bind, Run.shift_ofEval, bind_assoc]
  -- the value before the forms is the value behind them only where there are none
  obtain ⟨forms, error, rest⟩ := batch
  cases error with
  | some e => cases forms <;> rfl
  | none =>
      cases forms <;> simp only [valueBehind, h, TokenStream.Batch.answer] <;> rfl

/-- The tokens of a text, a gap and another text are read form after form as those of the two
texts. -/
theorem readForms_pieces {a gap b : String} {nesting : Int} {forms : List Form}
    {tokens : List PlacedToken} (ha : readForms a nesting = .ok forms)
    (hgap : Lexer.Gap gap.toList) (hne : gap.toList ≠ []) (hb : lex b = ⟨tokens, none⟩) :
    ∃ first whole, lex a = ⟨first, none⟩ ∧ lex (a ++ gap ++ b) = ⟨whole, none⟩ ∧
      (TokenStream.mk first none nesting).readForms = ⟨forms, none, ⟨[], none, nesting⟩⟩ ∧
      (TokenStream.mk whole none nesting).readForms =
        ((TokenStream.mk tokens none nesting).readForms.shift
          (Position.behind (a ++ gap).toList)).after forms := by
  obtain ⟨first, hfirst, hall⟩ := exists_acceptsAll_of_readForms ha
  have hwhole := lex_append_gap (a := a) (by rw [hfirst]) hgap hne b
  rw [hfirst, hb] at hwhole
  refine ⟨first, _, hfirst, hwhole, ?_, ?_⟩
  · rw [TokenStream.readForms, hall.readFormsFrom, TokenStream.readFormsFrom_nil]
    simp
  · have hshift := TokenStream.readFormsFrom_shift (Position.behind (a ++ gap).toList) []
      ⟨tokens, none, nesting⟩
    have hafter := TokenStream.readFormsFrom_eq_after [] forms.reverse
      (TokenStream.shift (Position.behind (a ++ gap).toList) ⟨tokens, none, nesting⟩)
    rw [List.reverse_reverse, hshift] at hafter
    rw [TokenStream.readForms, (hall.append _).readFormsFrom, List.append_nil]
    exact hafter

/-- A text whose forms can be read, blanks and another text run as the two texts one after the other,
but that an error of reading names the place of a token behind both. A text that cannot be split
leaves the store as it was. -/
theorem interpret_pieces (limits : Limits) (scope : FrameId) :
    (∀ (a blanks b : String) (forms : List Form) (tokens : List PlacedToken),
      readForms a limits.nesting = .ok forms → blanks.toList ≠ [] →
      (∀ c ∈ blanks.toList, Text.isBlank c = true) → tokenize b = .ok tokens →
      interpret limits (a ++ blanks ++ b) scope = do
        let v ← interpret limits a scope
        let u ← EStateM.adaptExcept (RunError.shift (Position.behind (a ++ blanks).toList))
          (interpret limits b scope)
        return valueBehind limits.nesting b v u) ∧
    (∀ (source : String) (e : LexError), tokenize source = .error e →
      ∀ s, (interpret limits source scope).run s = .error (.read (.lex e)) s) := by
  refine ⟨fun a blanks b forms tokens ha hne hblank hb ↦ ?_, fun source e h s ↦ ?_⟩
  · have hlex := tokenize_eq_ok_iff.mp hb
    obtain ⟨first, whole, hfirst, hwhole, hforms, hall⟩ :=
      readForms_pieces ha (Lexer.Gap.of_blanks hblank) hne hlex
    have hanswer : readForms b limits.nesting =
        (TokenStream.mk tokens none limits.nesting).readForms.answer := by
      rw [readForms_eq_answer, TokenStream.lazy, hlex]
    rw [interpret_of_lex hwhole, interpret_of_lex hfirst, interpret_of_lex hlex, hforms, hall,
      runBatch_eq, runBatch_eq limits.depth scope ⟨forms, _, _⟩, bind_assoc]
    simp only [TokenStream.Batch.after, TokenStream.Batch.shift, evaluateForms_append,
      Run.ofEval_bind, bind_assoc]
    refine congrArg _ (funext fun v ↦ ?_)
    rw [evaluateForms_runEnd_shift _ _ _ hanswer]
    rfl
  · rw [interpret, TokenStream.eager, h]
    rfl

/-- A stray parenthesis in the second text is refused on the second line, after the first text has
run; an open string behind the first text keeps it from running. -/
theorem interpret_pieces_strayParenthesis :
    interpret ⟨9, 9⟩ "f\nx )" 0 = (do
      let v ← interpret ⟨9, 9⟩ "f" 0
      let u ← EStateM.adaptExcept (RunError.shift ⟨2, 1⟩) (interpret ⟨9, 9⟩ "x )" 0)
      return valueBehind 9 "x )" v u) ∧
    (interpret ⟨9, 9⟩ "f \"x" 0).run Store.initial =
      .error (.read (.lex ⟨.unterminatedString, ⟨1, 3⟩⟩)) Store.initial := by
  have hf : tokenize "f" = .ok [⟨.symbol "f", ⟨1, 1⟩⟩] := by decide +kernel
  have hforms : readForms "f" 9 = .ok [.symbol "f"] := by
    have hname : (TokenStream.mk [⟨.symbol "f", ⟨1, 1⟩⟩] none 9).readForm =
        (.ok (.symbol "f"), ⟨[], none, 9⟩) := rfl
    rw [readForms_eq_answer, TokenStream.lazy, tokenize_eq_ok_iff.mp hf, TokenStream.readForms,
      TokenStream.readFormsFrom_of_readForm_ok hname, TokenStream.readFormsFrom_nil]
    rfl
  have htokens : tokenize "x )" = .ok [⟨.symbol "x", ⟨1, 1⟩⟩, ⟨.rightParen, ⟨1, 3⟩⟩] := by
    decide +kernel
  have herror : tokenize "f \"x" = .error ⟨.unterminatedString, ⟨1, 3⟩⟩ := by decide +kernel
  have hblank : ∀ c ∈ "\n".toList, Text.isBlank c = true :=
    List.all_eq_true.mp (by decide)
  exact ⟨(interpret_pieces ⟨9, 9⟩ 0).1 "f" "\n" "x )" _ _ hforms (by decide) hblank htokens,
    (interpret_pieces ⟨9, 9⟩ 0).2 _ _ herror Store.initial⟩

end MiniLisp
