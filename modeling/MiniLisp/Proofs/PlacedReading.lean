import MiniLisp.Proofs.LazyReading
import MiniLisp.Proofs.Separation

/-!
# Readers and places

A reader copies the place of a token into its error and uses it for nothing else. So tokens moved to
other places are read as the same forms, and refused with the same error at the place they have now.
-/

namespace MiniLisp

def ParseError.shift (base : Position) : ParseError → ParseError
  | .unexpectedToken expected found => .unexpectedToken expected (found.shift base)
  | e => e

def ReadError.shift (base : Position) : ReadError → ReadError
  | .lex e => .lex (e.shift base)
  | .parse e => .parse (e.shift base)

def ReadStep.shift (base : Position) : ReadStep → ReadStep
  | .refuse e => .refuse (e.shift base)
  | s => s

def TokenStream.shift (base : Position) (s : TokenStream) : TokenStream :=
  ⟨s.tokens.map (PlacedToken.shift base), s.pending.map (LexError.shift base), s.limit⟩

namespace Form

variable {limit : Int} (base : Position)

def shiftAnswer (answer : Except ReadError Form × TokenStream) :
    Except ReadError Form × TokenStream :=
  (answer.1.mapError (ReadError.shift base), answer.2.shift base)

theorem shift_deliver (form : Form) (depth : Nat) (stack : List Open) :
    (deliver form depth stack).shift base = deliver form depth stack := by
  induction stack generalizing form depth with
  | nil => rfl
  | cons o stack ih =>
      cases o with
      | quote => exact ih (.quote form) (depth - 1)
      | list items => rfl

theorem begin_shift (depth : Nat) (stack : List Open) (t : PlacedToken) :
    begin depth stack (t.shift base) = (begin depth stack t).shift base := by
  obtain ⟨token, pos⟩ := t
  cases token with
  | leftParen | rightParen | quoteMark => rfl
  | number x => exact (shift_deliver base (.number x) depth stack).symm
  | string s => exact (shift_deliver base (.string s) depth stack).symm
  | symbol name => exact (shift_deliver base (ofName name) depth stack).symm

theorem step_shift (depth : Nat) (stack : List Open) (t : PlacedToken) :
    step limit depth stack (t.shift base) = (step limit depth stack t).shift base := by
  by_cases hclosing : ∃ items outer, t.token = .rightParen ∧ stack = .list items :: outer
  · obtain ⟨items, outer, htoken, rfl⟩ := hclosing
    obtain ⟨token, pos⟩ := t
    cases htoken
    exact (shift_deliver base (.list items.reverse) (depth - 1) outer).symm
  · have hopen : ∀ items outer, t.token = .rightParen → stack ≠ .list items :: outer :=
      fun items outer htoken hstack ↦ hclosing ⟨items, outer, htoken, hstack⟩
    have hshift : ∀ items outer, (t.shift base).token = .rightParen →
        stack ≠ .list items :: outer := hopen
    rw [step_of_not_closing hopen, step_of_not_closing hshift, begin_shift]
    split <;> rfl

theorem readFrom_shift (pending : Option LexError) (depth : Nat) (stack : List Open)
    (ts : List PlacedToken) :
    readFrom limit (pending.map (LexError.shift base)) depth stack
        (ts.map (PlacedToken.shift base)) =
      shiftAnswer base (readFrom limit pending depth stack ts) := by
  induction ts generalizing depth stack with
  | nil =>
      simp only [List.map_nil, readFrom, endOfTokens]
      split
      · cases pending <;> rfl
      · split
        · rfl
        · cases pending <;> rfl
  | cons t ts ih =>
      rw [List.map_cons, readFrom, readFrom, step_shift]
      cases step limit depth stack t with
      | proceed depth stack => exact ih depth stack
      | finish | refuse | tooDeep => rfl

end Form

namespace TokenStream

variable (base : Position)

theorem readForm_shift (s : TokenStream) :
    (s.shift base).readForm = Form.shiftAnswer base s.readForm :=
  Form.readFrom_shift base s.pending 0 [] s.tokens

def Batch.shift (base : Position) (b : Batch) : Batch :=
  ⟨b.forms, b.error.map (ReadError.shift base), b.rest.shift base⟩

/-- The batch behind forms that were read before it. -/
def Batch.after (forms : List Form) (b : Batch) : Batch := { b with forms := forms ++ b.forms }

theorem readFormsFrom_shift (done : List Form) (s : TokenStream) :
    readFormsFrom done (s.shift base) = (readFormsFrom done s).shift base := by
  induction done, s using readFormsFrom.induct with
  | case1 done s htokens | case2 done s htokens =>
      obtain ⟨tokens, pending, limit⟩ := s
      cases htokens
      rw [readFormsFrom_nil]
      exact (readFormsFrom_nil _ done).trans (by cases pending <;> rfl)
  | case3 done s t ts htokens form rest hread ih =>
      have hshift := readForm_shift base s
      rw [hread] at hshift
      rw [readFormsFrom_of_readForm_ok hread, readFormsFrom_of_readForm_ok hshift]
      exact ih
  | case4 done s t ts htokens e rest hread =>
      have hshift := readForm_shift base s
      rw [hread] at hshift
      have hne : s.tokens ≠ [] := htokens ▸ List.cons_ne_nil t ts
      have hshifted : (s.shift base).tokens ≠ [] := fun hnil ↦ hne (List.map_eq_nil_iff.mp hnil)
      rw [readFormsFrom_of_readForm_error hne hread,
        readFormsFrom_of_readForm_error hshifted hshift]
      rfl

/-- Forms that were read before stand before those that are read now. -/
theorem readFormsFrom_eq_after (done more : List Form) (s : TokenStream) :
    readFormsFrom (done ++ more) s = (readFormsFrom done s).after more.reverse := by
  induction done, s using readFormsFrom.induct with
  | case1 done s htokens | case2 done s htokens =>
      obtain ⟨tokens, pending, limit⟩ := s
      cases htokens
      rw [readFormsFrom_nil, readFormsFrom_nil, Batch.after, List.reverse_append]
  | case3 done s t ts htokens form rest hread ih =>
      rw [readFormsFrom_of_readForm_ok hread, readFormsFrom_of_readForm_ok hread]
      exact ih
  | case4 done s t ts htokens e rest hread =>
      have hne : s.tokens ≠ [] := htokens ▸ List.cons_ne_nil t ts
      rw [readFormsFrom_of_readForm_error hne hread, readFormsFrom_of_readForm_error hne hread,
        Batch.after, List.reverse_append]

end TokenStream

end MiniLisp
