import MiniLisp.Operation
import MiniLisp.Proofs.Batches

/-!
# Text that is split as far as it is read

A lexical error waits behind the last good token. A reader that stops before it never meets it; a
reader that would succeed on the tokens, or come to their end, meets it there. So splitting text as
it is read accepts what splitting it ahead accepts.
-/

namespace MiniLisp

namespace LexError

/-- The error of a reader behind whose tokens the lexical error waits, where the tokens alone lead to
the other one. -/
def orEarlier (e : LexError) : ReadError → ReadError
  | .parse (.unexpectedToken expected found) => .parse (.unexpectedToken expected found)
  | .parse (.nestingTooDeep limit) => .parse (.nestingTooDeep limit)
  | _ => .lex e

/-- The same, from the whole answer on the tokens alone: a success comes to their end. -/
def afterAnswer {α : Type} (e : LexError) : Except ReadError α → ReadError
  | .error x => e.orEarlier x
  | .ok _ => .lex e

end LexError

namespace Form

variable {limit : Int} {e : LexError}

/-- The answer and the rest when the error waits behind the tokens, from those when nothing does. -/
def meet (e : LexError) : Except ReadError Form × TokenStream → Except ReadError Form × TokenStream
  | (.error (.parse (.endOfInput _)), rest) => (.error (.lex e), rest)
  | (answer, rest) => (answer, { rest with pending := some e })

theorem readFrom_nil_some (depth : Nat) (stack : List Open) :
    readFrom limit (some e) depth stack [] = meet e (readFrom limit none depth stack []) := by
  simp only [readFrom, endOfTokens]
  split
  · rfl
  · split <;> rfl

theorem readFrom_some (depth : Nat) (stack : List Open) (ts : List PlacedToken) :
    readFrom limit (some e) depth stack ts = meet e (readFrom limit none depth stack ts) := by
  induction ts generalizing depth stack with
  | nil => exact readFrom_nil_some depth stack
  | cons t ts ih =>
      rw [readFrom, readFrom]
      cases hstep : step limit depth stack t with
      | finish form => rfl
      | proceed depth stack => exact ih depth stack
      | refuse error =>
          obtain ⟨rfl, -⟩ := step_eq_refuse_iff.mp hstep
          rfl
      | tooDeep => rfl

end Form

namespace TokenStream

variable {limit : Int} {e : LexError} {ts : List PlacedToken}

theorem readForm_some (ts : List PlacedToken) : (TokenStream.mk ts (some e) limit).readForm =
    Form.meet e (TokenStream.mk ts none limit).readForm :=
  Form.readFrom_some 0 [] ts

theorem readOnly_of_error {s : TokenStream} {x : ReadError} (h : s.readForm.1 = .error x) :
    s.readOnly = .error x := by
  rw [readOnly]
  rcases hread : s.readForm with ⟨answer, rest⟩
  rw [hread] at h
  cases h
  rfl

/-- Where no expression begins, the reader fails, and the error decides what becomes of the other. -/
theorem exists_error_of_not_accepts (h : ∀ form rest, ¬Accepts limit ts form rest) :
    ∃ x, (TokenStream.mk ts none limit).readForm.1 = .error x ∧
      ∀ e, (TokenStream.mk ts (some e) limit).readForm.1 =
        .error (e.orEarlier x) := by
  have hverdict := verdict_readForm ts limit
  simp only [readForm_some]
  generalize (TokenStream.mk ts none limit).readForm = read at hverdict ⊢
  obtain ⟨answer, rest⟩ := read
  change Verdict limit ts answer at hverdict
  cases hverdict with
  | @form form left haccepts => exact absurd haccepts (h form left)
  | unfinished | stray | tooDeep => exact ⟨_, rfl, fun _ ↦ rfl⟩

theorem readOnly_some (ts : List PlacedToken) : (TokenStream.mk ts (some e) limit).readOnly =
    .error (e.afterAnswer (TokenStream.mk ts none limit).readOnly) := by
  by_cases hform : ∃ form rest, Accepts limit ts form rest
  · obtain ⟨form, rest, h⟩ := hform
    rw [readOnly, readOnly, readForm_of_accepts h none, readForm_of_accepts h (some e)]
    cases rest <;> rfl
  · obtain ⟨x, hnone, hsome⟩ := exists_error_of_not_accepts fun form rest h ↦ hform ⟨form, rest, h⟩
    rw [readOnly_of_error hnone, readOnly_of_error (hsome e), LexError.afterAnswer]

/-- The forms of a stream, or the error that ends it. -/
def Batch.answer : Batch → Except ReadError (List Form)
  | ⟨forms, none, _⟩ => .ok forms
  | ⟨_, some e, _⟩ => .error e

theorem answer_readFormsFrom_of_error {s : TokenStream} {x : ReadError} (htokens : s.tokens ≠ [])
    (h : s.readForm.1 = .error x) (done : List Form) :
    (readFormsFrom done s).answer = .error x := by
  rcases hread : s.readForm with ⟨answer, rest⟩
  rw [hread] at h
  cases h
  rw [readFormsFrom_of_readForm_error htokens hread]
  rfl

theorem answer_readForms_some (ts : List PlacedToken) :
    (TokenStream.mk ts (some e) limit).readForms.answer =
      .error (e.afterAnswer (TokenStream.mk ts none limit).readForms.answer) := by
  obtain ⟨forms, left, hall, hstop⟩ := exists_acceptsAll limit ts
  rw [readForms, readForms, hall.readFormsFrom none, hall.readFormsFrom (some e)]
  cases left with
  | nil =>
      rw [readFormsFrom_nil, readFormsFrom_nil]
      rfl
  | cons t left =>
      obtain ⟨x, hnone, hsome⟩ := exists_error_of_not_accepts hstop
      rw [answer_readFormsFrom_of_error (List.cons_ne_nil t left) hnone,
        answer_readFormsFrom_of_error (List.cons_ne_nil t left) (hsome e), LexError.afterAnswer]

end TokenStream

namespace Operation

variable {e : LexError}

/-- What the end of an expression, or its delivery to the operator before it, leads to. -/
def settle (waiting : Option LexError) (ts : List PlacedToken) :
    Progress → Except ReadError Operation
  | .finish expression => conclude waiting expression ts
  | .proceed stack => readFrom waiting stack ts

theorem readFrom_rightParen (waiting : Option LexError) (p : Pending) (outer : List Pending)
    (pos : Position) (ts : List PlacedToken) :
    readFrom waiting (p :: outer) (⟨.rightParen, pos⟩ :: ts) =
      settle waiting ts (deliver (.apply p.operator p.operands.reverse) outer) := rfl

theorem readFrom_number (waiting : Option LexError) (stack : List Pending) (x : Double)
    (pos : Position) (ts : List PlacedToken) :
    readFrom waiting stack (⟨.number x, pos⟩ :: ts) =
      settle waiting ts (deliver (.number x) stack) := by
  cases stack <;> rfl

theorem readFrom_symbol (waiting : Option LexError) (stack : List Pending) (name : String)
    (pos : Position) (ts : List PlacedToken) :
    readFrom waiting stack (⟨.symbol name, pos⟩ :: ts) =
      settle waiting ts (deliver (.symbol name) stack) := by
  cases stack <;> rfl

theorem settle_some {ts : List PlacedToken} (progress : Progress)
    (h : ∀ stack, readFrom (some e) stack ts = .error (e.afterAnswer (readFrom none stack ts))) :
    settle (some e) ts progress = .error (e.afterAnswer (settle none ts progress)) := by
  cases progress with
  | finish expression => cases ts <;> rfl
  | proceed stack => exact h stack

theorem readFrom_some (stack : List Pending) (ts : List PlacedToken) :
    readFrom (some e) stack ts = .error (e.afterAnswer (readFrom none stack ts)) := by
  induction stack, ts using readFrom.induct none with
  | case1 | case2 => rfl
  | case3 t ts p outer htoken ih =>
      obtain ⟨token, pos⟩ := t
      cases htoken
      rw [readFrom_rightParen, readFrom_rightParen, settle_some _ ih]
  | case4 t ts x stack htoken ih =>
      obtain ⟨token, pos⟩ := t
      cases htoken
      rw [readFrom_number, readFrom_number, settle_some _ ih]
  | case5 t ts name stack htoken ih =>
      obtain ⟨token, pos⟩ := t
      cases htoken
      rw [readFrom_symbol, readFrom_symbol, settle_some _ ih]
  | case6 t stack htoken =>
      simp only [readFrom, htoken]
      rfl
  | case7 t stack htoken operator pos ts _ ih =>
      simp only [readFrom, htoken]
      exact ih
  | case8 t stack htoken u ts hnot =>
      simp only [readFrom, htoken]
      rfl
  | case9 stack t ts hnumber hsymbol hopen hclose =>
      simp only [readFrom]
      rfl

end Operation

theorem readForms_eq_answer (source : String) (limit : Int) :
    readForms source limit = (TokenStream.lazy source limit).readForms.answer := by
  unfold readForms TokenStream.Batch.answer
  rcases (TokenStream.lazy source limit).readForms with ⟨forms, error, rest⟩
  cases error <;> rfl

theorem tokenize_eq_ok_iff {source : String} {tokens : List PlacedToken} :
    tokenize source = .ok tokens ↔ lex source = ⟨tokens, none⟩ := by
  rw [tokenize]
  rcases lex source with ⟨_, error⟩
  cases error <;> simp

theorem tokenize_eq_error_iff {source : String} {e : LexError} :
    tokenize source = .error e ↔ (lex source).error = some e := by
  rw [tokenize]
  rcases lex source with ⟨_, error⟩
  cases error <;> simp

/-- Splitting a text as it is read gives the answers of splitting it ahead. An error of splitting is
met by every reader of the tokens before it that neither refuses one of them nor nests too deep. -/
theorem lazy_reading (source : String) (limit : Int) :
    (∀ tokens, tokenize source = .ok tokens →
      (TokenStream.lazy source limit).readOnly = (TokenStream.mk tokens none limit).readOnly ∧
      readForms source limit = (TokenStream.mk tokens none limit).readForms.answer ∧
      Operation.read (lex source) = Operation.read ⟨tokens, none⟩) ∧
    (∀ e, tokenize source = .error e →
      (TokenStream.lazy source limit).readOnly =
        .error (e.afterAnswer (TokenStream.mk (lex source).tokens none limit).readOnly) ∧
      readForms source limit =
        .error (e.afterAnswer (TokenStream.mk (lex source).tokens none limit).readForms.answer) ∧
      Operation.read (lex source) =
        .error (e.afterAnswer (Operation.read ⟨(lex source).tokens, none⟩))) := by
  rw [readForms_eq_answer]
  refine ⟨fun tokens h ↦ ?_, fun e h ↦ ?_⟩
  · have hlex := tokenize_eq_ok_iff.mp h
    rw [TokenStream.lazy, hlex]
    exact ⟨rfl, rfl, rfl⟩
  · have hlex : lex source = ⟨(lex source).tokens, some e⟩ := by
      rw [← tokenize_eq_error_iff.mp h]
    have hlazy : TokenStream.lazy source limit = ⟨(lex source).tokens, some e, limit⟩ := by
      rw [TokenStream.lazy, tokenize_eq_error_iff.mp h]
    have hread : Operation.read (lex source) =
        Operation.readFrom (some e) [] (lex source).tokens := by
      rw [Operation.read, tokenize_eq_error_iff.mp h]
    rw [hlazy, hread, TokenStream.readOnly_some, TokenStream.answer_readForms_some,
      Operation.readFrom_some]
    exact ⟨rfl, rfl, rfl⟩

/-- A name is read alike by every reader. A reader that refuses the parenthesis behind it does not
meet the open string behind both. -/
theorem lazy_reading_openString :
    tokenize "f" = .ok [⟨.symbol "f", ⟨1, 1⟩⟩] ∧
      (TokenStream.lazy "f" 3).readOnly = .ok (.symbol "f") ∧
      readForms "f" 3 = .ok [.symbol "f"] ∧
      Operation.read (lex "f") = .ok (.symbol "f") ∧
    tokenize "f ) \"x" = .error ⟨.unterminatedString, ⟨1, 5⟩⟩ ∧
      (TokenStream.lazy "f ) \"x" 3).readOnly =
        .error (.parse (.unexpectedToken .endOfInput ⟨.rightParen, ⟨1, 3⟩⟩)) ∧
      readForms "f ) \"x" 3 =
        .error (.parse (.unexpectedToken .expression ⟨.rightParen, ⟨1, 3⟩⟩)) ∧
      Operation.read (lex "f ) \"x") =
        .error (.parse (.unexpectedToken .endOfInput ⟨.rightParen, ⟨1, 3⟩⟩)) := by
  have hname (ts : List PlacedToken) :
      (TokenStream.mk (⟨.symbol "f", ⟨1, 1⟩⟩ :: ts) none 3).readForm =
        (.ok (.symbol "f"), ⟨ts, none, 3⟩) := rfl
  have hname_tokens : tokenize "f" = .ok [⟨.symbol "f", ⟨1, 1⟩⟩] := by decide +kernel
  obtain ⟨hname_only, hname_forms, hname_operation⟩ := (lazy_reading "f" 3).1 _ hname_tokens
  rw [TokenStream.readForms, TokenStream.readFormsFrom_of_readForm_ok (hname []),
    TokenStream.readFormsFrom_nil] at hname_forms
  have herror : tokenize "f ) \"x" = .error ⟨.unterminatedString, ⟨1, 5⟩⟩ := by decide +kernel
  have htokens : (lex "f ) \"x").tokens =
      [⟨.symbol "f", ⟨1, 1⟩⟩, ⟨.rightParen, ⟨1, 3⟩⟩] := by decide +kernel
  obtain ⟨honly, hforms, hoperation⟩ := (lazy_reading "f ) \"x" 3).2 _ herror
  rw [htokens] at honly hforms hoperation
  rw [TokenStream.readForms, TokenStream.readFormsFrom_of_readForm_ok (hname _),
    TokenStream.answer_readFormsFrom_of_error (List.cons_ne_nil _ _) rfl] at hforms
  exact ⟨hname_tokens, hname_only, hname_forms, hname_operation, herror, honly, hforms, hoperation⟩

end MiniLisp
