import MiniLisp.Form
import MiniLisp.Token.Stream

/-!
# Reading forms

One token after the other, with a stack of the expressions that are still open: a mark waits for one
form, a list for any number and its closing parenthesis. The height of the stack is the nesting
depth of the form that comes next. A form deeper than the limit is refused before its first token is
taken; a closing parenthesis is not a form and may stand at any depth.
-/

namespace MiniLisp

/-- An open expression; the items of a list are in reverse order. -/
inductive Open where
  | quote
  | list (items : List Form)

inductive ReadStep where
  | finish (form : Form)
  | proceed (depth : Nat) (stack : List Open)
  | refuse (error : ParseError)
  | tooDeep

namespace Form

/-- Hands a finished form to the innermost open expression. -/
def deliver (form : Form) (depth : Nat) : List Open → ReadStep
  | [] => .finish form
  | .quote :: stack => deliver (.quote form) (depth - 1) stack
  | .list items :: stack => .proceed depth (.list (form :: items) :: stack)

/-- The step at a token that begins a form, or is a stray closing parenthesis. -/
def begin (depth : Nat) (stack : List Open) (t : PlacedToken) : ReadStep :=
  match t.token with
  | .leftParen => .proceed (depth + 1) (.list [] :: stack)
  | .rightParen => .refuse (.unexpectedToken .expression t)
  | .quoteMark => .proceed (depth + 1) (.quote :: stack)
  | .number x => deliver (.number x) depth stack
  | .string s => deliver (.string s) depth stack
  | .symbol name => deliver (ofName name) depth stack

def step (limit : Int) (depth : Nat) (stack : List Open) (t : PlacedToken) : ReadStep :=
  match t.token, stack with
  | .rightParen, .list items :: outer => deliver (.list items.reverse) (depth - 1) outer
  | _, _ => if limit < depth then .tooDeep else begin depth stack t

/-- The error of a reader that has no token left, and the lexical error that still waits. -/
def endOfTokens (limit : Int) (pending : Option LexError) (depth : Nat) (stack : List Open) :
    ReadError × Option LexError :=
  let asked (expected : Expected) : ReadError × Option LexError :=
    match pending with
    | some e => (.lex e, none)
    | none => (.parse (.endOfInput expected), none)
  match stack with
  | .list _ :: _ => asked .closingParenthesis
  | _ => if limit < depth then (.parse (.nestingTooDeep limit), pending) else asked .expression

/-- Reads on to the end of the outermost open expression. -/
def readFrom (limit : Int) (pending : Option LexError) :
    Nat → List Open → List PlacedToken → Except ReadError Form × TokenStream
  | depth, stack, [] =>
    let (e, pending) := endOfTokens limit pending depth stack
    (.error e, ⟨[], pending, limit⟩)
  | depth, stack, t :: ts =>
    match step limit depth stack t with
    | .finish form => (.ok form, ⟨ts, pending, limit⟩)
    | .proceed depth stack => readFrom limit pending depth stack ts
    | .refuse e => (.error (.parse e), ⟨ts, pending, limit⟩)
    | .tooDeep => (.error (.parse (.nestingTooDeep limit)), ⟨t :: ts, pending, limit⟩)

theorem readFrom_ok_length {limit : Int} {pending : Option LexError} {depth : Nat}
    {stack : List Open} {ts : List PlacedToken} {form : Form} {rest : TokenStream}
    (h : readFrom limit pending depth stack ts = (.ok form, rest)) :
    rest.tokens.length < ts.length := by
  induction ts generalizing depth stack with
  | nil => simp [readFrom] at h
  | cons t ts ih =>
    rw [readFrom] at h
    split at h
    · obtain ⟨-, rfl⟩ := Prod.mk.inj h
      simp
    · exact Nat.lt_succ_of_lt (ih h)
    · simp at h
    · simp at h

end Form

namespace TokenStream

def readForm (s : TokenStream) : Except ReadError Form × TokenStream :=
  Form.readFrom s.limit s.pending 0 [] s.tokens

/-- The forms that were read before the end of the stream or before an error. -/
structure Batch where
  forms : List Form
  error : Option ReadError
  rest : TokenStream

/-- Reads forms until the stream ends; `done` holds those before, reversed. -/
def readFormsFrom (done : List Form) (s : TokenStream) : Batch :=
  match s.tokens with
  | [] =>
    match s.exhausted with
    | (.ok _, rest) => ⟨done.reverse, none, rest⟩
    | (.error e, rest) => ⟨done.reverse, some e, rest⟩
  | _ :: _ =>
    match _read : s.readForm with
    | (.ok form, rest) => readFormsFrom (form :: done) rest
    | (.error e, rest) => ⟨done.reverse, some e, rest⟩
termination_by s.tokens.length
decreasing_by exact Form.readFrom_ok_length _read

def readForms (s : TokenStream) : Batch := readFormsFrom [] s

def readOnly (s : TokenStream) : Except ReadError Form :=
  match s.readForm with
  | (.error e, _) => .error e
  | (.ok form, rest) =>
    match rest.peek.1 with
    | .error e => .error e
    | .ok (some t) => .error (.parse (.unexpectedToken .endOfInput t))
    | .ok none => .ok form

end TokenStream

def readForms (source : String) (limit : Int) : Except ReadError (List Form) :=
  match (TokenStream.lazy source limit).readForms with
  | ⟨forms, none, _⟩ => .ok forms
  | ⟨_, some e, _⟩ => .error e

end MiniLisp
