import MiniLisp.Form.Parser
import MiniLisp.Token.Buffer

/-!
# Reading by recursive descent

One reader for a form, and one for the items of a list that is open. A form takes its first token
unseen; a list looks whether it is closed before it asks for another item. Each form has taken at
least one token of the stream, so reading comes to an end.
-/

namespace MiniLisp

namespace BufferedStream

/-- What a reader of `s` answers, and the stream that it leaves. -/
structure Answer (s : BufferedStream) where
  result : Except ReadError Form
  rest : BufferedStream
  size_lt : ∀ form, result = .ok form → rest.size < s.size

namespace Answer

variable {s s' : BufferedStream}

def fail (e : ReadError) (rest : BufferedStream) : Answer s := ⟨.error e, rest, nofun⟩

def finish (form : Form) (rest : BufferedStream) (h : rest.size < s.size) : Answer s :=
  ⟨.ok form, rest, fun _ _ ↦ h⟩

/-- The answer of a reader that went on from a later stream. -/
def since (a : Answer s') (h : s'.size ≤ s.size) : Answer s :=
  ⟨a.result, a.rest, fun form hform ↦ Nat.lt_of_lt_of_le (a.size_lt form hform) h⟩

def quote (a : Answer s) : Answer s where
  result := a.result.map .quote
  rest := a.rest
  size_lt := by
    intro form hform
    cases hresult : a.result with
    | error e =>
        rw [hresult] at hform
        cases hform
    | ok inner => exact a.size_lt inner hresult

end Answer

mutual

/-- Reads a form that is nested at `depth`. -/
def descend (depth : Nat) (s : BufferedStream) : Answer s :=
  if s.limit < depth then .fail (.parse (.nestingTooDeep s.limit)) s
  else
    match hnext : s.advance with
    | (.error e, rest) => .fail e rest
    | (.ok none, rest) => .fail (.parse (.endOfInput .expression)) rest
    | (.ok (some t), rest) =>
      have hlt : rest.size < s.size := size_advance hnext
      match t.token with
      | .leftParen => (descendItems (depth + 1) [] rest).since (Nat.le_of_lt hlt)
      | .quoteMark => ((descend (depth + 1) rest).since (Nat.le_of_lt hlt)).quote
      | .rightParen => .fail (.parse (.unexpectedToken .expression t)) rest
      | .number x => .finish (.number x) rest hlt
      | .string text => .finish (.string text) rest hlt
      | .symbol name => .finish (.ofName name) rest hlt
termination_by (s.size, 0)
decreasing_by
  · exact .left _ _ hlt
  · exact .left _ _ hlt

/-- Reads the items of an open list, which are nested at `depth`, behind those that are there in
reverse order. -/
def descendItems (depth : Nat) (items : List Form) (s : BufferedStream) : Answer s :=
  match hnext : s.peek with
  | (.error e, rest) => .fail e rest
  | (.ok none, rest) => .fail (.parse (.endOfInput .closingParenthesis)) rest
  | (.ok (some t), rest) =>
    if t.token = .rightParen then
      .finish (.list items.reverse) rest.advance.2 (size_advance_of_peek hnext)
    else
      have hle : rest.size ≤ s.size := (peek_spec hnext).2
      let item := descend depth rest
      match hitem : item.result with
      | .error e => .fail e item.rest
      | .ok form =>
        have hlt : item.rest.size < s.size := Nat.lt_of_lt_of_le (item.size_lt form hitem) hle
        (descendItems depth (form :: items) item.rest).since (Nat.le_of_lt hlt)
termination_by (s.size, 1)
decreasing_by
  · exact Prod.Lex.right' _ hle Nat.zero_lt_one
  · exact .left _ _ hlt

end

def readForm (s : BufferedStream) : Except ReadError Form × BufferedStream :=
  let answer := s.descend 0
  (answer.result, answer.rest)

/-- The forms that were read before the end of the stream or before an error. -/
structure Batch where
  forms : List Form
  error : Option ReadError
  rest : BufferedStream

/-- Reads forms as long as there is a token; `done` holds those before, reversed. -/
def readFormsFrom (done : List Form) (s : BufferedStream) : Batch :=
  match _next : s.peek with
  | (.error e, rest) => ⟨done.reverse, some e, rest⟩
  | (.ok none, rest) => ⟨done.reverse, none, rest⟩
  | (.ok (some _), rest) =>
    let answer := rest.descend 0
    match _answer : answer.result with
    | .error e => ⟨done.reverse, some e, answer.rest⟩
    | .ok form => readFormsFrom (form :: done) answer.rest
termination_by s.size
decreasing_by exact Nat.lt_of_lt_of_le (answer.size_lt form _answer) (peek_spec _next).2

def readForms (s : BufferedStream) : Batch := readFormsFrom [] s

def readOnly (s : BufferedStream) : Except ReadError Form :=
  match s.readForm with
  | (.error e, _) => .error e
  | (.ok form, rest) =>
    match rest.peek.1 with
    | .error e => .error e
    | .ok (some t) => .error (.parse (.unexpectedToken .endOfInput t))
    | .ok none => .ok form

end BufferedStream

end MiniLisp
