import MiniLisp.Form
import MiniLisp.Token.Stream

/-!
# Arithmetic expressions

A smaller grammar for a calculator: a number, a symbol, or an operator with its operands in
parentheses. There are no strings, no quoting and no literals but numbers, and an expression has to
make up the whole text. Expressions may nest to any depth.
-/

namespace MiniLisp

inductive Operation where
  | number (x : Double)
  | symbol (name : String)
  | apply (operator : String) (operands : List Operation)
deriving Inhabited

namespace Operation

/-- An operator whose operands, in reverse order, are still being read. -/
structure Pending where
  operator : String
  operands : List Operation

inductive Progress where
  | finish (expression : Operation)
  | proceed (stack : List Pending)

def deliver (expression : Operation) : List Pending → Progress
  | [] => .finish expression
  | p :: stack => .proceed ({ p with operands := expression :: p.operands } :: stack)

/-- The error of a reader that has no token left. -/
def endOfTokens (waiting : Option LexError) (expected : Expected) : ReadError :=
  match waiting with
  | some e => .lex e
  | none => .parse (.endOfInput expected)

/-- What the end of an expression leads to: trailing tokens are refused. -/
def conclude (waiting : Option LexError) (expression : Operation) :
    List PlacedToken → Except ReadError Operation
  | t :: _ => .error (.parse (.unexpectedToken .endOfInput t))
  | [] =>
    match waiting with
    | some e => .error (.lex e)
    | none => .ok expression

def readFrom (waiting : Option LexError) :
    List Pending → List PlacedToken → Except ReadError Operation
  | [], [] => .error (endOfTokens waiting .numberOrOperation)
  | _ :: _, [] => .error (endOfTokens waiting .closingParenthesis)
  | stack, t :: ts =>
    let next (progress : Progress) : Except ReadError Operation :=
      match progress with
      | .finish expression => conclude waiting expression ts
      | .proceed stack => readFrom waiting stack ts
    match t.token, stack with
    | .rightParen, p :: outer => next (deliver (.apply p.operator p.operands.reverse) outer)
    | .number x, stack => next (deliver (.number x) stack)
    | .symbol name, stack => next (deliver (.symbol name) stack)
    | .leftParen, stack =>
      match ts with
      | [] => .error (endOfTokens waiting .operator)
      | ⟨.symbol operator, _⟩ :: ts => readFrom waiting (⟨operator, []⟩ :: stack) ts
      | t :: _ => .error (.parse (.unexpectedToken .operator t))
    | _, _ => .error (.parse (.unexpectedToken .numberOrOperation t))

def read (text : Lexed) : Except ReadError Operation := readFrom text.error [] text.tokens

end Operation

end MiniLisp
