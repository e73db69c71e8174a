import MiniLisp.Text.Quoted
import MiniLisp.Numeric.Decimal
import MiniLisp.Token.Lexer

/-!
# Streams of tokens

A reader takes tokens from the front of a stream. Source text may be split ahead of reading, or as
far as the reader asks: then a lexical error waits behind the last good token. It is raised once, by
the first request that goes past that token, and from then on the stream is at its end.
-/

namespace MiniLisp

inductive Expected where
  | expression
  | closingParenthesis
  | endOfInput
  | numberOrOperation
  | operator
deriving DecidableEq

def Expected.describe : Expected → String
  | .expression => "expression"
  | .closingParenthesis => "closing parenthesis"
  | .endOfInput => "end of input"
  | .numberOrOperation => "number or operation"
  | .operator => "operator"

def Token.inspect : Token → String
  | .leftParen => Text.quote "("
  | .rightParen => Text.quote ")"
  | .quoteMark => Text.quote "\x27"
  | .number x => x.inspect
  | .string s => Text.quote s
  | .symbol name => Text.quote name

inductive ParseError where
  | unexpectedToken (expected : Expected) (found : PlacedToken)
  | endOfInput (expected : Expected)
  | nestingTooDeep (limit : Int)
deriving DecidableEq

def ParseError.message : ParseError → String
  | .unexpectedToken expected found =>
    "expected " ++ expected.describe ++ ", found " ++ found.token.inspect ++ " " ++ found.pos.render
  | .endOfInput expected => "expected " ++ expected.describe ++ ", found end of input"
  | .nestingTooDeep limit =>
    "expression nested more than " ++ toString limit ++ " levels deep"

inductive ReadError where
  | lex (error : LexError)
  | parse (error : ParseError)
deriving DecidableEq

def ReadError.message : ReadError → String
  | .lex e => e.message
  | .parse e => e.message

/-- The tokens to come, the lexical error behind them, and how deep expressions may nest. -/
structure TokenStream where
  tokens : List PlacedToken
  pending : Option LexError
  limit : Int

namespace TokenStream

/-- The stream of a text that is split as far as it is read. -/
def lazy (source : String) (limit : Int) : TokenStream :=
  let lexed := lex source
  ⟨lexed.tokens, lexed.error, limit⟩

def eager (source : String) (limit : Int) : Except LexError TokenStream :=
  (tokenize source).map fun tokens ↦ ⟨tokens, none, limit⟩

/-- What the stream answers when it is asked for a token and has none. -/
def exhausted (s : TokenStream) : Except ReadError (Option PlacedToken) × TokenStream :=
  match s.pending with
  | some e => (.error (.lex e), { s with pending := none })
  | none => (.ok none, s)

def peek (s : TokenStream) : Except ReadError (Option PlacedToken) × TokenStream :=
  match s.tokens with
  | [] => s.exhausted
  | t :: _ => (.ok (some t), s)

def advance (s : TokenStream) : Except ReadError (Option PlacedToken) × TokenStream :=
  match s.tokens with
  | [] => s.exhausted
  | t :: ts => (.ok (some t), { s with tokens := ts })

def atEnd (s : TokenStream) : Except ReadError Bool × TokenStream :=
  let (next, rest) := s.peek
  (next.map Option.isNone, rest)

end TokenStream

end MiniLisp
