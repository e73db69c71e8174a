import MiniLisp.Numeric.Rounding
import MiniLisp.Text.Blank
import MiniLisp.Token

/-!
# Splitting source text into tokens

Source text is a sequence of pieces: gaps, which are blanks and comments in square brackets, and
lexemes. The first character of a piece, with one character of look-ahead for a minus sign, decides
its kind; the piece is then the longest one of that kind. Text in which no piece begins is a fault,
and the tokens before it stand.
-/

namespace MiniLisp

inductive LexFault where
  | unknownCharacter (c : Char)
  | unterminatedComment
  | unterminatedString
  | numberOutOfRange (text : String)
deriving DecidableEq

/-- A fault and the position at which the piece begins that could not be read. -/
structure LexError where
  fault : LexFault
  pos : Position
deriving DecidableEq

namespace LexFault

def describe : LexFault → String
  | .unknownCharacter c => "unknown character: " ++ c.toString
  | .unterminatedComment => "unterminated comment"
  | .unterminatedString => "unterminated string"
  | .numberOutOfRange text => "number out of range: " ++ text

end LexFault

def LexError.message (e : LexError) : String := e.fault.describe ++ " " ++ e.pos.render

namespace Lexer

def isDigit (c : Char) : Bool := decide ('0' ≤ c ∧ c ≤ '9')

def isLetter (c : Char) : Bool := decide (('a' ≤ c ∧ c ≤ 'z') ∨ ('A' ≤ c ∧ c ≤ 'Z'))

def operatorChars : List Char := ['+', '-', '*', '/', '<', '>', '=', '!']

def isOperator (c : Char) : Bool := operatorChars.contains c

def startsWithDigit : List Char → Bool
  | [] => false
  | c :: _ => isDigit c

def startsWithLetter : List Char → Bool
  | [] => false
  | c :: _ => isLetter c

/-- The rest of a name: letters, and hyphens that a letter follows. -/
def nameRest : List Char → List Char
  | [] => []
  | c :: cs =>
    if isLetter c || (c == '-' && startsWithLetter cs) then c :: nameRest cs else []

/-- A run of operator characters; it ends before a minus sign that a digit follows. -/
def operatorRun : List Char → List Char
  | [] => []
  | c :: cs =>
    if isOperator c && !(c == '-' && startsWithDigit cs) then c :: operatorRun cs else []

/-- The digits of a fraction, if a point with a digit behind it comes next. -/
def fractionDigits : List Char → List Char
  | '.' :: cs => cs.takeWhile isDigit
  | _ => []

/-- A number without its sign: the digits before the point and those behind it. -/
structure Numeral where
  whole : List Char
  fraction : List Char

namespace Numeral

def scan (cs : List Char) : Numeral :=
  { whole := cs.takeWhile isDigit, fraction := fractionDigits (cs.dropWhile isDigit) }

def text (n : Numeral) : List Char :=
  if n.fraction.isEmpty then n.whole else n.whole ++ '.' :: n.fraction

end Numeral

/-- The character that a backslash and the given character stand for in a string literal. -/
def unescape? (c : Char) : Option Char :=
  if c = 'n' then some '\n'
  else if c = '\x22' ∨ c = '\x5c' then some c
  else none

/-- The contents of a string literal and the text behind its closing quote. A backslash that begins
no escape stands for itself. -/
def stringBody (done : List Char) : List Char → Option (List Char × List Char)
  | [] => none
  | c :: cs =>
    if c = '\x22' then some (done.reverse, cs)
    else if c = '\x5c' then
      match cs with
      | [] => none
      | e :: rest =>
        match unescape? e with
        | some d => stringBody (d :: done) rest
        | none => stringBody (c :: done) (e :: rest)
    else stringBody (c :: done) cs

/-- What begins at a character: a piece with the number of its further characters, or a fault. -/
inductive Piece where
  | gap (more : Nat)
  | lexeme (token : Token) (more : Nat)
  | fault (fault : LexFault)

/-- A number with the given sign, whose text has `more` characters behind its first. -/
def numberPiece (negative : Bool) (text : List Char) (n : Numeral) : Piece :=
  let x := Double.ofDecimal negative n.whole n.fraction
  if x.isInfinite then .fault (.numberOutOfRange (String.ofList text))
  else .lexeme (.number x) (text.length - 1)

def piece (c : Char) (cs : List Char) : Piece :=
  if Text.isBlank c then .gap 0
  else if c = '[' then
    match cs.idxOf? ']' with
    | some n => .gap (n + 1)
    | none => .fault .unterminatedComment
  else if isDigit c then
    let n := Numeral.scan (c :: cs)
    numberPiece false n.text n
  else if c = '-' ∧ startsWithDigit cs then
    let n := Numeral.scan cs
    numberPiece true ('-' :: n.text) n
  else if isLetter c then
    let rest := nameRest cs
    .lexeme (.symbol (String.ofList (c :: rest))) rest.length
  else if c = '_' then .lexeme (.symbol "_") 0
  else if isOperator c then
    let rest := operatorRun cs
    .lexeme (.symbol (String.ofList (c :: rest))) rest.length
  else if c = '\x22' then
    match stringBody [] cs with
    | some (text, rest) => .lexeme (.string (String.ofList text)) (cs.length - rest.length)
    | none => .fault .unterminatedString
  else if c = '(' then .lexeme .leftParen 0
  else if c = ')' then .lexeme .rightParen 0
  else if c = '\x27' then .lexeme .quoteMark 0
  else .fault (.unknownCharacter c)

end Lexer

/-- The tokens of a text up to its end or its first fault. -/
structure Lexed where
  tokens : List PlacedToken
  error : Option LexError

namespace Lexer

/-- Splits the text `cs` that begins at `pos`; `done` holds the tokens before it, reversed. -/
def lexFrom (done : List PlacedToken) (pos : Position) : List Char → Lexed
  | [] => ⟨done.reverse, none⟩
  | c :: cs =>
    match piece c cs with
    | .gap more => lexFrom done (pos.advance (c :: cs.take more)) (cs.drop more)
    | .lexeme token more =>
      lexFrom (⟨token, pos⟩ :: done) (pos.advance (c :: cs.take more)) (cs.drop more)
    | .fault fault => ⟨done.reverse, some ⟨fault, pos⟩⟩
termination_by cs => cs.length
decreasing_by all_goals (simp only [List.length_drop, List.length_cons]; omega)

end Lexer

def lex (source : String) : Lexed := Lexer.lexFrom [] .start source.toList

def tokenize (source : String) : Except LexError (List PlacedToken) :=
  match lex source with
  | ⟨tokens, none⟩ => .ok tokens
  | ⟨_, some e⟩ => .error e

end MiniLisp
