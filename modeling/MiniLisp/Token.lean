import MiniLisp.Numeric.Double

/-!
# Tokens

The words of source text, and the places where they stand. Lines and columns are counted from one,
and only a newline begins a new line.
-/

namespace MiniLisp

structure Position where
  line : Nat
  column : Nat
deriving DecidableEq, Repr

namespace Position

def start : Position := ⟨1, 1⟩

def step (p : Position) (c : Char) : Position :=
  if c = '\n' then ⟨p.line + 1, 1⟩ else ⟨p.line, p.column + 1⟩

def advance (p : Position) (cs : List Char) : Position := cs.foldl step p

def render (p : Position) : String := "(" ++ p.line.repr ++ ":" ++ p.column.repr ++ ")"

end Position

inductive Token where
  | leftParen
  | rightParen
  | quoteMark
  | number (x : Double)
  | string (s : String)
  | symbol (name : String)
deriving DecidableEq

structure PlacedToken where
  token : Token
  pos : Position
deriving DecidableEq

end MiniLisp
