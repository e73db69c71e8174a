import MiniLisp.Arity

/-!
# The native functions

Their names and the argument counts that they take.
-/

namespace MiniLisp

/-- The native functions, in the order in which a root frame lists them. -/
inductive Primitive where
  | add | sub | mul | div
  | equals | less | greater | lessEq | greaterEq
  | not | first | rest | nth | length | cons | log
deriving DecidableEq

namespace Primitive

def all : List Primitive :=
  [.add, .sub, .mul, .div, .equals, .less, .greater, .lessEq, .greaterEq,
    .not, .first, .rest, .nth, .length, .cons, .log]

def name : Primitive → String
  | .add => "+"
  | .sub => "-"
  | .mul => "*"
  | .div => "/"
  | .equals => "="
  | .less => "<"
  | .greater => ">"
  | .lessEq => "<="
  | .greaterEq => ">="
  | .not => "not"
  | .first => "first"
  | .rest => "rest"
  | .nth => "nth"
  | .length => "length"
  | .cons => "cons"
  | .log => "log"

def arity : Primitive → Arity
  | .add | .mul | .log => .atLeast 0
  | .sub | .div | .equals | .less | .greater | .lessEq | .greaterEq => .atLeast 1
  | .not | .first | .rest | .length => .exactly 1
  | .nth | .cons => .exactly 2

end Primitive

end MiniLisp
