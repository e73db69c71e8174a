/-!
# Operators of a script

The arithmetic operators and comparisons, which a script writes between their operands.
-/

namespace MiniLisp.Script

inductive Operator where
  | add | sub | mul | div
  | less | greater | lessEq | greaterEq | equals
deriving DecidableEq

namespace Operator

def all : List Operator :=
  [.add, .sub, .mul, .div, .less, .greater, .lessEq, .greaterEq, .equals]

def name : Operator → String
  | .add => "+"
  | .sub => "-"
  | .mul => "*"
  | .div => "/"
  | .less => "<"
  | .greater => ">"
  | .lessEq => "<="
  | .greaterEq => ">="
  | .equals => "="

def spelling : Operator → String
  | .equals => "==="
  | op => op.name

def ofName? (name : String) : Option Operator := all.find? (·.name == name)

/-- An operator that is passed around as a function. -/
def asFunction (op : Operator) : String := "((a, b) => a " ++ op.spelling ++ " b)"

end Operator

end MiniLisp.Script
