import MiniLisp.Value.Printer

/-!
# Errors of evaluation

Each error names its cause; the message is made from it in one place. A callee goes by its name, a
closure by its text.
-/

namespace MiniLisp

/-- What a special form or a native function needed where it found something else. -/
inductive Needed where
  | number
  | list
  | wholeNumberIndex
  | symbol
  | parameterList
  | parameterSymbol
deriving DecidableEq

def Needed.describe : Needed → String
  | .number => "number"
  | .list => "list"
  | .wholeNumberIndex => "whole number index"
  | .symbol => "symbol"
  | .parameterList => "parameter list"
  | .parameterSymbol => "parameter symbol"

inductive EvalError where
  | unboundSymbol (name : String)
  | wrongArity (callee : String) (arity : Arity) (count : Nat)
  | typeMismatch (callee : String) (needed : Needed) (found : Value)
  | notCallable (found : Value)
  | stackExhausted (limit : Int)
  | divisionByZero (callee : String)

def EvalError.message : EvalError → String
  | .unboundSymbol name => "unbound symbol: " ++ name
  | .wrongArity callee arity count =>
    callee ++ ": expected " ++ arity.describe ++ " argument(s), got " ++ count.repr
  | .typeMismatch callee needed found =>
    callee ++ ": expected " ++ needed.describe ++ ", got " ++ found.text
  | .notCallable found => "not callable: " ++ found.text
  | .stackExhausted limit =>
    "stack exhausted: evaluation deeper than " ++ toString limit ++ " levels"
  | .divisionByZero callee => callee ++ ": division by zero"

def Arity.check (a : Arity) (callee : String) (count : Nat) : Except EvalError Unit :=
  if a.accepts count then .ok () else .error (.wrongArity callee a count)

end MiniLisp
