import MiniLisp.Interpret
import MiniLisp.Operation

/-!
# Calculating arithmetic expressions

Symbols are looked up, and operators are looked up before their operands are calculated; only native
functions can be operators.
-/

namespace MiniLisp

namespace Operation

mutual

def evaluate (scope : FrameId) : Operation → Eval Value
  | .number x => pure (.number x 0)
  | .symbol name => Eval.lookup scope name
  | .apply operator operands => do
    match ← Eval.lookup scope operator with
    | .native op home => op.call home (← evaluateAll scope operands)
    | v => throw (.notCallable v)

def evaluateAll (scope : FrameId) : List Operation → Eval (List Value)
  | [] => pure []
  | e :: es => do
    let v ← evaluate scope e
    return v :: (← evaluateAll scope es)

end

end Operation

def calculate (source : String) (scope : FrameId) : Run Value :=
  match Operation.read (lex source) with
  | .error e => throw (.read e)
  | .ok expression => Run.ofEval (expression.evaluate scope)

end MiniLisp
