import MiniLisp.Evaluator
import MiniLisp.Form.Parser

/-!
# Running source text

The whole text is split into tokens before anything runs. Then its forms are read and evaluated in
turn, so that an error of reading comes after the effects of the forms before it. The value of a
text is that of its last form, and `nil` if it has none.
-/

namespace MiniLisp

inductive RunError where
  | read (error : ReadError)
  | eval (error : EvalError)

def RunError.message : RunError → String
  | .read e => e.message
  | .eval e => e.message

structure Limits where
  depth : Int
  nesting : Int
deriving DecidableEq

abbrev Run := EStateM RunError Store

namespace Run

def ofEval {α : Type} (x : Eval α) : Run α := EStateM.adaptExcept .eval x

end Run

/-- Evaluates forms in turn; `last` is the value of the form before them. -/
def evaluateForms (limit : Int) (scope : FrameId) (last : Value) : List Form → Eval Value
  | [] => pure last
  | form :: forms => do
    let v ← evaluate limit form scope
    evaluateForms limit scope v forms

def runBatch (limit : Int) (scope : FrameId) (batch : TokenStream.Batch) : Run Value := do
  let v ← Run.ofEval (evaluateForms limit scope .nil batch.forms)
  match batch.error with
  | some e => throw (.read e)
  | none => return v

def interpret (limits : Limits) (source : String) (scope : FrameId) : Run Value :=
  match TokenStream.eager source limits.nesting with
  | .error e => throw (.read (.lex e))
  | .ok stream => runBatch limits.depth scope stream.readForms

end MiniLisp
