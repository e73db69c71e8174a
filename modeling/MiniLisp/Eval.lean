import MiniLisp.EvalError
import MiniLisp.Store

/-!
# Computations on the store

Evaluation changes the store and may fail; the store that a failing computation has reached is kept.
-/

namespace MiniLisp

abbrev Eval := EStateM EvalError Store

namespace Eval

def lookup (scope : FrameId) (name : String) : Eval Value := do
  match (← get).lookup? scope name with
  | some v => pure v
  | none => throw (.unboundSymbol name)

def define (scope : FrameId) (name : String) (value : Value) : Eval Unit :=
  modify (·.define scope name value)

def write (home : FrameId) (text : String) : Eval Unit := modify (·.write home text)

def freshId : Eval Nat := modifyGet Store.freshId

def number (x : Double) : Eval Value :=
  if x.isNaN then do return .number x (← freshId) else pure (.number x 0)

/-- Makes a child of a frame with the given bindings; of a repeated name the last one counts. -/
def extend (scope : FrameId) (pairs : List (String × Value)) : Eval FrameId :=
  modifyGet fun s ↦
    let (f, s) := s.newFrame (some scope)
    (f, s.defineAll f pairs)

end Eval

end MiniLisp
