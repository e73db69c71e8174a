import MiniLisp.Depth
import MiniLisp.Host
import MiniLisp.Primitive.Call

/-!
# Evaluation

A literal is its own value, a symbol is looked up, a quoted form is data. A list is a special form
if its head is one of five keywords, whatever that name is bound to; any other list is a call, whose
operator comes first and its arguments from left to right. Every form is evaluated one level deeper
than the form around it, and a body as deep as the arguments of its call. A run ends with an error
when it has used up its levels, and with the same error when the host has no room left for it.
-/

namespace MiniLisp

namespace Evaluator

abbrev Step := Form → FrameId → Eval Value

def evalQuote : List Form → Eval Value
  | [form] => pure form.toValue
  | operands => throw (Keyword.quote.wrongCount 1 operands)

def paramNames : List Form → Except EvalError (List String)
  | [] => .ok []
  | .symbol name :: params => (paramNames params).map (name :: ·)
  | param :: _ => .error (.typeMismatch Keyword.lambda.name .parameterSymbol param.toValue)

def evalLambda (scope : FrameId) : List Form → Eval Value
  | [.list params, body] =>
    match paramNames params with
    | .ok names => return .closure (← Eval.freshId) names body scope
    | .error e => throw e
  | [params, _] => throw (.typeMismatch Keyword.lambda.name .parameterList params.toValue)
  | operands => throw (Keyword.lambda.wrongCount 2 operands)

def evalAll (operand : Step) (scope : FrameId) (forms : List Form) : Eval (List Value) :=
  forms.mapM (operand · scope)

def evalDefine (operand : Step) (scope : FrameId) : List Form → Eval Value
  | [.symbol name, form] => do
    let v ← operand form scope
    Eval.define scope name v
    return v
  | [target, _] => throw (.typeMismatch Keyword.define.name .symbol target.toValue)
  | operands => throw (Keyword.define.wrongCount 2 operands)

def evalConditional (operand : Step) (scope : FrameId) : List Form → Eval Value
  | [test, yes, no] => do
    let v ← operand test scope
    if v.isTruthy then operand yes scope else operand no scope
  | operands => throw (Keyword.conditional.wrongCount 3 operands)

def evalKeyword (operand : Step) (scope : FrameId) (operands : List Form) : Keyword → Eval Value
  | .quote => evalQuote operands
  | .lambda => evalLambda scope operands
  | .list => return .list (← evalAll operand scope operands)
  | .define => evalDefine operand scope operands
  | .conditional => evalConditional operand scope operands

def enter (params : List String) (form : Form) (scope : FrameId) (args : List Value) :
    Eval FrameId :=
  if args.length = params.length then Eval.extend scope (params.zip args)
  else throw (.wrongArity (closureText params form) (.exactly params.length) args.length)

/-- Applies a function to its arguments; `body` evaluates the body of a closure. -/
def apply (body : Step) (fn : Value) (args : List Value) : Eval Value :=
  match fn with
  | .native op home => op.call home args
  | .closure _ params form scope => do
    let inner ← enter params form scope args
    body form inner
  | v => throw (.notCallable v)

/-- Evaluates a form, with `operand` for the forms inside it and `body` for the bodies it calls. -/
def evalForm (operand body : Step) (form : Form) (scope : FrameId) : Eval Value :=
  match form with
  | .number x => pure (.number x 0)
  | .string s => pure (.string s)
  | .boolean b => pure (.boolean b)
  | .nil => pure .nil
  | .symbol name => Eval.lookup scope name
  | .quote inner => pure inner.toValue
  | .list [] => pure (.list [])
  | .list (head :: operands) =>
    match Keyword.ofHead? head with
    | some keyword => evalKeyword operand scope operands keyword
    | none => do
      let fn ← operand head scope
      let args ← evalAll operand scope operands
      apply body fn args

/-- Evaluates with `room` levels left on a stack; the error at the end of either names the limit. -/
def evalWithin (limit : Int) : Nat → Stack → Step
  | 0, _, _, _ => throw (.stackExhausted limit)
  | room + 1, stack, form, scope =>
    if stack.holds form.slots then
      evalForm (evalWithin limit room (stack.below form.heldSlots))
        (evalWithin limit room (stack.below Host.slotsPerLevel)) form scope
    else throw (.stackExhausted limit)

/-- The levels that a form at the top level has, which counts as level zero itself. -/
def levels (limit : Int) : Nat := (Depth.root limit).room + 1

end Evaluator

def evaluateBelow (stack : Stack) (depth : Depth) : Evaluator.Step :=
  Evaluator.evalWithin depth.limit depth.room stack

/-- Evaluates a form at the top level. -/
def evaluate (limit : Int) (form : Form) (scope : FrameId) : Eval Value :=
  Evaluator.evalWithin limit (Evaluator.levels limit) (Host.stackFor limit form) form scope

end MiniLisp
