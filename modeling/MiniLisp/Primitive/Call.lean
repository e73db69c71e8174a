import MiniLisp.Eval
import MiniLisp.Numeric.Rounding
import MiniLisp.Value.Equality

/-!
# Calling native functions

A call checks the argument count, then the arguments, and then answers. The answer is found without
touching the store: it is a value, a number yet to be made into a value, or a line to write. A line
goes to the output of the root frame that the function was registered in, wherever it is called.
-/

namespace MiniLisp.Primitive

inductive Reply where
  | known (value : Value)
  | computed (x : Double)
  | line (text : String)

/-- The arguments as numbers; the first one that is none is to blame. -/
def numbers (op : Primitive) : List Value → Except EvalError (List Double)
  | [] => .ok []
  | v :: vs =>
    match v.toDouble? with
    | none => .error (.typeMismatch op.name .number v)
    | some x => (numbers op vs).map (x :: ·)

def items (op : Primitive) (v : Value) : Except EvalError (List Value) :=
  match v.toList? with
  | some vs => .ok vs
  | none => .error (.typeMismatch op.name .list v)

/-- Adds from the left, one number after the other, and rounds every step on its own. This is the sum
of a host of version 3.10 or 3.11; from 3.12 on, hosts make up for the errors of rounding and may
come to other digits at the end. -/
def sum (xs : List Double) : Double := xs.foldl (· + ·) .zero

def product (xs : List Double) : Double := xs.foldl (· * ·) .one

def difference : List Double → Double
  | [] => .zero
  | [x] => -x
  | x :: xs => xs.foldl (· - ·) x

/-- Divides by each number in turn, unless one of them is a zero. -/
def divideBy (x : Double) : List Double → Except EvalError Double
  | [] => .ok x
  | y :: ys => if y.isZero then .error (.divisionByZero Primitive.div.name) else divideBy (x / y) ys

def quotient : List Double → Except EvalError Double
  | [] => .ok .one
  | [x] => divideBy .one [x]
  | x :: xs => divideBy x xs

def ascending (related : Double → Double → Bool) : List Double → Bool
  | x :: y :: ys => related x y && ascending related (y :: ys)
  | _ => true

def allEqual : List Value → Bool
  | [] => true
  | v :: vs => vs.all v.equal

def nthItem (items : List Value) (n : Int) : Value :=
  if n < 0 then .nil else (items[n.toNat]?).getD .nil

def compare (op : Primitive) (related : Double → Double → Bool) (args : List Value) :
    Except EvalError Reply :=
  (op.numbers args).map fun xs ↦ .known (.boolean (ascending related xs))

/-- The answer to arguments whose count the arity admits; it admits none of the last case. -/
def answer (op : Primitive) (args : List Value) : Except EvalError Reply :=
  match op, args with
  | .add, args => (op.numbers args).map (.computed <| sum ·)
  | .sub, args => (op.numbers args).map (.computed <| difference ·)
  | .mul, args => (op.numbers args).map (.computed <| product ·)
  | .div, args => do return .computed (← quotient (← op.numbers args))
  | .equals, args => .ok (.known (.boolean (allEqual args)))
  | .less, args => op.compare Double.less args
  | .greater, args => op.compare (fun x y ↦ y.less x) args
  | .lessEq, args => op.compare Double.lessEq args
  | .greaterEq, args => op.compare (fun x y ↦ y.lessEq x) args
  | .not, [v] => .ok (.known (.boolean !v.isTruthy))
  | .first, [v] => (op.items v).map fun vs ↦ .known (vs.head?.getD .nil)
  | .rest, [v] => (op.items v).map fun vs ↦ .known (.list vs.tail)
  | .nth, [v, index] => do
    let vs ← op.items v
    match index.toDouble?.bind Double.whole? with
    | some n => return .known (nthItem vs n)
    | none => throw (.typeMismatch op.name .wholeNumberIndex index)
  | .length, [.string s] => .ok (.computed (.ofNat s.length))
  | .length, [v] => (op.items v).map fun vs ↦ .computed (.ofNat vs.length)
  | .cons, [v, .nil] => .ok (.known (.list [v]))
  | .cons, [v, tail] => (op.items tail).map fun vs ↦ .known (.list (v :: vs))
  | .log, args => .ok (.line (" ".intercalate (args.map (·.render .person))))
  | _, _ => .ok (.known .nil)

def reply (op : Primitive) (args : List Value) : Except EvalError Reply := do
  op.arity.check op.name args.length
  op.answer args

/-- Calls the function that was registered in the root frame `home`. -/
def call (op : Primitive) (home : FrameId) (args : List Value) : Eval Value :=
  match op.reply args with
  | .ok (.known v) => pure v
  | .ok (.computed x) => Eval.number x
  | .ok (.line text) => do
    Eval.write home text
    pure .nil
  | .error e => throw e

end MiniLisp.Primitive
