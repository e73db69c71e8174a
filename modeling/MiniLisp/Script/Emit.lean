import MiniLisp.Form.Parser
import MiniLisp.Script.Literal
import MiniLisp.Script.Name

/-!
# Forms as script

Each form becomes one expression of a script, and each form of a program one statement on a line of
its own. What a form means to the evaluator is not checked here, only its shape.
-/

namespace MiniLisp.Script

/-- The forms whose script is not a plain call, by the name at their head. -/
inductive Construct where
  | quote | list | lambda | conditional | define | log | nth | not
  | operator (op : Operator)
deriving DecidableEq

def Construct.ofName? (name : String) : Option Construct :=
  match name with
  | "quote" => some .quote
  | "list" => some .list
  | "lambda" => some .lambda
  | "if" => some .conditional
  | "define" => some .define
  | "log" => some .log
  | "nth" => some .nth
  | "not" => some .not
  | name => (Operator.ofName? name).map .operator

def call (fn : String) (args : List String) : String := fn ++ "(" ++ commas args ++ ")"

def chain (op : Operator) (args : List String) : String :=
  "(" ++ (" " ++ op.spelling ++ " ").intercalate args ++ ")"

def comparisons (op : Operator) : List String → List String
  | a :: b :: rest => (a ++ " " ++ op.spelling ++ " " ++ b) :: comparisons op (b :: rest)
  | _ => []

def compareAll (op : Operator) : List String → Except EmitError String
  | [] => .error (.missingOperand op.name)
  | [_] => .ok "true"
  | args => .ok ("(" ++ " && ".intercalate (comparisons op args) ++ ")")

def operate (op : Operator) (args : List String) : Except EmitError String :=
  match op, args with
  | .add, [] => .ok "0"
  | .mul, [] => .ok "1"
  | .sub, [] | .div, [] => .error (.missingOperand op.name)
  | .add, [a] | .mul, [a] => .ok a
  | .sub, [a] => .ok ("(- " ++ a ++ ")")
  | .div, [a] => .ok ("(1 / " ++ a ++ ")")
  | .add, args | .sub, args | .mul, args | .div, args => .ok (chain op args)
  | _, args => compareAll op args

def paramNames? : List Form → Option (List String)
  | [] => some []
  | .symbol name :: params => (paramNames? params).map (name :: ·)
  | _ => none

def wrongCount (name : String) (expected : Nat) (operands : List Form) : EmitError :=
  .wrongOperandCount name expected operands.length

def parameters (params : Form) : Except EmitError String :=
  match params with
  | .list items =>
    match paramNames? items with
    | some names => (names.mapM identifier).map commas
    | none => .error (.malformedParameters params)
  | _ => .error (.malformedParameters params)

def target (form : Form) : Except EmitError String :=
  match form with
  | .symbol name => identifier name
  | _ => .error (.cannotDefine form)

/-- A construct with the given operands, of which `args` is the script. -/
def construct (operands : List Form) (args : List (Except EmitError String)) :
    Construct → Except EmitError String
  | .quote =>
    match operands with
    | [form] => .ok (data form)
    | _ => .error (wrongCount "quote" 1 operands)
  | .list => (args.mapM id).map array
  | .lambda =>
    match operands, args with
    | [params, _], [_, body] => do
      let names ← parameters params
      return "((" ++ names ++ ") => " ++ (← body) ++ ")"
    | _, _ => .error (wrongCount "lambda" 2 operands)
  | .conditional =>
    match args with
    | [test, yes, no] => do return "(" ++ (← test) ++ " ? " ++ (← yes) ++ " : " ++ (← no) ++ ")"
    | _ => .error (wrongCount "if" 3 operands)
  | .define =>
    match operands, args with
    | [name, _], [_, value] => do return "(" ++ (← target name) ++ " = " ++ (← value) ++ ")"
    | _, _ => .error (wrongCount "define" 2 operands)
  | .log => (args.mapM id).map (call "console.log")
  | .nth =>
    match args with
    | [items, index] => do return (← items) ++ "[" ++ (← index) ++ "]"
    | _ => .error (wrongCount "nth" 2 operands)
  | .not =>
    match args with
    | [arg] => do return "(!" ++ (← arg) ++ ")"
    | _ => .error (wrongCount "not" 1 operands)
  | .operator op => do operate op (← args.mapM id)

mutual

def emit : Form → Except EmitError String
  | .number x => .ok x.render
  | .string s => .ok (stringLiteral s)
  | .boolean b => .ok (renderBoolean b)
  | .nil => .ok "null"
  | .symbol name =>
    match Operator.ofName? name with
    | some op => .ok op.asFunction
    | none => identifier name
  | .quote inner => .ok (data inner)
  | .list [] => .ok "[]"
  | .list (.symbol name :: operands) =>
    match Construct.ofName? name with
    | some c => construct operands (emitAll operands) c
    | none => do
      let fn ← identifier name
      return call fn (← (emitAll operands).mapM id)
  | .list (.list items :: operands) => do
    let fn ← emit (.list items)
    return call fn (← (emitAll operands).mapM id)
  | .list (head :: _) => .error (.notCallable head)

def emitAll : List Form → List (Except EmitError String)
  | [] => []
  | form :: forms => emit form :: emitAll forms

end

/-- A form at the top level: a definition declares its name there. -/
def statement (form : Form) : Except EmitError String :=
  match form with
  | .list [.symbol "define", .symbol name, value] => do
    return "var " ++ (← identifier name) ++ " = " ++ (← emit value) ++ ";"
  | form => do return (← emit form) ++ ";"

inductive CompileError where
  | read (error : ReadError)
  | emit (error : EmitError)

def CompileError.message : CompileError → String
  | .read e => e.message
  | .emit e => e.message

/-- A whole program, one statement to a line; it is read to its end before anything is emitted. -/
def compile (nesting : Int) (source : String) : Except CompileError String :=
  match readForms source nesting with
  | .error e => .error (.read e)
  | .ok forms =>
    match forms.mapM statement with
    | .error e => .error (.emit e)
    | .ok statements => .ok ("\n".intercalate statements)

end MiniLisp.Script
