import MiniLisp.Form.Printer

/-!
# Errors of compilation

Each error names the form, or the name, that has no counterpart in a script.
-/

namespace MiniLisp.Script

inductive EmitError where
  | operatorAsName (name : String)
  | invalidName (name : String)
  | wrongOperandCount (name : String) (expected actual : Nat)
  | missingOperand (operator : String)
  | malformedParameters (params : Form)
  | cannotDefine (target : Form)
  | notCallable (head : Form)

def EmitError.message : EmitError → String
  | .operatorAsName name => "operator " ++ name ++ " cannot be used as a name"
  | .invalidName name => name ++ " is not a valid JavaScript name"
  | .wrongOperandCount name expected actual =>
    name ++ " expects " ++ expected.repr ++ " operand(s), got " ++ actual.repr
  | .missingOperand operator => operator ++ " expects at least 1 operand"
  | .malformedParameters params => "malformed parameter list: " ++ params.render
  | .cannotDefine target => "cannot define " ++ target.render
  | .notCallable head => "not callable: " ++ head.render

end MiniLisp.Script
