import MiniLisp.EvalError

/-!
# Keywords

Five names make a list that they head a special form, whatever they are bound to.
-/

namespace MiniLisp

inductive Keyword where
  | quote | lambda | list | define | conditional
deriving DecidableEq

namespace Keyword

def name : Keyword → String
  | .quote => "quote"
  | .lambda => "lambda"
  | .list => "list"
  | .define => "define"
  | .conditional => "if"

def ofName? (name : String) : Option Keyword :=
  [Keyword.quote, .lambda, .list, .define, .conditional].find? (·.name == name)

def ofHead? : Form → Option Keyword
  | .symbol name => ofName? name
  | _ => none

def wrongCount (k : Keyword) (count : Int) (operands : List Form) : EvalError :=
  .wrongArity k.name (.exactly count) operands.length

end Keyword

end MiniLisp
