import MiniLisp.Form
import MiniLisp.Numeric.Decimal
import MiniLisp.Text.Escape

/-!
# Printing forms

A form is printed as source text that reads back as the same form, with the mark `'x` in its long
spelling `(quote x)`.
-/

namespace MiniLisp

def renderBoolean (b : Bool) : String := if b then "true" else "false"

def parenthesize (items : List String) : String := "(" ++ " ".intercalate items ++ ")"

namespace Form

mutual

def render : Form → String
  | .number x => x.render
  | .string s => Text.escape s
  | .symbol name => name
  | .boolean b => renderBoolean b
  | .nil => "nil"
  | .quote inner => parenthesize ["quote", inner.render]
  | .list items => parenthesize (renderItems items)

def renderItems : List Form → List String
  | [] => []
  | item :: items => item.render :: renderItems items

end

end Form

end MiniLisp
