import MiniLisp.Form.Printer
import MiniLisp.Text.Quoted
import MiniLisp.Value

/-!
# Printing values

Values are printed in two styles: for a machine, strings are written as literals, so that quoting
the text gives the value back; for a person, strings are written raw. A closure is printed as the
form that makes it. The diagnostic text shows the kind of every value in a listing of bindings.
-/

namespace MiniLisp

inductive Style where
  | machine
  | person
deriving DecidableEq

def closureText (params : List String) (body : Form) : String :=
  parenthesize ["lambda", parenthesize params, body.render]

namespace Value

mutual

def render (style : Style) : Value → String
  | .boolean b => renderBoolean b
  | .number x _ => x.render
  | .string s =>
    match style with
    | .machine => Text.escape s
    | .person => s
  | .symbol name => name
  | .nil => "nil"
  | .list items => parenthesize (renderItems style items)
  | .closure _ params body _ => closureText params body
  | .native op _ => op.name

def renderItems (style : Style) : List Value → List String
  | [] => []
  | item :: items => item.render style :: renderItems style items

end

def text (v : Value) : String := v.render .machine

mutual

/-- The diagnostic text of a value; a list of one item keeps a comma behind it. -/
def inspect : Value → String
  | .boolean b => if b then "True" else "False"
  | .number x _ => x.inspect
  | .string s => Text.quote s
  | .symbol name => "Symbol(" ++ Text.quote name ++ ")"
  | .nil => "nil"
  | .list [item] => "(" ++ item.inspect ++ ",)"
  | .list items => "(" ++ ", ".intercalate (inspectItems items) ++ ")"
  | .closure _ params body _ => closureText params body
  | .native op _ => "<native " ++ op.name ++ ">"

def inspectItems : List Value → List String
  | [] => []
  | item :: items => item.inspect :: inspectItems items

end

/-- The diagnostic text, but with plain strings and names. -/
def display : Value → String
  | .string s => s
  | .symbol name => name
  | .native op _ => op.name
  | v => v.inspect

end Value

end MiniLisp
