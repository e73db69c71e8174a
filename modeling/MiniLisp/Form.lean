import MiniLisp.Numeric.Double

/-!
# Forms

A form is what one expression of source text says before anything is evaluated. The mark `'x` has a
form of its own; the list `(quote x)` is an ordinary list. Nesting is counted as a reader meets it:
an atom and the empty list are flat, and a list or a mark is one deeper than what it holds.
-/

namespace MiniLisp

inductive Form where
  | number (x : Double)
  | string (s : String)
  | symbol (name : String)
  | boolean (b : Bool)
  | nil
  | quote (inner : Form)
  | list (items : List Form)
deriving Inhabited

namespace Form

mutual

def depth : Form → Nat
  | .quote inner => inner.depth + 1
  | .list items => depthOfItems items
  | _ => 0

def depthOfItems : List Form → Nat
  | [] => 0
  | item :: items => max (item.depth + 1) (depthOfItems items)

end

/-- The form that a name stands for: three names are literals. -/
def ofName (name : String) : Form :=
  if name = "true" then .boolean true
  else if name = "false" then .boolean false
  else if name = "nil" then .nil
  else .symbol name

def head? : Form → Option Form
  | .list items => items.head?
  | _ => none

def tail : Form → List Form
  | .list items => items.tail
  | _ => []

end Form

end MiniLisp
