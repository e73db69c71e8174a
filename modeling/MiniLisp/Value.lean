import MiniLisp.Form
import MiniLisp.Primitive

/-!
# Values

What evaluation produces. A closure keeps the frame that it was made in, and the identity that it
was made with. A number keeps a mark, which tells apart the NaNs that were computed separately; two
other numbers are never told apart by their marks. A native function belongs to the root frame that
it was registered in.
-/

namespace MiniLisp

abbrev FrameId := Nat

inductive Value where
  | boolean (b : Bool)
  | number (x : Double) (mark : Nat)
  | string (s : String)
  | symbol (name : String)
  | nil
  | list (items : List Value)
  | closure (id : Nat) (params : List String) (body : Form) (scope : FrameId)
  | native (op : Primitive) (home : FrameId)
deriving Inhabited

namespace Value

/-- Only `false` and `nil` are false. -/
def isTruthy : Value → Bool
  | .boolean b => b
  | .nil => false
  | _ => true

def toDouble? : Value → Option Double
  | .number x _ => some x
  | _ => none

def isNumber (v : Value) : Bool := v.toDouble?.isSome

def toList? : Value → Option (List Value)
  | .list items => some items
  | _ => none

end Value

namespace Form

mutual

def toValue : Form → Value
  | .number x => .number x 0
  | .string s => .string s
  | .symbol name => .symbol name
  | .boolean b => .boolean b
  | .nil => .nil
  | .quote inner => .list [.symbol "quote", inner.toValue]
  | .list items => .list (toValues items)

def toValues : List Form → List Value
  | [] => []
  | item :: items => item.toValue :: toValues items

end

end Form

end MiniLisp
