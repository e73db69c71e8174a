import MiniLisp.Keyword

/-!
# The stack of the host

Evaluation is recursive, and every call of it that is open takes a slot on the stack of the host. A
form takes one, a special form one more, and the call of a closure two more before its body. Data
that is made of a form takes one slot for each mark and two for each list on the way into it. Calls
that are over before the next form begins, such as those of native functions and of printing, are
left out of the account.
-/

namespace MiniLisp

/-- How many slots are left; `none` is a stack without end. -/
abbrev Stack := Option Nat

namespace Stack

def holds (stack : Stack) (count : Nat) : Bool := stack.all fun left ↦ decide (count ≤ left)

def below (stack : Stack) (count : Nat) : Stack := stack.map (· - count)

end Stack

namespace Form

mutual

/-- The slots that it takes to make data of the form. -/
def dataSlots : Form → Nat
  | .quote inner => inner.dataSlots + 1
  | .list items => dataSlotsOfItems items + 2
  | _ => 1

def dataSlotsOfItems : List Form → Nat
  | [] => 0
  | item :: items => max item.dataSlots (dataSlotsOfItems items)

end

def isSymbol : Form → Bool
  | .symbol _ => true
  | _ => false

end Form

/-- The operand that a special form makes data of, for its value or for the error that it ends
with. -/
def Keyword.data? (operands : List Form) : Keyword → Option Form
  | .quote =>
    match operands with
    | [form] => some form
    | _ => none
  | .lambda =>
    match operands with
    | [.list params, _] => params.find? (!·.isSymbol)
    | [params, _] => some params
    | _ => none
  | .define =>
    match operands with
    | [target, _] => if target.isSymbol then none else some target
    | _ => none
  | .list | .conditional => none

namespace Form

/-- What evaluation makes data of. -/
def data? : Form → Option Form
  | .quote inner => some inner
  | .list (head :: operands) => (Keyword.ofHead? head).bind (·.data? operands)
  | _ => none

/-- The slots that are taken while the operands are evaluated. -/
def heldSlots : Form → Nat
  | .list (head :: _) => if (Keyword.ofHead? head).isSome then 2 else 1
  | _ => 1

/-- The slots that the evaluation takes without that of the operands. -/
def slots (form : Form) : Nat := form.heldSlots + (form.data?.map dataSlots).getD 0

end Form

namespace Host

/-- The slots that are taken when the body of a closure begins: that of the call, and those of its
application. No level takes more. -/
def slotsPerLevel : Nat := 3

/-- The slots of the host. It has a thousand of its own, and is made larger to fit the limit, but
not larger than the bound. -/
def slots (limit : Int) : Nat := max 1000 (min (limit * slotsPerLevel + 200) 20000).toNat

/-- The calls that are open in a session before a form at the top level is evaluated, from the start
of the program to the run of the line. -/
def sessionSlots : Nat := 8

/-- The stack for a form at the top level. Reading takes no account of the host, and so the form has
what its own nesting can take in any case; what is bounded is what the closures take that it
calls. -/
def stackFor (limit : Int) (form : Form) : Stack :=
  some (max (2 * form.depth + 2) (slots limit - sessionSlots))

end Host

end MiniLisp
