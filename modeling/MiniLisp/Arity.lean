/-!
# Arities

The argument counts that a function takes: at least one number and, for most functions, at most
another. The bounds are any integers; a range whose ends cross admits no count.
-/

namespace MiniLisp

structure Arity where
  least : Int
  most : Option Int
deriving DecidableEq

namespace Arity

def exactly (n : Int) : Arity := ⟨n, some n⟩

def atLeast (n : Int) : Arity := ⟨n, none⟩

def accepts (a : Arity) (count : Nat) : Bool :=
  decide (a.least ≤ count) &&
    match a.most with
    | none => true
    | some most => decide ((count : Int) ≤ most)

def describe (a : Arity) : String :=
  match a.most with
  | none => "at least " ++ toString a.least
  | some most =>
    if most = a.least then toString a.least
    else toString a.least ++ " to " ++ toString most

end Arity

end MiniLisp
