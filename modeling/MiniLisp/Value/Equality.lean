import MiniLisp.Value

/-!
# Equality of values

Values of different kinds are never equal. Numbers are equal by value, and a NaN is equal to itself
as long as it is the same NaN; lists are equal item by item; closures and native functions are equal
only to themselves.
-/

namespace MiniLisp.Value

mutual

def equal : Value → Value → Bool
  | .boolean a, .boolean b => a == b
  | .number x m, .number y n => x.equal y || (x.isNaN && y.isNaN && m == n)
  | .string a, .string b => a == b
  | .symbol a, .symbol b => a == b
  | .nil, .nil => true
  | .list xs, .list ys => equalItems xs ys
  | .closure i _ _ _, .closure j _ _ _ => i == j
  | .native p f, .native q g => p == q && f == g
  | _, _ => false

def equalItems : List Value → List Value → Bool
  | [], [] => true
  | x :: xs, y :: ys => x.equal y && equalItems xs ys
  | _, _ => false

end

end MiniLisp.Value
