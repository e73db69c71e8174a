import MiniLisp.EvalError

/-!
# Depth of evaluation

Evaluation counts its levels, and the limit is the last level that it may enter.
-/

namespace MiniLisp

/-- How deep evaluation has come, and how deep it may go. -/
structure Depth where
  level : Int
  limit : Int
deriving DecidableEq

namespace Depth

def root (limit : Int) : Depth := ⟨0, limit⟩

def deeper (d : Depth) : Except EvalError Depth :=
  if d.limit ≤ d.level then .error (.stackExhausted d.limit) else .ok ⟨d.level + 1, d.limit⟩

def room (d : Depth) : Nat := (d.limit - d.level).toNat

/-- The depths at and below `d`, up to `count` levels down, and the error that cut them short. -/
def descend (d : Depth) : Nat → List Depth × Option EvalError
  | 0 => ([d], none)
  | count + 1 =>
    match d.deeper with
    | .error e => ([d], some e)
    | .ok next =>
      let (depths, e) := descend next count
      (d :: depths, e)

end Depth

end MiniLisp
