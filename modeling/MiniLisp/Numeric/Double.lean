/-!
# Binary64 numbers

A number is its 64-bit pattern: a sign bit above eleven exponent bits and fifty-two fraction bits.
The pattern without the sign is the *magnitude*; magnitudes are ordered as the absolute values they
stand for, so comparison is a matter of integers. A finite magnitude splits as
`scale * 2 ^ 52 + significand`, and its value is `significand * 2 ^ scale` in units of `2 ^ (-1074)`.
Sums, products and quotients are those of the machine.
-/

namespace MiniLisp

def twoTo (n : Nat) : Nat := Nat.pow 2 n

def tenTo (n : Nat) : Nat := Nat.pow 10 n

structure Double where
  bits : UInt64
deriving DecidableEq

namespace Double

/-- The magnitude of the infinities: an exponent field of ones and no fraction. -/
def infinityMagnitude : Nat := 2047 * twoTo 52

def ofMagnitude (negative : Bool) (magnitude : Nat) : Double :=
  ⟨UInt64.ofNat (if negative then twoTo 63 + magnitude else magnitude)⟩

def zero : Double := ⟨0⟩

def one : Double := ⟨0x3ff0000000000000⟩

def nan : Double := ⟨0x7ff8000000000000⟩

instance : Inhabited Double := ⟨zero⟩

def negative (x : Double) : Bool := decide (twoTo 63 ≤ x.bits.toNat)

def magnitude (x : Double) : Nat := x.bits.toNat % twoTo 63

def isNaN (x : Double) : Bool := decide (infinityMagnitude < x.magnitude)

def isInfinite (x : Double) : Bool := x.magnitude == infinityMagnitude

def isFinite (x : Double) : Bool := decide (x.magnitude < infinityMagnitude)

def isZero (x : Double) : Bool := x.magnitude == 0

/-- The power of two that the significand is scaled by. -/
def scale (x : Double) : Nat := x.magnitude / twoTo 52 - 1

/-- The integer that is scaled; at least `2 ^ 52` unless the scale is zero. -/
def significand (x : Double) : Nat := x.magnitude - x.scale * twoTo 52

/-- The absolute value of a finite number, counted in units of `2 ^ (-1074)`. -/
def units (x : Double) : Nat := x.significand * twoTo x.scale

/-- Sign and magnitude as one integer; both zeros have rank zero. -/
def rank (x : Double) : Int := if x.negative then -(x.magnitude : Int) else x.magnitude

/-- Numerical equality: the zeros are equal, and a NaN is equal to nothing. -/
def equal (x y : Double) : Bool := !x.isNaN && !y.isNaN && x.rank == y.rank

def less (x y : Double) : Bool := !x.isNaN && !y.isNaN && decide (x.rank < y.rank)

def lessEq (x y : Double) : Bool := !x.isNaN && !y.isNaN && decide (x.rank ≤ y.rank)

def neg (x : Double) : Double := ofMagnitude (!x.negative) x.magnitude

def toFloat (x : Double) : Float := Float.ofBits x.bits

def ofFloat (x : Float) : Double := ⟨x.toBits⟩

def add (x y : Double) : Double := ofFloat (x.toFloat + y.toFloat)

def sub (x y : Double) : Double := ofFloat (x.toFloat - y.toFloat)

def mul (x y : Double) : Double := ofFloat (x.toFloat * y.toFloat)

def div (x y : Double) : Double := ofFloat (x.toFloat / y.toFloat)

instance : Neg Double := ⟨neg⟩
instance : Add Double := ⟨add⟩
instance : Sub Double := ⟨sub⟩
instance : Mul Double := ⟨mul⟩
instance : Div Double := ⟨div⟩

/-- The integer that a finite number with no fractional part stands for. -/
def whole? (x : Double) : Option Int :=
  if x.isFinite && x.units % twoTo 1074 == 0 then
    let n : Int := (x.units / twoTo 1074 : Nat)
    some (if x.negative then -n else n)
  else none

end Double

end MiniLisp
