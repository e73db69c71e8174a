import MiniLisp.Numeric.Double

/-!
# Rounding a quotient to the nearest double

The magnitude nearest to `n / d` is found with integers alone: the quotient is counted in units of
`2 ^ (-1074)`, cut to fifty-three significant bits, and rounded with halves going to the even
neighbour. A carry out of the significand lands in the exponent field by itself, because a magnitude
is `scale * 2 ^ 52 + significand`.
-/

namespace MiniLisp

/-- The natural number nearest to `n / d`; a half goes to the even neighbour. -/
def roundQuotient (n d : Nat) : Nat :=
  let q := n / d
  let r := n % d
  if 2 * r < d ∨ (2 * r = d ∧ q % 2 = 0) then q else q + 1

namespace Double

/-- The magnitude of the double nearest to `n / d`, infinite when that is out of range. -/
def nearestMagnitude (n d : Nat) : Nat :=
  let units := n * twoTo 1074
  let scale := (units / d).log2 - 52
  min infinityMagnitude (scale * twoTo 52 + roundQuotient units (d * twoTo scale))

def ofNat (n : Nat) : Double := ofMagnitude false (nearestMagnitude n 1)

/-- The double nearest to the decimal numeral with the given digits before and after the point. -/
def ofDecimal (negative : Bool) (whole fraction : List Char) : Double :=
  ofMagnitude negative
    (nearestMagnitude (Nat.ofDigitChars 10 (whole ++ fraction) 0) (tenTo fraction.length))

end Double

end MiniLisp
