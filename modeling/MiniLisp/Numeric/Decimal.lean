import MiniLisp.Numeric.Rounding

/-!
# The shortest decimal that reads back

Decimals with `k - 1074` as the exponent of their last place form a grid. The shortest decimal of a
number lies on the coarsest grid that has a point which rounds to the number; only the two grid
points around the number have to be tried, and of two that round to it the nearer is taken. The
finest grid, `k = 0`, holds every finite number exactly, so the search always ends with an answer.
-/

namespace MiniLisp

/-- The decimal `0.d₁d₂… · 10 ^ point`. -/
structure Decimal where
  digits : List Char
  point : Int

namespace Decimal

def readsBack (magnitude c k : Nat) : Bool :=
  Double.nearestMagnitude (c * tenTo k) (tenTo 1074) == magnitude

/-- Of the neighbours `low` and `low + 1`, the one that reads back; the nearer one if both do. -/
def chosen? (low nearer : Nat) (lowReads highReads : Bool) : Option Nat :=
  match lowReads, highReads with
  | true, true => some nearer
  | true, false => some low
  | false, true => some (low + 1)
  | false, false => none

/-- The point of grid `k` next to the number that reads back as it, the nearer one of two. -/
def gridPoint? (units magnitude k : Nat) : Option Nat :=
  let n := units * tenTo 1074
  let d := twoTo 1074 * tenTo k
  let low := n / d
  chosen? low (roundQuotient n d) (readsBack magnitude low k) (readsBack magnitude (low + 1) k)

/-- The first grid at or below `k` on which there is a point, and that point; the finest grid has
the point `finest`. -/
def coarsest (point? : Nat → Option Nat) (finest : Nat) : Nat → Nat × Nat
  | 0 => (finest, 0)
  | k + 1 =>
    match point? (k + 1) with
    | some c => (c, k + 1)
    | none => coarsest point? finest k

/-- A grid too coarse for a number of that many units: `2 ^ 10` is a little more than `10 ^ 3`. -/
def coarseGrid (units : Nat) : Nat := 753 + (units.log2 + 1) * 30103 / 100000

def trimZeros (digits : List Char) : List Char :=
  (digits.reverse.dropWhile (· == '0')).reverse

/-- The point `c` of grid `k`, without zeros at its end. -/
def ofPoint (c k : Nat) : Decimal :=
  let digits := Nat.toDigits 10 c
  { digits := trimZeros digits, point := (digits.length : Int) + k - 1074 }

/-- The absolute value of a finite number other than zero, with the fewest digits that read back. -/
def shortest (x : Double) : Decimal :=
  let finest := x.units * Nat.pow 5 1074
  let found := coarsest (gridPoint? x.units x.magnitude) finest (coarseGrid x.units)
  ofPoint found.1 found.2

/-- Digits around a decimal point, without exponent; a whole number has no point. -/
def plain (d : Decimal) : List Char :=
  if d.point ≤ 0 then
    '0' :: '.' :: (List.replicate (-d.point).toNat '0' ++ d.digits)
  else if (d.digits.length : Int) ≤ d.point then
    d.digits ++ List.replicate (d.point.toNat - d.digits.length) '0'
  else
    d.digits.take d.point.toNat ++ '.' :: d.digits.drop d.point.toNat

/-- One digit, the others after a point, and a signed exponent of at least two digits. -/
def scientific (d : Decimal) : List Char :=
  let exponent := d.point - 1
  let head := d.digits.take 1
  let tail := d.digits.drop 1
  let mantissa := if tail.isEmpty then head else head ++ '.' :: tail
  let places := Nat.toDigits 10 exponent.natAbs
  let padded := if places.length < 2 then '0' :: places else places
  mantissa ++ 'e' :: (if exponent < 0 then '-' else '+') :: padded

end Decimal

namespace Double

/-- The text of a number in source and output: never an exponent, and one zero. -/
def render (x : Double) : String :=
  if x.isNaN then "NaN"
  else if x.isInfinite then if x.negative then "-Infinity" else "Infinity"
  else if x.isZero then "0"
  else
    let digits := (Decimal.shortest x).plain
    String.ofList (if x.negative then '-' :: digits else digits)

/-- The diagnostic text of a number: a whole number keeps `.0`, a zero keeps its sign, and a leading
digit below the fourth decimal place or above the sixteenth whole one calls for an exponent. -/
def inspect (x : Double) : String :=
  if x.isNaN then "nan"
  else if x.isInfinite then if x.negative then "-inf" else "inf"
  else if x.isZero then if x.negative then "-0.0" else "0.0"
  else
    let d := Decimal.shortest x
    let digits :=
      if d.point < -3 ∨ 16 < d.point then d.scientific
      else if (d.digits.length : Int) ≤ d.point then d.plain ++ ['.', '0']
      else d.plain
    String.ofList (if x.negative then '-' :: digits else digits)

end Double

end MiniLisp
