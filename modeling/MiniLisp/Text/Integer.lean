import MiniLisp.Text.DecimalDigit

/-!
# Written integers

An optional sign and decimal digits of any script, with single underscores between digits if one
likes. More than 4300 digits are not read.
-/

namespace MiniLisp.Text

/-- The value of a run of decimal digits; single underscores may stand between digits. -/
def digitsValue? (value : Nat) : List Char → Option Nat
  | [] => some value
  | '_' :: c :: cs => (digitValue? c).bind fun d ↦ digitsValue? (10 * value + d) cs
  | c :: cs => (digitValue? c).bind fun d ↦ digitsValue? (10 * value + d) cs

def natural? : List Char → Option Nat
  | [] => none
  | c :: cs =>
    if (c :: cs).countP (· != '_') ≤ 4300 then
      (digitValue? c).bind fun d ↦ digitsValue? d cs
    else none

/-- A decimal integer with an optional sign, of at most 4300 digits. -/
def integer? : List Char → Option Int
  | '+' :: cs => (natural? cs).map Int.ofNat
  | '-' :: cs => (natural? cs).map fun n ↦ -Int.ofNat n
  | cs => (natural? cs).map Int.ofNat

end MiniLisp.Text
