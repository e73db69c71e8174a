import MiniLisp.Text.Ranges

/-!
# Blanks

The characters that separate tokens and that are dropped from the ends of a line: the controls that
move the cursor, the four information separators, and the spaces and line separators of Unicode.
-/

namespace MiniLisp.Text

def blankRanges : List (Nat × Nat) := [
  (0x9, 0xd), (0x1c, 0x20), (0x85, 0x85), (0xa0, 0xa0), (0x1680, 0x1680), (0x2000, 0x200a),
  (0x2028, 0x2029), (0x202f, 0x202f), (0x205f, 0x205f), (0x3000, 0x3000)]

def isBlank (c : Char) : Bool := inRanges blankRanges c.toNat

def trimBlanks (cs : List Char) : List Char :=
  ((cs.dropWhile isBlank).reverse.dropWhile isBlank).reverse

end MiniLisp.Text
