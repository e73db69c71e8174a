/-!
# Lines of a text

A line ends at a newline, at a carriage return, or at both together. Text after the last end is a
line of its own unless it is empty.
-/

namespace MiniLisp.Text

/-- Splits the rest of a text whose current line so far is `line`, reversed. -/
def linesFrom (line : List Char) (done : List (List Char)) : List Char → List (List Char)
  | [] => (if line.isEmpty then done else line.reverse :: done).reverse
  | '\r' :: '\n' :: cs => linesFrom [] (line.reverse :: done) cs
  | c :: cs =>
    if c = '\n' ∨ c = '\r' then linesFrom [] (line.reverse :: done) cs
    else linesFrom (c :: line) done cs

def lines (text : String) : List String := (linesFrom [] [] text.toList).map String.ofList

end MiniLisp.Text
