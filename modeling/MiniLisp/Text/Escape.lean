/-!
# String literals

The written form of a string: between double quotes, with a backslash before a double quote and
before a backslash, and a newline as the two characters `\n`.
-/

namespace MiniLisp.Text

def escapeChar (c : Char) : List Char :=
  if c = '\x5c' then ['\x5c', '\x5c']
  else if c = '\x22' then ['\x5c', '\x22']
  else if c = '\n' then ['\x5c', 'n']
  else [c]

def escapeChars (cs : List Char) : List Char := '\x22' :: (cs.flatMap escapeChar ++ ['\x22'])

def escape (s : String) : String := String.ofList (escapeChars s.toList)

end MiniLisp.Text
