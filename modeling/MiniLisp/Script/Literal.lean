import MiniLisp.Form.Printer
import MiniLisp.Text.Quoted

/-!
# Literals of a script

A string literal of a script is plain ASCII between double quotes. The control characters that have
a letter are written with it, and everything else outside the printable range by its UTF-16 units.
Quoted forms become data: arrays, numbers, truth values, and strings for symbols as for strings.
-/

namespace MiniLisp.Script

def utf16Units (c : Char) : List Nat :=
  let n := c.toNat
  if n < 0x10000 then [n]
  else [0xd800 + (n - 0x10000) / 0x400, 0xdc00 + (n - 0x10000) % 0x400]

def literalChar (c : Char) : List Char :=
  if c = '\x22' ∨ c = '\x5c' then ['\x5c', c]
  else if c = '\n' then ['\x5c', 'n']
  else if c = '\r' then ['\x5c', 'r']
  else if c = '\t' then ['\x5c', 't']
  else if c = '\x08' then ['\x5c', 'b']
  else if c = '\x0c' then ['\x5c', 'f']
  else if 0x20 ≤ c.toNat ∧ c.toNat < 0x7f then [c]
  else (utf16Units c).flatMap fun unit ↦ '\x5c' :: 'u' :: Text.hexDigits 4 unit

def stringLiteral (s : String) : String :=
  String.ofList ('\x22' :: (s.toList.flatMap literalChar ++ ['\x22']))

def commas (items : List String) : String := ", ".intercalate items

def array (items : List String) : String := "[" ++ commas items ++ "]"

mutual

def data : Form → String
  | .number x => x.render
  | .string s => stringLiteral s
  | .symbol name => stringLiteral name
  | .boolean b => renderBoolean b
  | .nil => "null"
  | .quote inner => array [stringLiteral "quote", data inner]
  | .list items => array (dataItems items)

def dataItems : List Form → List String
  | [] => []
  | item :: items => data item :: dataItems items

end

end MiniLisp.Script
