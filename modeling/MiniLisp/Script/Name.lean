import MiniLisp.Script.EmitError
import MiniLisp.Script.Operator
import MiniLisp.Text.Capital
import MiniLisp.Token.Lexer

/-!
# Names of a script

The words of a name are joined in camel case: the hyphens go, and each word after the first begins
with a capital. A word that the scripting language reserves gets an underscore in front.
-/

namespace MiniLisp.Script

def reservedWords : List String :=
  ["await", "break", "case", "catch", "class", "const", "continue", "debugger", "default", "delete",
    "do", "else", "enum", "export", "extends", "false", "finally", "for", "function", "if", "import",
    "in", "instanceof", "let", "new", "null", "return", "super", "switch", "this", "throw", "true",
    "try", "typeof", "var", "void", "while", "with", "yield"]

def splitHyphens : List Char → List (List Char)
  | [] => [[]]
  | c :: cs =>
    match c == '-', splitHyphens cs with
    | true, parts => [] :: parts
    | false, part :: parts => (c :: part) :: parts
    | false, [] => [[c]]

def capitalize : List Char → List Char
  | [] => []
  | c :: cs => Text.capital c ++ cs

def camelCase (name : List Char) : List Char :=
  match splitHyphens name with
  | [] => []
  | word :: words => word ++ words.flatMap capitalize

def isNameStart (c : Char) : Bool := Lexer.isLetter c || c == '_' || c == '$'

def isNameChar (c : Char) : Bool := isNameStart c || Lexer.isDigit c

def isValidName : List Char → Bool
  | [] => false
  | c :: cs => isNameStart c && cs.all isNameChar

def identifier (name : String) : Except EmitError String :=
  if (Operator.ofName? name).isSome then .error (.operatorAsName name)
  else
    let word := camelCase name.toList
    if isValidName word then
      let ident := String.ofList word
      .ok (if reservedWords.contains ident then "_" ++ ident else ident)
    else .error (.invalidName name)

end MiniLisp.Script
