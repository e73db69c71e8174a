import MiniLisp.Interpret
import MiniLisp.Text.Blank
import MiniLisp.Text.Capital
import MiniLisp.Text.Integer
import MiniLisp.Text.Quoted

/-!
# Settings

Two limits, the prompt and the level of the log are taken from environment variables. A limit that
is not a positive number, in the decimal digits of any script, is as good as none.
-/

namespace MiniLisp

def limitOr (usual : Int) (raw : Option String) : Int :=
  match raw.bind fun text ↦ Text.integer? (Text.trimBlanks text.toList) with
  | some n => if 0 < n then n else usual
  | none => usual

structure Settings where
  limits : Limits
  prompt : String
  logLevel : Option String
deriving DecidableEq

namespace Settings

def depthVariable : String := "CHIPMUNK_MAX_DEPTH"

def nestingVariable : String := "CHIPMUNK_MAX_PARSE_DEPTH"

def promptVariable : String := "CHIPMUNK_PROMPT"

def logLevelVariable : String := "CHIPMUNK_LOG_LEVEL"

def variableNames : List String := [depthVariable, nestingVariable, promptVariable, logLevelVariable]

/-- The level that a text names: capitals without blanks around them. -/
def levelOf? (raw : String) : Option String :=
  let name := Text.trimBlanks raw.toList
  if name.isEmpty then none else some (String.ofList (Text.capitals name))

def ofVariables (value? : String → Option String) : Settings where
  limits :=
    { depth := limitOr 1000 (value? depthVariable),
      nesting := limitOr 200 (value? nestingVariable) }
  prompt := (value? promptVariable).getD "chipmunk> "
  logLevel := (value? logLevelVariable).bind levelOf?

end Settings

structure LevelError where
  name : String
deriving DecidableEq

def LevelError.message (e : LevelError) : String := "Unknown level: " ++ Text.quote e.name

def logLevels : List String :=
  ["CRITICAL", "FATAL", "ERROR", "WARN", "WARNING", "INFO", "DEBUG", "NOTSET"]

def Settings.checkLevel (s : Settings) : Except LevelError Unit :=
  match s.logLevel with
  | none => .ok ()
  | some name => if logLevels.contains name then .ok () else .error ⟨name⟩

end MiniLisp
