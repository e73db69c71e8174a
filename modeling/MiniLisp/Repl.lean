import MiniLisp.Interpret
import MiniLisp.Text.Blank

/-!
# Interactive sessions

Lines are run one after the other in the same root frame. A blank line is passed over. Any other
line writes what it logs, and then one line more: its value, or its error. A session never ends
early, and an error leaves the definitions before it in place.
-/

namespace MiniLisp

def sessionRoot : FrameId := 0

namespace Repl

def report : Except RunError Value → String
  | .ok v => v.text
  | .error e => "error: " ++ e.message

/-- Runs a line, and gives back how it ended and the store it left. -/
def runLine (limits : Limits) (s : Store) (line : String) : Except RunError Value × Store :=
  match interpret limits line sessionRoot s with
  | .ok v s => (.ok v, s)
  | .error e s => (.error e, s)

def isBlankLine (line : String) : Bool := line.toList.all Text.isBlank

/-- Runs a line unless it is blank, and writes how it ended. -/
def step (limits : Limits) (s : Store) (line : String) : Store :=
  if isBlankLine line then s
  else
    let (outcome, s) := runLine limits s line
    s.write sessionRoot (report outcome)

def run (limits : Limits) (lines : List String) : Store :=
  lines.foldl (step limits) Store.initial

def output (limits : Limits) (lines : List String) : List String := (run limits lines).lines

end Repl

def linesText (lines : List String) : String := String.join (lines.map (· ++ "\n"))

end MiniLisp
