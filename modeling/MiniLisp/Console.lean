import MiniLisp.Repl
import MiniLisp.Settings
import MiniLisp.Text.Lines

/-!
# Sessions on a terminal

A terminal shows the prompt in front of each line that it reads, and once more at the end of the
input; what the lines write stands between the prompts.
-/

namespace MiniLisp

namespace Console

/-- The text that a session writes from a store on, with the prompt in front of each line. -/
def transcriptFrom (settings : Settings) (s : Store) : List String → String
  | [] => settings.prompt
  | line :: lines =>
    let written := s.output.size
    let next := Repl.step settings.limits s line
    settings.prompt ++ linesText (next.linesAfter written) ++
      transcriptFrom settings next lines

/-- What a session on a terminal writes, from its first prompt to the one that meets the end of the
input; a log level that there is not is refused before anything is written. -/
def transcript (settings : Settings) (input : String) : Except LevelError String := do
  settings.checkLevel
  return transcriptFrom settings Store.initial (Text.lines input)

end Console

end MiniLisp
