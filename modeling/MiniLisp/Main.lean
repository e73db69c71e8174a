import MiniLisp.Console

/-!
# The command line

Reads lines from standard input until it ends, and writes the prompt and what each line writes.
-/

namespace MiniLisp.CommandLine

def settings : IO Settings := do
  let values ← Settings.variableNames.mapM fun name ↦ do return (name, ← IO.getEnv name)
  return Settings.ofVariables fun name ↦ (values.lookup name).join

/-- Runs what is left of the input, of which `lines` is read already. -/
partial def session (settings : Settings) (s : Store) (lines : List String) : IO Unit := do
  let stdout ← IO.getStdout
  match lines with
  | line :: lines =>
    let written := s.output.size
    let next := Repl.step settings.limits s line
    stdout.putStr (linesText (next.linesAfter written))
    stdout.putStr (if lines.isEmpty then "" else settings.prompt)
    session settings next lines
  | [] =>
    stdout.putStr settings.prompt
    stdout.flush
    let text ← (← IO.getStdin).getLine
    if text.isEmpty then return
    session settings s (Text.lines text)

end MiniLisp.CommandLine

open MiniLisp in
def main : IO UInt32 := do
  let settings ← CommandLine.settings
  match settings.checkLevel with
  | .error e =>
    IO.eprintln e.message
    return 1
  | .ok () =>
    CommandLine.session settings Store.initial []
    return 0
