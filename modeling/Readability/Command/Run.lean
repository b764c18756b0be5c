import Readability.Command.Hints
import Readability.Command.Score
import Readability.Command.ShowModel
import Readability.Command.Worktree

/-!
Commands carried out.
-/

namespace Readability.Command

/-- Carries out a command. -/
def Request.run (request : Request) (s : Surroundings) : Outcome :=
  match request with
  | .score r => r.run s
  | .file r => r.run s
  | .hints r => r.run s
  | .model r => r.run s

end Readability.Command
