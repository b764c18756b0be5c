import Readability.Command.Output

/-!
Rating of the history of a repository.
-/

namespace Readability.Command

namespace ScoreRequest

/-- What the run does. Without any time it is stopped before it starts; a limit that leaves time is
not reached. -/
def job (r : ScoreRequest) (s : Surroundings) (settings : Settings) (project : Config.Project)
    (history : History) (model : Model) : Run.Job where
  history
  options := ⟨⟨r.lower, r.upper, settings.maxRevisions⟩, settings.order, settings.granularity,
    r.allFiles, false⟩
  keeps := project.keeps
  signal := { Run.Stop.never with beforeStart := r.timeLimit == some 0 }
  tools := s.parser
  model

/-- Rates the history. -/
def run (r : ScoreRequest) (s : Surroundings) : Outcome :=
  match Git.openHistory s.sites s.disk r.repository with
  | .error e => .failure s.disk "" (.fatal e)
  | .ok history =>
    match Settings.load s r.flags history.location with
    | .error e => .failure s.disk "" (.settings history.location e)
    | .ok (settings, project) =>
      let job := r.job s settings project history
      let stop : Run.Stop := { Run.Stop.never with beforeStart := r.timeLimit == some 0 }
      match (Run.runWith (settings.sources.resolve s.disk) job stop s.runId s.now).1 with
      | .error f => .failure s.disk "" (.run f)
      | .ok report => emit s (settings.registry s) report settings.template r.output

end ScoreRequest

end Readability.Command
