/-!
Faults that end a run.
-/

namespace Readability

/-- Why a run cannot go on. -/
inductive FatalError where
  /-- No model could be had from a file. -/
  | modelLoad (path reason : String)
  /-- There is no repository at a place, or it cannot be read. -/
  | repositoryUnavailable (path reason : String)
  /-- The range names revisions that there are none of. -/
  | invalidRange (reason : String)
  | template (reason : String)
  | config (reason : String)
  | aggregation (reason : String)
  | io (reason : String)
deriving Repr, DecidableEq, Inhabited

namespace FatalError

/-- The fault in words. -/
def message : FatalError → String
  | modelLoad path reason => "failed to load model from " ++ path ++ ": " ++ reason
  | repositoryUnavailable path reason =>
    "repository at " ++ path ++ " is not accessible: " ++ reason
  | invalidRange reason => "invalid revision range: " ++ reason
  | template reason => "template error: " ++ reason
  | config reason => "invalid configuration: " ++ reason
  | aggregation reason => "aggregation failed: " ++ reason
  | io reason => "IO error: " ++ reason

end FatalError

end Readability
