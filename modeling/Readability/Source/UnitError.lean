/-!
Faults of a single unit. They are recorded beside the scores and end no run.
-/

namespace Readability.Source

/-- Why a unit has no score. -/
inductive UnitError where
  /-- The content is no source text: binary, of an unknown language, with errors, or without
  code. -/
  | parse (reason : String)
  /-- The features are not the ones the model weighs. -/
  | featureMismatch (reason : String)
  /-- The revision has no such file. -/
  | notFound (path revision : String)
  /-- The repository could not give the content. -/
  | repository (reason : String)
deriving Repr, DecidableEq, Inhabited

namespace UnitError

/-- The kind of fault, as tables and documents name it. -/
def kind : UnitError → String
  | parse _ => "parse"
  | featureMismatch _ => "feature_mismatch"
  | notFound _ _ => "not_found"
  | repository _ => "repository"

/-- The fault in words. -/
def message : UnitError → String
  | parse reason => "parse error: " ++ reason
  | featureMismatch reason => "feature mismatch: " ++ reason
  | notFound path revision => path ++ " not found at revision " ++ revision
  | repository reason => "repository error: " ++ reason

/-- Whether the features did not fit the model. -/
def isMismatch : UnitError → Bool
  | featureMismatch _ => true
  | _ => false

end UnitError

end Readability.Source
