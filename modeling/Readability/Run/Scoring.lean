import Readability.Feature.Measure
import Readability.Model.Basic
import Readability.Report.Aggregate
import Readability.Run.Cache
import Readability.Run.Granularity
import Readability.Run.Xxh3

/-!
Scores of single units. Content that stays the same over several revisions is scored once: results
are stored under a digest of the content, its language and the granularity, without path and
revision, and are put under the unit's own name when they are used.

A pool of workers scores the units of a revision, and may take them in any order; here they are
taken from left to right.
-/

namespace Readability.Run

open Readability.Report (Failure Outcome Record)
open Readability.Source (Language Parser ScopeSpan SourceUnit UnitError UnitId)

/-- What stands for a content where results are stored. -/
structure Digest where
  word : UInt64
deriving DecidableEq

/-- The digest of a content. -/
def Digest.of (content : ByteArray) : Digest :=
  ⟨Xxh3.digest content⟩

/-- A content may be given for its digest. -/
instance : Coe ByteArray Digest := ⟨.of⟩

/-- What scoring takes from elsewhere. -/
structure Tools where
  parser : Parser
  digest : ByteArray → Digest

/-- With a parser alone, the digest is the usual one. -/
instance : Coe Parser Tools := ⟨fun parser => ⟨parser, .of⟩⟩

/-- What the score of a unit is stored under. -/
structure ScoreKey where
  digest : Digest
  language : Option Language
  granularity : Granularity
deriving DecidableEq

/-- The score of a file or of one function in it, without path and revision. -/
structure Scored where
  scope : Option ScopeSpan
  features : Feature.Vector
  score : Float
  band : Model.Band
deriving BEq

/-- A function, or the whole file, that the model could not rate. -/
structure Unscored where
  scope : Option ScopeSpan
  error : UnitError
deriving BEq

/-- The scores of one content: a failure of the whole, or a result for each part. -/
abbrev ContentScores := Except UnitError (List (Except Unscored Scored))

/-- Scores by content. -/
abbrev ScoreCache := Cache ScoreKey ContentScores

/-- The key of a unit. -/
def keyOf (digest : ByteArray → Digest) (granularity : Granularity) (u : SourceUnit) :
    ScoreKey :=
  ⟨digest u.content, u.language?, granularity⟩

/-- The score of some features. -/
def scorePart (model : Model) (scope : Option ScopeSpan) (features : Feature.Vector) :
    Except Unscored Scored :=
  match model.score features with
  | .ok score => .ok ⟨scope, features, score, model.band score⟩
  | .error e => .error ⟨scope, e⟩

/-- The scores of a unit, computed from its content. -/
def evaluate (parser : Parser) (model : Model) (granularity : Granularity) (u : SourceUnit) :
    ContentScores :=
  match granularity with
  | .file => (Feature.extract parser u).map fun features => [scorePart model none features]
  | .function =>
    (Feature.extractScopes parser u).map fun scopes =>
      scopes.map fun s => scorePart model (some s.span) s.features

/-- The name of a part of a unit. -/
def partId (id : UnitId) : Option ScopeSpan → UnitId
  | some span => id.withScope span
  | none => id

/-- What the scores of its content say of a unit. -/
def outcomesOf (u : SourceUnit) (timestamp : Time.Instant) : ContentScores → List Outcome
  | .error e => [.failed ⟨u.id, e⟩]
  | .ok parts =>
    match u.language? with
    | none => []
    | some language => parts.map fun
      | .ok s => .scored ⟨partId u.id s.scope, language, s.features, s.score, s.band, timestamp⟩
      | .error f => .failed ⟨partId u.id f.scope, f.error⟩

/-- The outcomes of a unit, its scores taken from the store or put into it. -/
def scoreUnit (tools : Tools) (model : Model) (granularity : Granularity)
    (timestamp : Time.Instant) (cache : ScoreCache) (u : SourceUnit) : List Outcome × ScoreCache :=
  let (scores, cache) := cache.getOrCompute (keyOf tools.digest granularity u) fun _ =>
    evaluate tools.parser model granularity u
  (outcomesOf u timestamp scores, cache)

/-- The outcomes of some units, one after the other. Workers could look up other units before a
unit's scores are stored, and send outcomes between those of a unit: this is one schedule of
many. -/
def scoreUnits (tools : Tools) (model : Model) (granularity : Granularity)
    (timestamp : Time.Instant) (cache : ScoreCache) : List SourceUnit → List Outcome × ScoreCache
  | [] => ([], cache)
  | u :: rest =>
    let (outcomes, cache) := scoreUnit tools model granularity timestamp cache u
    let (more, cache) := scoreUnits tools model granularity timestamp cache rest
    (outcomes ++ more, cache)

/-- The outcomes of some units, each scored anew. -/
def scoreUnitsAfresh (parser : Parser) (model : Model) (granularity : Granularity)
    (timestamp : Time.Instant) (units : List SourceUnit) : List Outcome :=
  units.flatMap fun u => outcomesOf u timestamp (evaluate parser model granularity u)

end Readability.Run
