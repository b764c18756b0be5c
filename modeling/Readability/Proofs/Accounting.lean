import Readability.Proofs.Replay
import Readability.Proofs.StoredScores

/-!
# Each path that is selected is accounted for

A run selects paths at the revisions of its walk (`Selects`). Whatever becomes
of a path is told of it at once (`told`): its reading failed, or its content gave
scores. What a report shows is what was told of the selected paths, in another
order (`shown_perm`), and as no path is selected twice at a revision, what it
shows of one path is what was told of that one (`shownAt_perm`).

Main statement: `report_accounts`. With a file as the unit, each selected path
has one outcome. With functions as units it has one for each of the functions of
its content, or a single failure. Stored scores go by digests, so the functions
are those of the content itself only where digests do not collide;
`miscounted_twin` is a run in which they do.
-/

namespace Readability.Report

/-- The outcomes that a report shows. -/
def shown (report : Report) : List Outcome :=
  report.records.map .scored ++ report.failures.map .failed

/-- The outcomes that a report shows of a path at a revision. -/
def shownAt (report : Report) (revision path : String) : List Outcome :=
  (shown report).filter (Outcome.isAt revision path)

/-- Records and failures are all that is told of units. -/
theorem records_append_failures_perm (l : List Outcome) :
    ((l.filterMap Outcome.record?).map Outcome.scored ++
        (l.filterMap Outcome.failure?).map Outcome.failed).Perm
      (l.filter fun o => o.unit?.isSome) := by
  induction l with
  | nil => exact List.Perm.refl _
  | cons o l ih =>
    cases o with
    | revision index r => exact ih
    | scored r => exact ih.cons _
    | failed f => exact List.perm_middle.trans (ih.cons _)

end Readability.Report

namespace Readability.Run

open Readability.History (Memory Revision)
open Readability.Report (Aggregator Failure Outcome)
open Readability.Sorting (filter_flatMap_of_unique)
open Readability.Source (Language ScopeSpan SourceText SourceUnit UnitError UnitId parseSource)

@[simp] theorem partId_path (id : UnitId) (scope : Option ScopeSpan) :
    (partId id scope).path = id.path := by
  cases scope <;> rfl

@[simp] theorem partId_revision (id : UnitId) (scope : Option ScopeSpan) :
    (partId id scope).revision = id.revision := by
  cases scope <;> rfl

/-- The function that a result is about. -/
def partScope : Except Unscored Scored → Option ScopeSpan
  | .ok s => s.scope
  | .error f => f.scope

@[simp] theorem partScope_scorePart (model : Model) (scope : Option ScopeSpan)
    (features : Feature.Vector) : partScope (scorePart model scope features) = scope := by
  rw [scorePart]
  split <;> rfl

/-- What is told of a part is about that part. -/
theorem unit?_outcomesOf {u : SourceUnit} {language : Language} (h : u.language? = some language)
    (timestamp : Time.Instant) (parts : List (Except Unscored Scored)) :
    (outcomesOf u timestamp (.ok parts)).map Outcome.unit? =
      (parts.map partScope).map fun scope => some (partId u.id scope) := by
  rw [outcomesOf, h, List.map_map, List.map_map]
  refine List.map_congr_left ?_
  intro part _
  cases part <;> rfl

/-- Whatever is told of a unit is about it or about a part of it. -/
theorem exists_scope_of_mem_outcomesOf {u : SourceUnit} {timestamp : Time.Instant}
    {scores : ContentScores} {o : Outcome} (ho : o ∈ outcomesOf u timestamp scores) :
    ∃ scope, o.unit? = some (partId u.id scope) := by
  cases scores with
  | error e =>
    rw [List.mem_singleton.mp ho]
    exact ⟨none, rfl⟩
  | ok parts =>
    rcases hlanguage : u.language? with _ | language
    · rw [outcomesOf, hlanguage] at ho
      cases ho
    · have hmem := List.mem_map_of_mem (f := Outcome.unit?) ho
      rw [unit?_outcomesOf hlanguage] at hmem
      obtain ⟨scope, -, hscope⟩ := List.mem_map.mp hmem
      exact ⟨scope, hscope.symm⟩

namespace Job

variable {job : Job}

/-! ## What is told of a path -/

/-- A path of a revision that a run is to read: one of all files or of the
changed ones, kept by the filter, of a known language unless others are wanted
too. -/
def Selects (job : Job) (revision : Revision) (path : String) : Prop :=
  (∃ paths, job.candidates revision = .ok paths ∧ path ∈ paths) ∧ job.keeps path = true ∧
    (job.options.keepUnsupported = true ∨ (Language.ofPath? path).isSome = true)

theorem mem_chosen {revision : Revision} {path : String} :
    path ∈ job.chosen revision ↔ job.Selects revision path := by
  rw [Selects, chosen, seenPaths]
  rcases job.candidates revision with e | paths
  · constructor
    · intro h
      cases h
    · rintro ⟨⟨paths, hpaths, -⟩, -⟩
      cases hpaths
  · dsimp only [Except.map]
    rw [List.mem_filter, List.mem_filter, suits, Bool.or_eq_true]
    constructor
    · rintro ⟨⟨hmem, hsuits⟩, hkeeps⟩
      exact ⟨⟨paths, rfl, hmem⟩, hkeeps, hsuits⟩
    · rintro ⟨⟨_, hpaths, hmem⟩, hkeeps, hsuits⟩
      cases hpaths
      exact ⟨⟨hmem, hsuits⟩, hkeeps⟩

/-- A unit of a revision is the content of a path that is chosen there. -/
theorem read_of_mem_unitsOf {revision : Revision} {u : SourceUnit}
    (h : u ∈ unitsOf (job.results revision)) :
    ∃ path ∈ job.chosen revision, ∃ content,
      job.history.read revision.id path = .ok content ∧ u = ⟨.file path revision.id, content⟩ := by
  rw [unitsOf, List.mem_filterMap] at h
  obtain ⟨result, hresult, hunit⟩ := h
  rw [chosen]
  rw [results] at hresult
  split at hresult
  · rw [List.mem_singleton.mp hresult] at hunit
    cases hunit
  · obtain ⟨path, hpath, rfl⟩ := List.mem_map.mp hresult
    rw [readUnit] at hunit
    rcases hread : job.history.read revision.id path with e | content <;> rw [hread] at hunit
    · cases hunit
    · cases hunit
      exact ⟨path, hpath, content, hread, rfl⟩

/-- What is told of a unit that was read, or of a failure to read one. -/
def tellResult (scores : SourceUnit → ContentScores) (timestamp : Time.Instant) :
    Except Failure SourceUnit → List Outcome
  | .error f => [.failed f]
  | .ok u => outcomesOf u timestamp (scores u)

/-- What is told of a path at a revision. -/
def told (job : Job) (scores : SourceUnit → ContentScores) (revision : Revision) (path : String) :
    List Outcome :=
  tellResult scores revision.timestamp (job.readUnit revision.id path)

/-- What is told of a path is about it. -/
theorem isAt_of_mem_told {scores : SourceUnit → ContentScores} {revision : Revision}
    {path : String} {o : Outcome} (ho : o ∈ job.told scores revision path) (id other : String) :
    o.isAt id other = (revision.id == id && path == other) := by
  rw [told, readUnit] at ho
  rcases hread : job.history.read revision.id path with e | content <;> rw [hread] at ho
  · rw [List.mem_singleton.mp ho]
    rfl
  · obtain ⟨scope, hunit⟩ := exists_scope_of_mem_outcomesOf ho
    rw [Outcome.isAt, hunit, Option.any_some, partId_path, partId_revision]
    rfl

/-! ## Scores of a content -/

/-- The functions of a content that is source text. -/
def functions (job : Job) (u : SourceUnit) : Except UnitError (List ScopeSpan) :=
  match u.prepare with
  | .error e => .error e
  | .ok (text, language) =>
    (parseSource job.tools.parser language text).map fun tree =>
      (tree.scopes (SourceText.ofString text) language).map (·.span)

/-- All results are there when none of them is missing or at fault. -/
theorem allOk_eq_ok_iff {α : Type} {l : List (Option (Except UnitError α))} {results : List α} :
    Feature.allOk l = some (.ok results) ↔ l = results.map fun a => some (.ok a) := by
  induction l generalizing results with
  | nil =>
    rw [Feature.allOk]
    cases results <;> simp
  | cons first l ih =>
    rcases first with _ | (e | a)
    · rw [Feature.allOk]
      cases results <;> simp
    · rw [Feature.allOk]
      cases results <;> simp
    · rw [Feature.allOk]
      rcases hl : Feature.allOk l with _ | (e | more) <;> cases results <;> simp [← ih, hl]

/-- Features are measured of each function of the content. -/
theorem functions_of_extractScopes {u : SourceUnit} {scopes : List Feature.ScopedFeatures}
    (h : Feature.extractScopes job.tools.parser u = .ok scopes) :
    job.functions u = .ok (scopes.map (·.span)) := by
  rw [Feature.extractScopes, Feature.extractScopes?] at h
  rw [functions]
  rcases hprepare : u.prepare with e | ⟨text, language⟩ <;> rw [hprepare] at h
  · cases h
  dsimp only at h ⊢
  rcases htree : parseSource job.tools.parser language text with e | tree <;> rw [htree] at h
  · cases h
  obtain hall | ⟨-, hmisfit⟩ := Option.getD_eq_iff.mp h
  · -- results stand beside the functions they are of
    have hscopes := List.forall₂_eq_eq_eq.symm ▸ allOk_eq_ok_iff.mp hall
    rw [List.forall₂_map_left_iff, List.forall₂_map_right_iff] at hscopes
    have hspans : List.Forall₂ Eq
        ((tree.scopes (SourceText.ofString text) language).map (·.span)) (scopes.map (·.span)) := by
      rw [List.forall₂_map_left_iff, List.forall₂_map_right_iff]
      refine hscopes.imp ?_
      intro scope s hs
      obtain ⟨result, -, hresult⟩ := Option.map_eq_some_iff.mp hs
      cases result <;> cases hresult
      rfl
    rw [List.forall₂_eq_eq_eq] at hspans
    exact congrArg Except.ok hspans
  · cases hmisfit

/-- A content with scores is of a known language. -/
theorem language_of_scores_ok {u : SourceUnit} {parts : List (Except Unscored Scored)}
    (h : job.scores u = .ok parts) : ∃ language, u.language? = some language := by
  rcases hlanguage : u.language? with _ | language
  · rw [scores_of_unknown hlanguage] at h
    cases h
  · exact ⟨language, rfl⟩

/-- With files as units, a content has one score. -/
theorem scope_of_scores_file {u : SourceUnit} {parts : List (Except Unscored Scored)}
    (hfile : job.options.granularity = .file) (h : job.scores u = .ok parts) :
    parts.map partScope = [none] := by
  rw [scores, hfile, evaluate] at h
  rcases hextract : Feature.extract job.tools.parser u with e | features <;> rw [hextract] at h
  · cases h
  · cases h
    rw [List.map_singleton, partScope_scorePart]

/-- With functions as units, it has one for each of its functions. -/
theorem scopes_of_scores_function {u : SourceUnit} {parts : List (Except Unscored Scored)}
    (hfunction : job.options.granularity = .function) (h : job.scores u = .ok parts) :
    ∃ spans, job.functions u = .ok spans ∧ parts.map partScope = spans.map some := by
  rw [scores, hfunction, evaluate] at h
  rcases hextract : Feature.extractScopes job.tools.parser u with e | scopes <;>
    rw [hextract] at h
  · cases h
  · cases h
    refine ⟨_, functions_of_extractScopes hextract, ?_⟩
    rw [List.map_map, List.map_map]
    refine List.map_congr_left ?_
    intro s _
    exact partScope_scorePart _ _ _

/-- A content that is refused is refused when its functions are measured. -/
theorem extractScopes_of_scores_function {u : SourceUnit} {e : UnitError}
    (hfunction : job.options.granularity = .function) (h : job.scores u = .error e) :
    Feature.extractScopes job.tools.parser u = .error e := by
  rw [scores, hfunction, evaluate] at h
  rcases hextract : Feature.extractScopes job.tools.parser u with e' | scopes <;>
    rw [hextract] at h
  · cases h
    rfl
  · cases h

/-! ## One path -/

/-- The units of some outcomes. -/
theorem filterMap_unit?_of_map {outcomes : List Outcome} {units : List UnitId}
    (h : outcomes.map Outcome.unit? = units.map some) :
    outcomes.filterMap Outcome.unit? = units := by
  have hmap := congrArg (List.filterMap id) h
  rwa [List.filterMap_map, List.filterMap_map, Function.id_comp, Function.id_comp,
    List.filterMap_some] at hmap

variable {units : List SourceUnit} {revision : Revision} {path : String}

/-- **A file has one outcome**, whatever the digests. -/
theorem told_file (hfile : job.options.granularity = .file) :
    ∃ o, job.told (job.shared units) revision path = [o] ∧
      o.unit? = some (.file path revision.id) := by
  rw [told, readUnit]
  rcases job.history.read revision.id path with e | content
  · exact ⟨_, rfl, rfl⟩
  · dsimp only [tellResult]
    rcases hscores : job.shared units ⟨.file path revision.id, content⟩ with e | parts
    · exact ⟨_, rfl, rfl⟩
    · obtain ⟨language, hlanguage⟩ := language_of_scores_ok hscores
      rw [language_first] at hlanguage
      have hunits := unit?_outcomesOf hlanguage revision.timestamp parts
      rw [scope_of_scores_file hfile hscores] at hunits
      obtain ⟨o, ho, hunit⟩ := List.map_eq_singleton_iff.mp hunits
      exact ⟨o, ho, hunit⟩

/-- When a unit is refused after others, it would have been refused on its own. -/
theorem exists_refusal (hdigest : DigestsApart job.tools.digest units) {u : SourceUnit}
    (hu : u ∈ units) {e : UnitError} (h : job.shared units u = .error e) :
    ∃ e', job.scores u = .error e' := by
  by_cases hlanguage : u.language? = none
  · exact ⟨_, scores_of_unknown hlanguage⟩
  · rw [shared_of_known hdigest hu hlanguage] at h
    exact ⟨e, h⟩

/-- **A content has an outcome for each of its functions**, or a single failure
where these cannot be measured, when digests do not collide. -/
theorem told_function (hfunction : job.options.granularity = .function)
    (hdigest : DigestsApart job.tools.digest units)
    (hread : ∀ content, job.history.read revision.id path = .ok content →
      ⟨.file path revision.id, content⟩ ∈ units) :
    (∃ e, job.told (job.shared units) revision path =
          [.failed ⟨.file path revision.id, e⟩] ∧
        ∀ content, job.history.read revision.id path = .ok content →
          ∃ e', Feature.extractScopes job.tools.parser ⟨.file path revision.id, content⟩ =
            .error e') ∨
      ∃ content spans, job.history.read revision.id path = .ok content ∧
        job.functions ⟨.file path revision.id, content⟩ = .ok spans ∧
        (job.told (job.shared units) revision path).filterMap Outcome.unit? =
          spans.map (UnitId.file path revision.id).withScope := by
  rw [told, readUnit]
  rcases hcontent : job.history.read revision.id path with e | content
  · refine .inl ⟨_, rfl, ?_⟩
    intro content hok
    cases hok
  · dsimp only [tellResult]
    rcases hscores : job.shared units ⟨.file path revision.id, content⟩ with e | parts
    · refine .inl ⟨_, rfl, ?_⟩
      intro other hother
      cases hother
      obtain ⟨e', hrefusal⟩ := exists_refusal hdigest (hread content hcontent) hscores
      exact ⟨e', extractScopes_of_scores_function hfunction hrefusal⟩
    · right
      obtain ⟨language, hlanguage⟩ := language_of_scores_ok hscores
      rw [language_first] at hlanguage
      -- the stored scores are this content's own
      have hown := shared_of_known hdigest (hread content hcontent)
        (by rw [hlanguage]; exact Option.some_ne_none language)
      rw [hscores] at hown
      obtain ⟨spans, hfunctions, hscopes⟩ := scopes_of_scores_function hfunction hown.symm
      refine ⟨content, spans, rfl, hfunctions, filterMap_unit?_of_map ?_⟩
      rw [unit?_outcomesOf hlanguage, hscopes, List.map_map, List.map_map]
      rfl

/-! ## What a report shows -/

/-- Failures to read come before the scores; else what is told of results is
told of them one by one. -/
theorem tell_results_perm (scores : SourceUnit → ContentScores) (timestamp : Time.Instant) :
    ∀ results : List (Except Failure SourceUnit),
      ((failuresOf results).map Outcome.failed ++
          (unitsOf results).flatMap fun u => outcomesOf u timestamp (scores u)).Perm
        (results.flatMap (tellResult scores timestamp)) := by
  intro results
  induction results with
  | nil => exact List.Perm.refl _
  | cons result results ih =>
    rw [List.flatMap_cons]
    cases result with
    | error f => exact ih.cons _
    | ok u =>
      -- the unit moves in front of the failures that come after it
      exact (List.perm_append_comm_assoc _ _ _).trans (ih.append_left _)

/-- What is told of the units of a revision, apart from the revision itself. -/
theorem accountItem_perm (scores : SourceUnit → ContentScores) (index : Nat)
    (revision : Revision) :
    ((job.accountItem scores index (.ok revision)).filter fun o => o.unit?.isSome).Perm
      ((job.results revision).flatMap (tellResult scores revision.timestamp)) := by
  have hall : ((failuresOf (job.results revision)).map Outcome.failed ++
      (unitsOf (job.results revision)).flatMap fun u =>
        outcomesOf u revision.timestamp (scores u)).filter (fun o => o.unit?.isSome) =
      (failuresOf (job.results revision)).map Outcome.failed ++
        (unitsOf (job.results revision)).flatMap fun u =>
          outcomesOf u revision.timestamp (scores u) := by
    refine List.filter_eq_self.mpr ?_
    intro o ho
    rcases List.mem_append.mp ho with ho | ho
    · obtain ⟨f, -, rfl⟩ := List.mem_map.mp ho
      rfl
    · obtain ⟨u, -, ho⟩ := List.mem_flatMap.mp ho
      obtain ⟨scope, hunit⟩ := exists_scope_of_mem_outcomesOf ho
      rw [hunit]
      rfl
  rw [accountItem, List.cons_append, List.filter_cons_of_neg (by simp [Outcome.unit?]), hall]
  exact tell_results_perm scores revision.timestamp _

theorem account_perm (scores : SourceUnit → ContentScores) :
    ∀ (revisions : List Revision) (index : Nat),
      ((job.account scores index (revisions.map .ok)).filter fun o => o.unit?.isSome).Perm
        (revisions.flatMap fun revision =>
          (job.results revision).flatMap (tellResult scores revision.timestamp)) := by
  intro revisions
  induction revisions with
  | nil => exact fun _ => List.Perm.refl _
  | cons revision revisions ih =>
    intro index
    rw [List.map_cons, account_cons, List.filter_append, List.flatMap_cons]
    exact (accountItem_perm scores index revision).append (ih (index + 1))

/-- A walk of revisions that all load, no id twice, with no path to choose from
twice. -/
structure Orderly (job : Job) (revisions : List Revision) : Prop where
  walk : job.history.walk job.options.range job.options.order = .ok (revisions.map .ok)
  ids : (revisions.map (·.id)).Nodup
  candidates : ∀ revision ∈ revisions, ∃ paths, job.candidates revision = .ok paths ∧ paths.Nodup

namespace Orderly

variable {revisions : List Revision} (h : job.Orderly revisions)

include h

theorem chosen_nodup (hr : revision ∈ revisions) : (job.chosen revision).Nodup := by
  obtain ⟨paths, hpaths, hnodup⟩ := h.candidates revision hr
  rw [chosen, seenPaths, hpaths]
  exact (hnodup.filter _).filter _

theorem results_eq (hr : revision ∈ revisions) :
    job.results revision = (job.chosen revision).map (job.readUnit revision.id) := by
  obtain ⟨paths, hpaths, -⟩ := h.candidates revision hr
  rw [results, chosen, seenPaths, hpaths]
  rfl

/-- Each path of a revision that is read is read once. -/
theorem reads_nodup : (revisions.flatMap job.readsOf).Nodup := by
  rw [List.nodup_flatMap]
  constructor
  · intro revision hr
    exact (h.chosen_nodup hr).map fun _ _ hsame => congrArg Prod.snd hsame
  · refine (List.pairwise_map.mp h.ids).imp ?_
    intro r s hids p hp hq
    obtain ⟨_, -, rfl⟩ := List.mem_map.mp hp
    obtain ⟨_, -, hsame⟩ := List.mem_map.mp hq
    exact hids (congrArg Prod.fst hsame).symm

omit h in
theorem mem_reads {id path : String} :
    (id, path) ∈ revisions.flatMap job.readsOf ↔
      ∃ revision ∈ revisions, revision.id = id ∧ job.Selects revision path := by
  rw [List.mem_flatMap]
  refine exists_congr fun revision => and_congr_right fun _ => ?_
  rw [readsOf, List.mem_map]
  constructor
  · rintro ⟨_, hchosen, hpair⟩
    cases hpair
    exact ⟨rfl, mem_chosen.mp hchosen⟩
  · rintro ⟨rfl, hselects⟩
    exact ⟨path, mem_chosen.mpr hselects, rfl⟩

/-- The outcomes of the run that no one asks to end. -/
theorem outcomes_eq (hsignal : job.signal = .never)
    (hgap : job.model.schemaGap? Feature.schema Feature.names = none) (runId : String)
    (now : Time.Instant) :
    (job.run runId now).2.outcomes = job.account
      (job.shared (job.unitsIn (revisions.map .ok))) 0
      (revisions.map .ok) := by
  have htells := run_tells_undisturbed job hsignal hgap h.walk runId now
  have houtcomes := htells.outcomes
  rw [List.take_length, tellItems_new] at houtcomes
  exact houtcomes

/-- It scores all of its units. -/
theorem scoredUnits_eq (hsignal : job.signal = .never)
    (hgap : job.model.schemaGap? Feature.schema Feature.names = none) (runId : String)
    (now : Time.Instant) : job.scoredUnits runId now = job.unitsIn (revisions.map .ok) := by
  rw [Job.scoredUnits_eq
    (run_tells_undisturbed job hsignal hgap h.walk runId now), List.take_length]

/-- A report shows what was told of the paths that were read. -/
theorem shown_perm (hsignal : job.signal = .never) {runId : String} {now : Time.Instant}
    {report : Report} (hreport : (job.run runId now).1 = .ok report) :
    (Report.shown report).Perm (revisions.flatMap fun revision =>
      (job.chosen revision).flatMap (job.told
        (job.shared (job.unitsIn (revisions.map .ok))) revision)) := by
  obtain ⟨hgap, -⟩ := walk_of_report hreport
  have hshown : (Report.shown report).Perm
      ((job.run runId now).2.outcomes.filter fun o => o.unit?.isSome) :=
    (((records_perm hreport).map _).append ((failures_perm hreport).map _)).trans
      (Report.records_append_failures_perm _)
  rw [h.outcomes_eq hsignal hgap] at hshown
  refine (hshown.trans (account_perm _ revisions 0)).trans (List.Perm.of_eq ?_)
  refine List.flatMap_congr ?_
  intro revision hr
  rw [h.results_eq hr, List.flatMap_map]
  rfl

/-- Of one path it shows what was told of that path. -/
theorem shownAt_perm (hsignal : job.signal = .never) {runId : String} {now : Time.Instant}
    {report : Report} (hreport : (job.run runId now).1 = .ok report)
    (hr : revision ∈ revisions) (hpath : job.Selects revision path) :
    (Report.shownAt report revision.id path).Perm (job.told
      (job.shared (job.unitsIn (revisions.map .ok))) revision path) := by
  refine ((h.shown_perm hsignal hreport).filter _).trans (List.Perm.of_eq ?_)
  -- ids tell revisions apart, and paths what was told of one revision
  have hrevision := filter_flatMap_of_unique (p := Outcome.isAt revision.id path)
    (f := fun r => (job.chosen r).flatMap (job.told
      (job.shared (job.unitsIn (revisions.map .ok))) r))
    revisions (List.Nodup.of_map _ h.ids) hr (by
      intro s hs hother o ho
      obtain ⟨p, -, hp⟩ := List.mem_flatMap.mp ho
      rw [isAt_of_mem_told hp, Bool.and_eq_false_iff]
      exact .inl (beq_false_of_ne fun hid => hother (List.inj_on_of_nodup_map h.ids hs hr hid)))
  have hone := filter_flatMap_of_unique (p := Outcome.isAt revision.id path)
    (f := job.told (job.shared (job.unitsIn (revisions.map .ok))) revision)
    (job.chosen revision) (h.chosen_nodup hr) (mem_chosen.mpr hpath) (by
      intro p _ hother o ho
      rw [isAt_of_mem_told ho, Bool.and_eq_false_iff]
      exact .inr (beq_false_of_ne hother))
  rw [hrevision, hone]
  refine List.filter_eq_self.mpr ?_
  intro o ho
  rw [isAt_of_mem_told ho, beq_self_eq_true, beq_self_eq_true]
  rfl

/-- Revisions are announced at their places in the walk. -/
theorem announced_eq (hsignal : job.signal = .never)
    (hgap : job.model.schemaGap? Feature.schema Feature.names = none) (runId : String)
    (now : Time.Instant) :
    Report.announced (job.run runId now).2.outcomes =
      (revisions.zipIdx 0).map fun r => (r.1.id, r.2) := by
  rw [h.outcomes_eq hsignal hgap, announced_account, List.zipIdx_map, List.filterMap_map,
    ← List.filterMap_eq_map]
  rfl

theorem announced_names (hsignal : job.signal = .never)
    (hgap : job.model.schemaGap? Feature.schema Feature.names = none) (runId : String)
    (now : Time.Instant) :
    (Report.announced (job.run runId now).2.outcomes).map (·.1) = revisions.map (·.id) := by
  conv_rhs => rw [← List.zipIdx_map_fst 0 revisions]
  rw [h.announced_eq hsignal hgap, List.map_map, List.map_map]
  rfl

/-- Each revision of the walk counts. -/
theorem revisionsWalked_eq (hsignal : job.signal = .never) {runId : String} {now : Time.Instant}
    {report : Report} (hreport : (job.run runId now).1 = .ok report) :
    report.revisionsWalked = revisions.length := by
  obtain ⟨hgap, -⟩ := walk_of_report hreport
  have hnames := h.announced_names hsignal hgap runId now
  obtain ⟨about, hfinish⟩ := report_eq_finish hreport
  have hwalked : report.revisionsWalked =
      (Aggregator.collect job.options.order (job.run runId now).2.outcomes).revisionsWalked := by
    rw [hfinish]
    rfl
  rw [hwalked, Aggregator.revisionsWalked_eq (hnames ▸ h.ids), h.announced_eq hsignal hgap,
    List.length_map, List.length_zipIdx]

end Orderly

/-! ## The account of a run -/

/-- What a report and the reads of its run say of the paths that are selected at
some revisions. -/
structure Accounts (job : Job) (revisions : List Revision) (report : Report)
    (reads : List (String × String)) : Prop where
  walked : report.revisionsWalked = revisions.length
  /-- Each selected path is read once, and nothing else is. -/
  reads_nodup : reads.Nodup
  mem_reads : ∀ id path, (id, path) ∈ reads ↔
    ∃ revision ∈ revisions, revision.id = id ∧ job.Selects revision path
  /-- With files as units, there is one outcome of a path. -/
  file : job.options.granularity = .file →
    ∀ revision ∈ revisions, ∀ path, job.Selects revision path →
      ∃ o, Report.shownAt report revision.id path = [o] ∧ o.unit? = some (.file path revision.id)
  /-- With functions as units, there is a failure of the whole where they cannot be
  measured, and else one outcome of each function. -/
  function : job.options.granularity = .function →
    ∀ revision ∈ revisions, ∀ path, job.Selects revision path →
      (∃ e, Report.shownAt report revision.id path = [.failed ⟨.file path revision.id, e⟩] ∧
          ∀ content, job.history.read revision.id path = .ok content →
            ∃ e', Feature.extractScopes job.tools.parser ⟨.file path revision.id, content⟩ =
              .error e') ∨
        ∃ content spans, job.history.read revision.id path = .ok content ∧
          job.functions ⟨.file path revision.id, content⟩ = .ok spans ∧
          ((Report.shownAt report revision.id path).filterMap Outcome.unit?).Perm
            (spans.map (UnitId.file path revision.id).withScope)
  /-- There is nothing else. -/
  shown : ∀ o ∈ Report.shown report, ∃ revision ∈ revisions, ∃ path,
    job.Selects revision path ∧ o.isAt revision.id path = true

theorem accounts_of_orderly {revisions : List Revision} (h : job.Orderly revisions)
    (hsignal : job.signal = .never) {runId : String} {now : Time.Instant} {report : Report}
    (hreport : (job.run runId now).1 = .ok report)
    (hdigest : job.options.granularity = .function →
      DigestsApart job.tools.digest (job.scoredUnits runId now)) :
    job.Accounts revisions report (job.run runId now).2.reads := by
  obtain ⟨hgap, -⟩ := walk_of_report hreport
  have htells := run_tells_undisturbed job hsignal hgap h.walk runId now
  have hreads : (job.run runId now).2.reads = revisions.flatMap job.readsOf := by
    have hall := htells.reads rfl
    rwa [revisionsOf_map_ok] at hall
  have hunits := scoredUnits_eq htells
  rw [List.take_length] at hunits
  rw [hunits] at hdigest
  refine ⟨h.revisionsWalked_eq hsignal hreport, ?_, ?_, ?_, ?_, ?_⟩
  · rw [hreads]
    exact h.reads_nodup
  · intro id path
    rw [hreads]
    exact Orderly.mem_reads
  · intro hfile revision hr path hpath
    obtain ⟨o, htold, hunit⟩ := told_file hfile
    have hperm := h.shownAt_perm hsignal hreport hr hpath
    rw [htold] at hperm
    exact ⟨o, hperm.eq_singleton, hunit⟩
  · intro hfunction revision hr path hpath
    have hperm := h.shownAt_perm hsignal hreport hr hpath
    have hread : ∀ content, job.history.read revision.id path = .ok content →
        ⟨.file path revision.id, content⟩ ∈ job.unitsIn (revisions.map .ok) := by
      intro content hcontent
      refine mem_unitsIn.mpr ⟨revision, List.mem_map_of_mem hr, ?_⟩
      rw [h.results_eq hr, unitsOf, List.mem_filterMap]
      refine ⟨_, List.mem_map_of_mem (mem_chosen.mpr hpath), ?_⟩
      rw [readUnit, hcontent]
      rfl
    rcases told_function hfunction (hdigest hfunction) hread with
      ⟨e, htold, hrefused⟩ | ⟨content, spans, hcontent, hfunctions, hspans⟩
    · rw [htold] at hperm
      exact .inl ⟨e, hperm.eq_singleton, hrefused⟩
    · refine .inr ⟨content, spans, hcontent, hfunctions, ?_⟩
      rw [← hspans]
      exact hperm.filterMap _
  · intro o ho
    obtain ⟨revision, hr, hchosen⟩ :=
      List.mem_flatMap.mp ((h.shown_perm hsignal hreport).mem_iff.mp ho)
    obtain ⟨path, hpath, htold⟩ := List.mem_flatMap.mp hchosen
    refine ⟨revision, hr, path, mem_chosen.mp hpath, ?_⟩
    rw [isAt_of_mem_told htold, beq_self_eq_true, beq_self_eq_true]
    rfl

/-- Histories that are given plainly have orderly walks. -/
theorem orderly_of_sound {memory : Memory} (hsound : memory.Sound)
    (hhistory : job.history = memory.toHistory) {revisions : List Revision}
    (hwalk : memory.walk job.options.range job.options.order = .ok revisions) :
    job.Orderly revisions := by
  obtain ⟨hids, hmem⟩ := Memory.walk_spec hsound hwalk
  refine ⟨?_, hids, ?_⟩
  · rw [hhistory, Memory.toHistory]
    dsimp only
    rw [hwalk]
    rfl
  · intro revision hr
    obtain ⟨s, hs, rfl⟩ := hmem revision hr
    have hs' := hsound.snapshots s hs
    rw [candidates]
    split
    · rw [hhistory]
      exact ⟨s.files.paths, Memory.list_of_mem hsound hs, hs'.files.nodup⟩
    · refine ⟨_, rfl, hs'.changes.sublist ?_⟩
      exact List.filter_sublist.map _

/-- **Each path that is selected is accounted for.** The run over a plain history
that no one asks to end reads every selected path once and shows what came of
it, and nothing else. -/
theorem report_accounts (job : Job) (steps : List Memory.Step) (hplain : Memory.Plain steps)
    (hhistory : job.history = (Memory.replay steps).toHistory) (hsignal : job.signal = .never)
    (runId : String) (now : Time.Instant) (report : Report)
    (hreport : (job.run runId now).1 = .ok report)
    (hdigest : job.options.granularity = .function →
      DigestsApart job.tools.digest (job.scoredUnits runId now)) :
    ∃ revisions, (Memory.replay steps).walk job.options.range job.options.order = .ok revisions ∧
      job.Accounts revisions report (job.run runId now).2.reads := by
  have hsound := Memory.replay_sound hplain
  obtain ⟨-, items, hitems⟩ := walk_of_report hreport
  rcases hwalk : (Memory.replay steps).walk job.options.range job.options.order with e | revisions
  · rw [hhistory, Memory.toHistory] at hitems
    dsimp only at hitems
    rw [hwalk] at hitems
    cases hitems
  · exact ⟨revisions, rfl, accounts_of_orderly (orderly_of_sound hsound hhistory hwalk) hsignal
      hreport hdigest⟩

/-- A run in which a unit was refused for what it is comes to a report. -/
theorem exists_report_of_refused (hsignal : job.signal = .never)
    (hgap : job.model.schemaGap? Feature.schema Feature.names = none)
    {items : List (Except UnitError Revision)}
    (hwalk : job.history.walk job.options.range job.options.order = .ok items)
    {stored : ScoreCache} {u : SourceUnit} (hu : u ∈ job.unitsIn items) {e : UnitError}
    (hrefused : job.sharedOn stored (job.unitsIn items) u = .error e) (he : e.isMismatch = false)
    (runId : String) (now : Time.Instant) :
    ∃ report, (job.runOn stored runId now).1 = .ok report := by
  obtain ⟨hverdict, -⟩ := runOn_undisturbed hsignal hgap hwalk stored runId now
  rw [verdict, allMismatched_account_eq_false hu hrefused he] at hverdict
  exact ⟨_, hverdict⟩

/-- A run in which a file was refused for its language comes to a report. -/
theorem exists_report (hsignal : job.signal = .never)
    (hgap : job.model.schemaGap? Feature.schema Feature.names = none)
    {items : List (Except UnitError Revision)}
    (hwalk : job.history.walk job.options.range job.options.order = .ok items) {u : SourceUnit}
    (hu : u ∈ job.unitsIn items) (hunknown : u.language? = none) (runId : String)
    (now : Time.Instant) : ∃ report, (job.run runId now).1 = .ok report := by
  have hrefused : job.sharedOn .empty (job.unitsIn items) u = .error _ := shared_of_unknown hunknown
  exact exists_report_of_refused hsignal hgap hwalk hu hrefused rfl runId now

/-! ## Two contents of one digest -/

/-- A program of one function. -/
def program : ByteArray :=
  ⟨#[0x66, 0x6E, 0x20, 0x61, 0x28, 0x29, 0x20, 0x7B, 0x7D]⟩

/-- The tree of the program. -/
def programTree : Source.Tree :=
  let leaf (kind : String) (start stop : Nat) : Source.Tree :=
    .node ⟨kind, false, false, false, start, stop, .none⟩ []
  .node ⟨"source_file", true, false, false, 0, 9, .none⟩
    [.node ⟨"function_item", true, false, false, 0, 9, .none⟩
      [leaf "fn" 0 2, .node ⟨"identifier", true, false, false, 3, 4, .name⟩ [],
        .node ⟨"parameters", true, false, false, 4, 6, .none⟩ [leaf "(" 4 5, leaf ")" 5 6],
        .node ⟨"block", true, false, false, 7, 9, .none⟩ [leaf "\x7b" 7 8, leaf "\x7d" 8 9]]]

/-- A content that is no text, and that has the digest of the program. -/
def twin : ByteArray :=
  ⟨#[0xB9, 0x39, 0x42, 0xEA, 0x7B, 0x73, 0x82, 0x67, 0xEC, 0x6F, 0x8F, 0xCE, 0x2F, 0xE5, 0xE8,
    0xFE]⟩

/-- The program and a file of no known language, and then another file. -/
def programSteps (other : ByteArray) : List Memory.Step :=
  [.commit "r1" .epoch [⟨"a.rs", some program⟩, ⟨"m.txt", some ⟨#[]⟩⟩],
    .commit "r2" .epoch [⟨"b.rs", some other⟩]]

/-- A run over these files, with functions as units. -/
def programJob (other : ByteArray) : Job :=
  ⟨(Memory.replay (programSteps other)).toHistory, ⟨.whole, .chronological, .function, false, true⟩,
    fun _ => true, .never,
    ⟨fun _ text => if text.toUTF8 == program then some programTree else none, .of⟩, sampleModel⟩

/-- The revisions of that run. -/
def programRevisions : List Revision :=
  [⟨"r1", [], .epoch, "memory", "r1", [⟨"a.rs", .added⟩, ⟨"m.txt", .added⟩]⟩,
    ⟨"r2", ["r1"], .epoch, "memory", "r2", [⟨"b.rs", .added⟩]⟩]

theorem programSteps_plain (other : ByteArray) : Memory.Plain (programSteps other) := by
  constructor
  · show ["r1", "r2"].Nodup
    decide
  · intro step hstep
    rw [programSteps, List.mem_pair] at hstep
    rcases hstep with rfl | rfl
    · show ["a.rs", "m.txt"].Nodup
      decide
    · exact List.nodup_singleton _

theorem programJob_walk (other : ByteArray) :
    (Memory.replay (programSteps other)).walk .whole .chronological = .ok programRevisions :=
  rfl

theorem programJob_orderly (other : ByteArray) : (programJob other).Orderly programRevisions :=
  orderly_of_sound (Memory.replay_sound (programSteps_plain other)) rfl (programJob_walk other)

theorem programJob_gap (other : ByteArray) :
    (programJob other).model.schemaGap? Feature.schema Feature.names = none :=
  sampleModel_gap

theorem programJob_report (other : ByteArray) :
    ∃ report, ((programJob other).run "" .epoch).1 = .ok report := by
  have hu : (⟨.file "m.txt" "r1", ⟨#[]⟩⟩ : SourceUnit) ∈
      (programJob other).unitsIn (programRevisions.map .ok) :=
    List.mem_cons_of_mem _ (List.mem_cons_self ..)
  have hunknown : (⟨.file "m.txt" "r1", ⟨#[]⟩⟩ : SourceUnit).language? = none := by
    decide
  exact exists_report rfl (programJob_gap other) (programJob_orderly other).walk hu hunknown ""
    .epoch

/-- The contents of the run over the program alone do not collide. -/
theorem programJob_apart : DigestsApart (programJob program).tools.digest
    ((programJob program).unitsIn (programRevisions.map .ok)) := by
  unfold DigestsApart
  decide

/-- The run in which the program comes back at another path. -/
theorem report_accounts_program :
    ∃ report, ((programJob program).run "" .epoch).1 = .ok report ∧
      ∃ revisions, (Memory.replay (programSteps program)).walk .whole .chronological =
          .ok revisions ∧
        (programJob program).Accounts revisions report
          ((programJob program).run "" .epoch).2.reads := by
  obtain ⟨report, hreport⟩ := programJob_report program
  refine ⟨report, hreport, ?_⟩
  refine report_accounts (programJob program) (programSteps program) (programSteps_plain program)
    rfl rfl "" .epoch report hreport ?_
  intro _
  have htells := run_tells_undisturbed (programJob program) rfl (programJob_gap program)
    (programJob_orderly program).walk "" .epoch
  rw [scoredUnits_eq htells]
  exact programJob_apart

/-- The program has scores, one for its function. -/
theorem scores_program : ∃ parts,
    (programJob twin).scores ⟨.file "a.rs" "r1", program⟩ = .ok parts ∧
      parts.map partScope = [some ⟨"a", "function_item", 1, 1⟩] := by
  have hsome : ((programJob twin).scores ⟨.file "a.rs" "r1", program⟩).toOption.isSome = true := by
    decide +kernel
  rcases hscores : (programJob twin).scores ⟨.file "a.rs" "r1", program⟩ with e | parts
  · rw [hscores] at hsome
    cases hsome
  · obtain ⟨spans, hspans, hscopes⟩ := scopes_of_scores_function rfl hscores
    have hfunctions : (programJob twin).functions ⟨.file "a.rs" "r1", program⟩ =
        .ok [⟨"a", "function_item", 1, 1⟩] := rfl
    rw [hfunctions] at hspans
    cases hspans
    exact ⟨parts, rfl, hscopes⟩

/-- The twin is told the scores of the program. -/
theorem told_twin :
    ((programJob twin).told ((programJob twin).shared
        ((programJob twin).unitsIn (programRevisions.map .ok)))
      ⟨"r2", ["r1"], .epoch, "memory", "r2", [⟨"b.rs", .added⟩]⟩ "b.rs").map Outcome.unit? =
      [some ⟨"b.rs", "r2", some ⟨"a", "function_item", 1, 1⟩⟩] := by
  have hread : (programJob twin).history.read "r2" "b.rs" = .ok twin := rfl
  have hkey : ((programJob twin).key ⟨.file "a.rs" "r1", program⟩ ==
      (programJob twin).key ⟨.file "b.rs" "r2", twin⟩) = true := by
    decide
  have hfirst : (programJob twin).first ((programJob twin).unitsIn (programRevisions.map .ok))
      ⟨.file "b.rs" "r2", twin⟩ = ⟨.file "a.rs" "r1", program⟩ := by
    have hunits : (programJob twin).unitsIn (programRevisions.map .ok) =
        [⟨.file "a.rs" "r1", program⟩, ⟨.file "m.txt" "r1", ⟨#[]⟩⟩,
          ⟨.file "b.rs" "r2", twin⟩] := rfl
    simp only [first, hunits, List.find?_cons, hkey, Option.getD_some]
  have hlanguage : (⟨.file "b.rs" "r2", twin⟩ : SourceUnit).language? = some .rust := by
    decide
  obtain ⟨parts, hparts, hscopes⟩ := scores_program
  rw [told, readUnit, hread]
  dsimp only [tellResult]
  rw [shared, hfirst, hparts, unit?_outcomesOf hlanguage, hscopes]
  rfl

/-- The twin is shown with the function of the program, though it is no text and
has none. -/
theorem miscounted_twin :
    ∃ report, ((programJob twin).run "" .epoch).1 = .ok report ∧
      (Report.shownAt report "r2" "b.rs").map Outcome.unit? =
        [some ⟨"b.rs", "r2", some ⟨"a", "function_item", 1, 1⟩⟩] ∧
      (programJob twin).functions ⟨.file "b.rs" "r2", twin⟩ = .error (.parse
        "content is not valid UTF-8: invalid utf-8 sequence of 1 bytes from index 0") ∧
      ∀ revisions, (Memory.replay (programSteps twin)).walk .whole .chronological =
          .ok revisions →
        ¬ (programJob twin).Accounts revisions report
          ((programJob twin).run "" .epoch).2.reads := by
  obtain ⟨report, hreport⟩ := programJob_report twin
  have hread : (programJob twin).history.read "r2" "b.rs" = .ok twin := rfl
  have hrefused : (programJob twin).functions ⟨.file "b.rs" "r2", twin⟩ = .error (.parse
      "content is not valid UTF-8: invalid utf-8 sequence of 1 bytes from index 0") := rfl
  have hlast : (⟨"r2", ["r1"], .epoch, "memory", "r2", [⟨"b.rs", .added⟩]⟩ : Revision) ∈
      programRevisions :=
    List.mem_cons_of_mem _ (List.mem_singleton_self _)
  have hselects : (programJob twin).Selects ⟨"r2", ["r1"], .epoch, "memory", "r2",
      [⟨"b.rs", .added⟩]⟩ "b.rs" :=
    ⟨⟨["b.rs"], rfl, List.mem_singleton_self _⟩, rfl, .inl rfl⟩
  have hshown : (Report.shownAt report "r2" "b.rs").map Outcome.unit? =
      [some ⟨"b.rs", "r2", some ⟨"a", "function_item", 1, 1⟩⟩] := by
    have hperm := ((programJob_orderly twin).shownAt_perm rfl hreport hlast hselects).map
      Outcome.unit?
    rw [told_twin] at hperm
    exact hperm.eq_singleton
  refine ⟨report, hreport, hshown, hrefused, ?_⟩
  intro revisions hwalk haccounts
  rw [programJob_walk] at hwalk
  cases hwalk
  rcases haccounts.function rfl _ hlast "b.rs" hselects with
    ⟨e, hwhole, -⟩ | ⟨content, spans, hread', hspans, -⟩
  · rw [hwhole] at hshown
    exact absurd hshown (by simp [Outcome.unit?, UnitId.file])
  · rw [hread] at hread'
    cases hread'
    rw [hrefused] at hspans
    cases hspans

end Job

end Readability.Run
