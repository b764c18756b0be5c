import Readability.Proofs.Nesting
import Readability.Proofs.Separators

/-!
# Templates that were checked

A template is checked against one report that has all its fields, and is rendered
with another. The two differ in shape: lists are of any length, a whole file has no
scope, and what is said of a file that was not found is a record where the checked
report has a text. `Like` says how a part of the one report corresponds to a part
of the other, `Alike` how the contexts do that names are looked up in.

> `Alike.lookup`: what a path leads to in the checked report it leads to in the
> other one as well, up to `Like`, or it names a scope that is not there.

Main statement: `parse_eq_ok_and_findsAll`. A text is accepted exactly when its tags
are well nested and each path leads somewhere inside the sections around it; and
whatever an accepted template looks up while a report is rendered is there, but for
scopes.
-/

namespace Readability.Render

open Readability.Data

/-! ## What a check looks at -/

/-- The contexts inside a section, as a check sees them. -/
def enter (contexts : List Value) (path : List Char) : List Value :=
  match lookup? contexts path with
  | some (.list (item :: _)) => item :: contexts
  | some (.record entries) => .record entries :: contexts
  | _ => contexts

/-- A path stands in some nodes, inside these sections, the outermost first. -/
inductive Occurs : List (List Char) → List Char → List Node → Prop
  | field {path : List Char} {nodes : List Node} (hmem : .field path ∈ nodes) :
    Occurs [] path nodes
  | opening {path : List Char} {body nodes : List Node} (hmem : .repeated path body ∈ nodes) :
    Occurs [] path nodes
  | inside {outer path : List Char} {sections : List (List Char)} {body nodes : List Node}
    (hmem : .repeated outer body ∈ nodes) (hbody : Occurs sections path body) :
    Occurs (outer :: sections) path nodes

/-- Each path leads to a value from inside the sections around it. -/
def Resolves (contexts : List Value) (nodes : List Node) : Prop :=
  ∀ sections path, Occurs sections path nodes →
    (lookup? (sections.foldl enter contexts) path).isSome = true

theorem resolves_nil (contexts : List Value) : Resolves contexts [] := by
  rintro sections path (hmem | hmem | ⟨hmem, -⟩) <;> cases hmem

theorem occurs_cons {sections : List (List Char)} {path : List Char} {node : Node}
    {rest : List Node} :
    Occurs sections path (node :: rest) ↔
      Occurs sections path [node] ∨ Occurs sections path rest := by
  constructor
  · rintro (hmem | hmem | ⟨hmem, hbody⟩) <;> rcases List.mem_cons.mp hmem with rfl | hmem
    · exact .inl (.field (List.mem_singleton_self _))
    · exact .inr (.field hmem)
    · exact .inl (.opening (List.mem_singleton_self _))
    · exact .inr (.opening hmem)
    · exact .inl (.inside (List.mem_singleton_self _) hbody)
    · exact .inr (.inside hmem hbody)
  · rintro ((hmem | hmem | ⟨hmem, hbody⟩) | (hmem | hmem | ⟨hmem, hbody⟩))
    · exact .field (List.mem_cons.mpr (.inl (List.mem_singleton.mp hmem)))
    · exact .opening (List.mem_cons.mpr (.inl (List.mem_singleton.mp hmem)))
    · exact .inside (List.mem_cons.mpr (.inl (List.mem_singleton.mp hmem))) hbody
    · exact .field (List.mem_cons_of_mem _ hmem)
    · exact .opening (List.mem_cons_of_mem _ hmem)
    · exact .inside (List.mem_cons_of_mem _ hmem) hbody

theorem resolves_cons {contexts : List Value} {node : Node} {rest : List Node} :
    Resolves contexts (node :: rest) ↔ Resolves contexts [node] ∧ Resolves contexts rest := by
  have hoccurs : ∀ sections path, Occurs sections path (node :: rest) ↔
      Occurs sections path [node] ∨ Occurs sections path rest :=
    fun _ _ => occurs_cons
  simp only [Resolves, hoccurs, or_imp, forall_and]

theorem resolves_text (contexts : List Value) (chars : List Char) :
    Resolves contexts [.text chars] := by
  rintro sections path (hmem | hmem | ⟨hmem, -⟩) <;> simp at hmem

theorem resolves_field {contexts : List Value} {path : List Char} :
    Resolves contexts [.field path] ↔ (lookup? contexts path).isSome = true := by
  constructor
  · exact fun h => h [] path (.field (List.mem_singleton_self _))
  · rintro h sections other (hmem | hmem | ⟨hmem, -⟩)
    · simp only [List.mem_singleton, Node.field.injEq] at hmem
      rw [hmem]
      exact h
    · simp at hmem
    · simp at hmem

theorem resolves_repeated {contexts : List Value} {path : List Char} {body : List Node} :
    Resolves contexts [.repeated path body] ↔
      (lookup? contexts path).isSome = true ∧ Resolves (enter contexts path) body := by
  constructor
  · intro h
    refine ⟨h [] path (.opening (List.mem_singleton_self _)), ?_⟩
    exact fun sections other hbody => h (path :: sections) other
      (.inside (List.mem_singleton_self _) hbody)
  · rintro ⟨hpath, hbody⟩ sections other (hmem | hmem | ⟨hmem, hinside⟩)
    · simp at hmem
    · simp only [List.mem_singleton, Node.repeated.injEq] at hmem
      rw [hmem.1]
      exact hpath
    · simp only [List.mem_singleton, Node.repeated.injEq] at hmem
      obtain ⟨rfl, rfl⟩ := hmem
      exact hbody _ _ hinside

theorem checkNode_repeated {contexts : List Value} {path : List Char} {body : List Node} :
    checkNode contexts (.repeated path body) = .ok () ↔
      (lookup? contexts path).isSome = true ∧ checkNodes (enter contexts path) body = .ok () := by
  rw [checkNode, enter]
  split <;> simp_all

mutual

theorem checkNode_eq_ok_iff (contexts : List Value) :
    ∀ node, checkNode contexts node = .ok () ↔ Resolves contexts [node]
  | .text chars => iff_of_true (by rw [checkNode]) (resolves_text contexts chars)
  | .field path => by
    rw [checkNode, resolves_field]
    split <;> simp_all
  | .repeated path body => by
    rw [checkNode_repeated, resolves_repeated, checkNodes_eq_ok_iff _ body]

/-- Nodes pass the check exactly when each of their paths leads somewhere. -/
theorem checkNodes_eq_ok_iff (contexts : List Value) :
    ∀ nodes, checkNodes contexts nodes = .ok () ↔ Resolves contexts nodes
  | [] => iff_of_true (by rw [checkNodes]) (resolves_nil contexts)
  | node :: rest => by
    rw [resolves_cons, ← checkNode_eq_ok_iff contexts node, ← checkNodes_eq_ok_iff contexts rest,
      checkNodes]
    cases checkNode contexts node with
    | ok => simp
    | error => simp

end

theorem check_eq_ok_iff (source : String) (nodes : List Node) :
    UserTemplate.check source = .ok nodes ↔
      parseNodes source.toList = .ok nodes ∧ checkNodes [fullReport.toValue] nodes = .ok () := by
  simp only [UserTemplate.check, bind, Except.bind, pure, Except.pure]
  rcases parseNodes source.toList with fault | parsed
  · simp
  · rcases hcheck : checkNodes [fullReport.toValue] parsed with fault | _ <;>
      simp only [hcheck, reduceCtorEq, Except.ok.injEq, false_iff, not_and]
    · rintro rfl
      simp [hcheck]
    · exact ⟨fun h => ⟨h, h ▸ hcheck⟩, And.left⟩

/-- Accepted are the texts whose tags are well nested and whose paths lead somewhere. -/
theorem parse_eq_ok_iff (name source : String) (t : UserTemplate) :
    UserTemplate.parse name source = .ok t ↔ t.name = name ∧ Builds (pieces source) t.nodes ∧
      Resolves [fullReport.toValue] t.nodes := by
  rw [← parseNodes_eq_ok_iff, ← checkNodes_eq_ok_iff, ← check_eq_ok_iff, UserTemplate.parse]
  obtain ⟨own, nodes⟩ := t
  rcases UserTemplate.check source with fault | checked
  · simp
  · simp [eq_comm]

/-! ## Looking up while rendering -/

/-- A path that was looked up, and the value it led to. -/
structure Asked where
  path : List Char
  found : Option Value

mutual

/-- The text of a node, and what was looked up for it. -/
def traceNode (contexts : List Value) : Node → String × List Asked
  | .text chars => (String.ofList chars, [])
  | .field path =>
    let found := lookup? contexts path
    ((found.map display).getD "", [⟨path, found⟩])
  | .repeated path body =>
    let found := lookup? contexts path
    let inside := match found with
      | some (.list items) =>
        let parts := items.map fun item => traceNodes (item :: contexts) body
        (String.join (parts.map Prod.fst), parts.flatMap Prod.snd)
      | some (.record entries) => traceNodes (.record entries :: contexts) body
      | some v => if isShown v then traceNodes contexts body else ("", [])
      | none => ("", [])
    (inside.1, ⟨path, found⟩ :: inside.2)

/-- The texts of some nodes, and what was looked up for them. -/
def traceNodes (contexts : List Value) : List Node → String × List Asked
  | [] => ("", [])
  | node :: rest =>
    ((traceNode contexts node).1 ++ (traceNodes contexts rest).1,
      (traceNode contexts node).2 ++ (traceNodes contexts rest).2)

end

mutual

theorem traceNode_text (contexts : List Value) :
    ∀ node, (traceNode contexts node).1 = renderNode contexts node
  | .text chars => by rw [traceNode, renderNode]
  | .field path => by
    rw [traceNode, renderNode]
    cases lookup? contexts path <;> rfl
  | .repeated path body => by
    have hbody := fun contexts => traceNodes_text contexts body
    rw [traceNode, renderNode]
    dsimp only
    rcases lookup? contexts path with _ | v
    · rfl
    · cases v with
      | list items => simp [hbody, Function.comp_def]
      | record entries => exact hbody _
      | _ => simp only [apply_ite Prod.fst, hbody]

/-- To note what is looked up changes nothing of the text. -/
theorem traceNodes_text (contexts : List Value) :
    ∀ nodes, (traceNodes contexts nodes).1 = renderNodes contexts nodes
  | [] => by rw [traceNodes, renderNodes]
  | node :: rest => by
    rw [traceNodes, renderNodes, traceNode_text contexts node, traceNodes_text contexts rest]

end

/-! ## Reports of like shape -/

/-- A value with nothing inside. -/
def IsLeaf : Value → Prop
  | .list _ => False
  | .record _ => False
  | _ => True

/-- What is said of a file that was not found. -/
def IsMissing (v : Value) : Prop :=
  ∃ path revision, v = .record [("path", .text path), ("revision", .text revision)]

/-- The scope in the checked report. -/
def fullScope : Value :=
  Source.ScopeSpan.toValue ⟨"", "", 1, 1⟩

/-- Wherever these names stand in the checked report, they stand for values of the same kind. -/
structure Uniform (v : Value) : Prop where
  leaf : ∀ name ∈ ["path", "revision"], ∀ part, member? name v = some part → IsLeaf part
  scope : ∀ part, member? "scope" v = some part → part = fullScope

/-- How a part of the checked report corresponds to one of another report. -/
inductive Like : Value → Value → Prop
  | leaf {full actual : Value} (hfull : IsLeaf full) (hactual : IsLeaf actual) : Like full actual
  | missing {full actual : Value} (hfull : IsLeaf full) (hactual : IsMissing actual) :
    Like full actual
  | list {item : Value} {actual : List Value} (hitems : ∀ v ∈ actual, Like item v) :
    Like (.list [item]) (.list actual)
  | record {full actual : List (String × Value)} (huniform : Uniform (.record full))
    (hnames : ∀ name, member? name (.record full) = none → member? name (.record actual) = none)
    (hparts : ∀ name part, member? name (.record full) = some part →
      member? name (.record actual) = none → name = "scope")
    (hlike : ∀ name part v, member? name (.record full) = some part →
      member? name (.record actual) = some v → Like part v) :
    Like (.record full) (.record actual)

/-- How the contexts of a check correspond to those of a rendering. -/
inductive Alike : List Value → List Value → Prop
  | nil : Alike [] []
  | cons {full actual : Value} {fulls actuals : List Value} (hlike : Like full actual)
    (hrest : Alike fulls actuals) : Alike (full :: fulls) (actual :: actuals)
  /-- A section for what is said of a missing file has a context of its own. -/
  | missing {actual : Value} {fulls actuals : List Value} (hmissing : IsMissing actual)
    (hrest : Alike fulls actuals) : Alike fulls (actual :: actuals)

theorem IsLeaf.member?_eq_none {v : Value} (h : IsLeaf v) (name : String) :
    member? name v = none := by
  cases v with
  | list => cases h
  | record => cases h
  | _ => rfl

theorem IsMissing.member? {v : Value} (h : IsMissing v) (name : String) :
    name ∈ ["path", "revision"] ∧ (∃ part, member? name v = some part ∧ IsLeaf part) ∨
      name ∉ ["path", "revision"] ∧ member? name v = none := by
  obtain ⟨path, revision, rfl⟩ := h
  by_cases hpath : name = "path"
  · subst hpath
    exact .inl ⟨by simp, .text path, rfl, trivial⟩
  by_cases hrevision : name = "revision"
  · subst hrevision
    exact .inl ⟨by simp, .text revision, rfl, trivial⟩
  · refine .inr ⟨by simp [hpath, hrevision], ?_⟩
    simp [Render.member?, Ne.symm hpath, Ne.symm hrevision]

/-- A name from the checked part leads to a like part, or it names a scope. -/
theorem Like.member? {full actual : Value} (h : Like full actual) {name : String} {part : Value}
    (hpart : member? name full = some part) :
    (∃ v, Render.member? name actual = some v ∧ Like part v) ∨
      Render.member? name actual = none ∧ name = "scope" := by
  cases h with
  | leaf hfull => simp [hfull.member?_eq_none] at hpart
  | missing hfull => simp [hfull.member?_eq_none] at hpart
  | list => cases hpart
  | @record full actual huniform hnames hparts hlike =>
    rcases hactual : Render.member? name (.record actual) with _ | v
    · exact .inr ⟨rfl, hparts name part hpart hactual⟩
    · exact .inl ⟨v, rfl, hlike name part v hpart hactual⟩

/-- The value that the rest of a path leads to. -/
def descend (names : List String) (v : Value) : Option Value :=
  names.foldl (fun v? name => v?.bind (member? name)) (some v)

theorem descend_cons (name : String) (names : List String) (v : Value) :
    descend (name :: names) v = (member? name v).bind (descend names) := by
  rw [descend, List.foldl_cons, Option.bind_some]
  cases member? name v with
  | some part => rfl
  | none =>
    induction names with
    | nil => rfl
    | cons next rest ih => exact ih

theorem Like.descend {full actual : Value} (h : Like full actual) {names : List String}
    {part : Value} (hpart : descend names full = some part) :
    (∃ v, Render.descend names actual = some v ∧ Like part v) ∨
      Render.descend names actual = none ∧ "scope" ∈ names := by
  induction names generalizing full actual with
  | nil =>
    cases hpart
    exact .inl ⟨actual, rfl, h⟩
  | cons name names ih =>
    rw [descend_cons] at hpart ⊢
    obtain ⟨next, hnext, hpart⟩ := Option.bind_eq_some_iff.mp hpart
    rcases h.member? hnext with ⟨v, hv, hlike⟩ | ⟨hnone, rfl⟩
    · rw [hv, Option.bind_some]
      exact (ih hlike hpart).imp_right fun ⟨hnone, hmem⟩ => ⟨hnone, .tail _ hmem⟩
    · exact .inr ⟨by rw [hnone, Option.bind_none], List.mem_cons_self⟩

/-- What a check finds under these names has nothing inside, wherever it is found. -/
theorem Alike.leaf {fulls actuals : List Value} (h : Alike fulls actuals) {name : String}
    (hname : name ∈ ["path", "revision"]) {part : Value}
    (hpart : fulls.findSome? (member? name) = some part) : IsLeaf part := by
  induction h with
  | nil => cases hpart
  | missing _ _ ih => exact ih hpart
  | @cons full _ _ _ hlike _ ih =>
    rw [List.findSome?_cons] at hpart
    rcases hfound : member? name full with _ | v <;> simp only [hfound] at hpart
    · exact ih hpart
    · cases hpart
      cases hlike with
      | leaf hfull => simp [hfull.member?_eq_none] at hfound
      | missing hfull => simp [hfull.member?_eq_none] at hfound
      | list => cases hfound
      | record huniform => exact huniform.leaf name hname part hfound

/-- A scope that is found further out is like any other. -/
theorem Alike.scope {fulls actuals : List Value} (h : Alike fulls actuals) {v : Value}
    (hv : actuals.findSome? (member? "scope") = some v) : Like fullScope v := by
  induction h with
  | nil => cases hv
  | missing hmissing _ ih =>
    rcases hmissing.member? "scope" with ⟨hmem, -⟩ | ⟨-, hnone⟩
    · simp at hmem
    · rw [List.findSome?_cons, hnone] at hv
      exact ih hv
  | @cons full actual _ _ hlike _ ih =>
    rw [List.findSome?_cons] at hv
    rcases hfound : member? "scope" actual with _ | part <;> simp only [hfound] at hv
    · exact ih hv
    · cases hv
      cases hlike with
      | leaf _ hactual => simp [hactual.member?_eq_none] at hfound
      | missing _ hactual =>
        rcases hactual.member? "scope" with ⟨hmem, -⟩ | ⟨-, hnone⟩
        · simp at hmem
        · rw [hnone] at hfound
          cases hfound
      | list => cases hfound
      | @record full actual huniform hnames _ hlike =>
        rcases hfull : member? "scope" (.record full) with _ | checked
        · rw [hnames _ hfull] at hfound
          cases hfound
        · rw [← huniform.scope checked hfull]
          exact hlike _ _ _ hfull hfound

theorem Alike.findSome? {fulls actuals : List Value} (h : Alike fulls actuals) {name : String}
    {part : Value} (hpart : fulls.findSome? (member? name) = some part) :
    (∃ v, actuals.findSome? (member? name) = some v ∧ Like part v) ∨
      actuals.findSome? (member? name) = none ∧ name = "scope" := by
  -- what is said of a missing file shadows only names that stand for leaves further out
  have hshadow : ∀ {fulls actuals : List Value} {actual : Value}, Alike fulls actuals →
      fulls.findSome? (member? name) = some part → IsMissing actual →
      ((∃ v, actuals.findSome? (member? name) = some v ∧ Like part v) ∨
        actuals.findSome? (member? name) = none ∧ name = "scope") →
      (∃ v, (actual :: actuals).findSome? (member? name) = some v ∧ Like part v) ∨
        (actual :: actuals).findSome? (member? name) = none ∧ name = "scope" := by
    intro fulls actuals actual hrest hpart hmissing ih
    rw [List.findSome?_cons]
    rcases hmissing.member? name with ⟨hmem, v, hv, hleaf⟩ | ⟨-, hnone⟩
    · rw [hv]
      exact .inl ⟨v, rfl, .leaf (hrest.leaf hmem hpart) hleaf⟩
    · rw [hnone]
      exact ih
  induction h with
  | nil => cases hpart
  | missing hmissing hrest ih => exact hshadow hrest hpart hmissing (ih hpart)
  | @cons full actual fulls actuals hlike hrest ih =>
    rw [List.findSome?_cons] at hpart
    rcases hfound : member? name full with _ | v <;> simp only [hfound] at hpart
    · -- neither of the two has the name, unless the file is missing
      cases hlike with
      | missing _ hactual => exact hshadow hrest hpart hactual (ih hpart)
      | leaf _ hactual =>
        rw [List.findSome?_cons, hactual.member?_eq_none]
        exact ih hpart
      | list => exact ih hpart
      | record _ hnames =>
        rw [List.findSome?_cons, hnames _ hfound]
        exact ih hpart
    · cases hpart
      rw [List.findSome?_cons]
      rcases hlike.member? hfound with ⟨v, hv, hlike⟩ | ⟨hnone, rfl⟩
      · rw [hv]
        exact .inl ⟨v, rfl, hlike⟩
      · rw [hnone]
        cases hlike with
        | record huniform =>
          rw [huniform.scope part hfound]
          rcases hscope : actuals.findSome? (member? "scope") with _ | v
          · exact .inr ⟨rfl, rfl⟩
          · exact .inl ⟨v, rfl, hrest.scope hscope⟩
        | leaf hfull => simp [hfull.member?_eq_none] at hfound
        | missing hfull => simp [hfull.member?_eq_none] at hfound
        | list => cases hfound

theorem lookup?_eq_some_iff {contexts : List Value} {path : List Char} {v : Value} :
    lookup? contexts path = some v ↔ ∃ first rest start, segments path = first :: rest ∧
      contexts.findSome? (member? first) = some start ∧ descend rest start = some v := by
  rw [lookup?]
  rcases segments path with _ | ⟨first, rest⟩
  · simp
  · simp only [Option.bind_eq_some_iff, List.cons.injEq]
    exact ⟨fun ⟨start, hstart, hrest⟩ => ⟨first, rest, start, ⟨rfl, rfl⟩, hstart, hrest⟩,
      fun ⟨_, _, start, ⟨hfirst, hrest⟩, hstart, hv⟩ => ⟨start, hfirst ▸ hstart, hrest ▸ hv⟩⟩

/-- **A path that the check could follow leads somewhere, or it names a scope.** -/
theorem Alike.lookup {fulls actuals : List Value} (h : Alike fulls actuals) {path : List Char}
    {part : Value} (hpart : lookup? fulls path = some part) :
    (∃ v, lookup? actuals path = some v ∧ Like part v) ∨
      lookup? actuals path = none ∧ "scope" ∈ segments path := by
  obtain ⟨first, rest, start, hsegments, hstart, hrest⟩ := lookup?_eq_some_iff.mp hpart
  have hlookup : lookup? actuals path =
      (actuals.findSome? (member? first)).bind (descend rest) := by
    simp only [lookup?, hsegments]
    rfl
  rw [hlookup, hsegments]
  rcases h.findSome? hstart with ⟨v, hv, hlike⟩ | ⟨hnone, rfl⟩
  · rw [hv, Option.bind_some]
    exact (hlike.descend hrest).imp_right fun ⟨hnone, hmem⟩ => ⟨hnone, .tail _ hmem⟩
  · exact .inr ⟨by rw [hnone, Option.bind_none], List.mem_cons_self⟩

/-! ## Rendering what was checked -/

theorem enter_of_isLeaf {contexts : List Value} {path : List Char} {v : Value}
    (hv : lookup? contexts path = some v) (h : IsLeaf v) : enter contexts path = contexts := by
  rw [enter, hv]
  cases v with
  | list => cases h
  | record => cases h
  | _ => rfl

/-- All that was looked up was found, but for scopes. -/
def FindsAll (asked : List Asked) : Prop :=
  ∀ a ∈ asked, a.found = none → "scope" ∈ segments a.path

theorem findsAll_append {first second : List Asked} :
    FindsAll (first ++ second) ↔ FindsAll first ∧ FindsAll second := by
  simp only [FindsAll, List.mem_append, or_imp, forall_and]

theorem findsAll_cons {a : Asked} {rest : List Asked} :
    FindsAll (a :: rest) ↔ (a.found = none → "scope" ∈ segments a.path) ∧ FindsAll rest := by
  simp only [FindsAll, List.forall_mem_cons]

theorem findsAll_nil : FindsAll [] :=
  fun _ hmem => nomatch hmem

mutual

theorem traceNode_findsAll {fulls actuals : List Value} (h : Alike fulls actuals) :
    ∀ node, checkNode fulls node = .ok () → FindsAll (traceNode actuals node).2
  | .text chars, _ => by
    rw [traceNode]
    exact findsAll_nil
  | .field path, hcheck => by
    obtain ⟨part, hpart⟩ : ∃ part, lookup? fulls path = some part := by
      rw [checkNode] at hcheck
      split at hcheck
      · exact Option.isSome_iff_exists.mp ‹_›
      · cases hcheck
    rw [traceNode]
    refine findsAll_cons.mpr ⟨fun hnone => ?_, findsAll_nil⟩
    rcases h.lookup hpart with ⟨v, hv, -⟩ | ⟨-, hscope⟩
    · simp [hv] at hnone
    · exact hscope
  | .repeated path body, hcheck => by
    obtain ⟨hpath, hbody⟩ := checkNode_repeated.mp hcheck
    obtain ⟨part, hpart⟩ := Option.isSome_iff_exists.mp hpath
    rw [traceNode]
    dsimp only
    rcases h.lookup hpart with ⟨v, hv, hlike⟩ | ⟨hnone, hscope⟩
    · rw [hv]
      refine findsAll_cons.mpr ⟨fun hnone => by simp at hnone, ?_⟩
      cases hlike with
      | leaf hfull hactual =>
        rw [enter_of_isLeaf hpart hfull] at hbody
        have hinside := traceNodes_findsAll h body hbody
        cases v with
        | list => cases hactual
        | record => cases hactual
        | _ =>
          dsimp only
          split
          · exact hinside
          · exact findsAll_nil
      | missing hfull hactual =>
        rw [enter_of_isLeaf hpart hfull] at hbody
        have hinside := traceNodes_findsAll (.missing hactual h) body hbody
        obtain ⟨_, _, rfl⟩ := hactual
        exact hinside
      | @list item actual hitems =>
        rw [enter, hpart] at hbody
        simp only [FindsAll, List.mem_flatMap, List.mem_map]
        rintro a ⟨_, ⟨v, hmem, rfl⟩, ha⟩
        exact traceNodes_findsAll (.cons (hitems v hmem) h) body hbody a ha
      | record huniform hnames hparts hlike =>
        rw [enter, hpart] at hbody
        exact traceNodes_findsAll (.cons (.record huniform hnames hparts hlike) h) body hbody
    · rw [hnone]
      exact findsAll_cons.mpr ⟨fun _ => hscope, findsAll_nil⟩

theorem traceNodes_findsAll {fulls actuals : List Value} (h : Alike fulls actuals) :
    ∀ nodes, checkNodes fulls nodes = .ok () → FindsAll (traceNodes actuals nodes).2
  | [], _ => by
    rw [traceNodes]
    exact findsAll_nil
  | node :: rest, hcheck => by
    rw [checkNodes] at hcheck
    rw [traceNodes]
    rcases hnode : checkNode fulls node with fault | _ <;> simp only [hnode] at hcheck
    · cases hcheck
    · exact findsAll_append.mpr
        ⟨traceNode_findsAll h node hnode, traceNodes_findsAll h rest hcheck⟩

end

/-! ## Every report is like the checked one -/

/-- Entries under the same names, like each other. -/
inductive Aligned : List (String × Value) → List (String × Value) → Prop
  | nil : Aligned [] []
  | cons {name : String} {part v : Value} {full actual : List (String × Value)}
    (hlike : Like part v) (hrest : Aligned full actual) :
    Aligned ((name, part) :: full) ((name, v) :: actual)
  /-- A scope may be left out. -/
  | skip {part : Value} : Aligned [("scope", part)] []

/-- The entries of a checked record are as `Uniform` would have them. -/
def UniformEntries (entries : List (String × Value)) : Prop :=
  ∀ e ∈ entries, (e.1 ∈ ["path", "revision"] → IsLeaf e.2) ∧ (e.1 = "scope" → e.2 = fullScope)

theorem member?_cons (name other : String) (v : Value) (rest : List (String × Value)) :
    member? name (.record ((other, v) :: rest)) =
      if other = name then some v else member? name (.record rest) := by
  by_cases h : other = name <;> simp [member?, h]

theorem mem_of_member? {name : String} {part : Value} {entries : List (String × Value)}
    (h : member? name (.record entries) = some part) : (name, part) ∈ entries := by
  induction entries with
  | nil => cases h
  | cons e rest ih =>
    obtain ⟨other, v⟩ := e
    rw [member?_cons] at h
    split at h
    · cases h
      subst_vars
      exact List.mem_cons_self
    · exact List.mem_cons_of_mem _ (ih h)

theorem uniform_of_entries {entries : List (String × Value)} (h : UniformEntries entries) :
    Uniform (.record entries) where
  leaf _ hname _ hpart := (h _ (mem_of_member? hpart)).1 hname
  scope _ hpart := (h _ (mem_of_member? hpart)).2 rfl

theorem Like.of_aligned {full actual : List (String × Value)} (huniform : UniformEntries full)
    (h : Aligned full actual) : Like (.record full) (.record actual) := by
  refine .record (uniform_of_entries huniform) ?_ ?_ ?_ <;> clear huniform
  · intro name hnone
    induction h with
    | nil => rfl
    | skip => rfl
    | cons _ _ ih =>
      rw [member?_cons] at hnone ⊢
      split at hnone
      · cases hnone
      · rw [if_neg ‹_›]
        exact ih hnone
  · intro name part hpart hnone
    induction h with
    | nil => cases hpart
    | skip =>
      rw [member?_cons] at hpart
      split at hpart
      · exact (‹"scope" = name›).symm
      · cases hpart
    | cons _ _ ih =>
      rw [member?_cons] at hpart hnone
      split at hpart
      · rw [if_pos ‹_›] at hnone
        cases hnone
      · rw [if_neg ‹_›] at hnone
        exact ih hpart hnone
  · intro name part v hpart hv
    induction h with
    | nil => cases hpart
    | skip => cases hv
    | cons hlike _ ih =>
      rw [member?_cons] at hpart hv
      split at hpart
      · rw [if_pos ‹_›] at hv
        cases hpart
        cases hv
        exact hlike
      · rw [if_neg ‹_›] at hv
        exact ih hpart hv

theorem Like.map {item : Value} {toValue : α → Value} (h : ∀ a, Like item (toValue a))
    (items : List α) : Like (.list [item]) (.list (items.map toValue)) := by
  refine .list fun v hmem => ?_
  obtain ⟨a, -, rfl⟩ := List.mem_map.mp hmem
  exact h a

theorem Like.ofOption (x : Float) (x? : Option Float) :
    Like (.float x) (Value.ofOption .float x?) := by
  cases x? with
  | none => exact .leaf trivial trivial
  | some y => exact .leaf trivial trivial

section Aligned

variable {name : String} {full actual : List (String × Value)} (hrest : Aligned full actual)

include hrest

theorem Aligned.text {s t : String} :
    Aligned ((name, .text s) :: full) ((name, .text t) :: actual) :=
  .cons (.leaf trivial trivial) hrest

theorem Aligned.int {m n : Int} : Aligned ((name, .int m) :: full) ((name, .int n) :: actual) :=
  .cons (.leaf trivial trivial) hrest

theorem Aligned.float {x y : Float} :
    Aligned ((name, .float x) :: full) ((name, .float y) :: actual) :=
  .cons (.leaf trivial trivial) hrest

theorem Aligned.bool {b c : Bool} : Aligned ((name, .bool b) :: full) ((name, .bool c) :: actual) :=
  .cons (.leaf trivial trivial) hrest

end Aligned

theorem like_scope (scope : Source.ScopeSpan) : Like fullScope scope.toValue :=
  .of_aligned (by simp [UniformEntries]) (.text <| .text <| .int <| .int .nil)

/-- The unit that the records and failures of the checked report are of. -/
def fullUnit : Source.UnitId :=
  ⟨"", "", some ⟨"", "", 1, 1⟩⟩

theorem like_unit (id : Source.UnitId) : Like fullUnit.toValue id.toValue := by
  obtain ⟨path, revision, scope⟩ := id
  refine .of_aligned (by simp [UniformEntries, fullUnit, IsLeaf, fullScope]) ?_
  cases scope with
  | none => exact .text <| .text .skip
  | some scope => exact .text <| .text <| .cons (like_scope scope) .nil

theorem like_features (v : Feature.Vector) :
    Like (Feature.Vector.toValue ⟨"", [""], [0]⟩) v.toValue := by
  refine .of_aligned (by simp [UniformEntries]) (.text <| .cons ?_ <| .cons ?_ .nil)
  · have hname : ∀ name, Like (.text "") (.text name) := fun _ => .leaf trivial trivial
    exact .map hname v.names
  · have hvalue : ∀ x, Like (.float 0) (.float x) := fun _ => .leaf trivial trivial
    exact .map hvalue v.values

theorem like_record (r : Report.Record) :
    Like (Report.Record.toValue ⟨fullUnit, .rust, ⟨"", [""], [0]⟩, 0, .medium, .epoch⟩)
      r.toValue :=
  .of_aligned (by simp [UniformEntries]) <| .cons (like_unit r.unit) <| .text
    <| .cons (like_features r.features) <| .float <| .text <| .text .nil

-- the one place where a text of the checked report may be a record in another one
theorem like_detail (e : Source.UnitError) : Like (.text "") e.detail := by
  cases e with
  | notFound path revision => exact .missing trivial ⟨path, revision, rfl⟩
  | _ => exact .leaf trivial trivial

theorem like_failure (f : Report.Failure) :
    Like (Report.Failure.toValue ⟨fullUnit, .parse ""⟩) f.toValue := by
  have herror : Like (Source.UnitError.toValue (.parse "")) f.error.toValue :=
    .of_aligned (by simp [UniformEntries]) <| .text <| .cons (like_detail f.error) .nil
  exact .of_aligned (by simp [UniformEntries]) <| .cons (like_unit f.unit) <| .cons herror .nil

theorem like_summary (s : Report.Summary) :
    Like (Report.Summary.toValue ⟨0, 0, some 0, some 0, some 0, some 0, some 0, ⟨0, 0, 0⟩⟩)
      s.toValue := by
  have hbands : Like (Report.BandCounts.toValue ⟨0, 0, 0⟩) s.bands.toValue :=
    .of_aligned (by simp [UniformEntries]) <| .int <| .int <| .int .nil
  exact .of_aligned (by simp [UniformEntries]) <| .int <| .int
    <| .cons (.ofOption 0 s.mean) <| .cons (.ofOption 0 s.median) <| .cons (.ofOption 0 s.min)
    <| .cons (.ofOption 0 s.max) <| .cons (.ofOption 0 s.trendPerDay) <| .cons hbands .nil

theorem like_model (i : Model.Info) : Like Model.Info.blank.toValue i.toValue :=
  .of_aligned (by simp [UniformEntries])
    <| .text <| .int <| .text <| .float <| .float <| .text .nil

theorem like_file (t : Report.FileTrend) :
    Like (Report.FileTrend.toValue ⟨"", 0, 0, 0, 0⟩) t.toValue :=
  .of_aligned (by simp [UniformEntries, IsLeaf])
    <| .text <| .int <| .float <| .float <| .float .nil

theorem like_revision (s : Report.RevisionSummary) :
    Like (Report.RevisionSummary.toValue ⟨"", .epoch, 0, 0, some 0⟩) s.toValue :=
  .of_aligned (by simp [UniformEntries, IsLeaf])
    <| .text <| .text <| .int <| .float <| .cons (.ofOption 0 s.delta) .nil

/-- **Every report is like the checked one.** -/
theorem like_report (r : Report) : Like fullReport.toValue r.toValue :=
  .of_aligned (by simp [UniformEntries])
    <| .text <| .text <| .text <| .text <| .cons (like_model r.model) <| .text <| .bool <| .int
    <| .cons (.map like_record r.records) <| .cons (.map like_failure r.failures)
    <| .cons (like_summary r.summary) <| .cons (.map like_file r.files)
    <| .cons (.map like_revision r.revisions) .nil

/-- **A text is accepted exactly when its tags are well nested and each path leads somewhere from
inside the sections around it; what an accepted template then looks up while a report is rendered
is there, or its path names a scope.** -/
theorem parse_eq_ok_and_findsAll (name source : String) :
    (∀ t, UserTemplate.parse name source = .ok t ↔ t.name = name ∧
      Builds (pieces source) t.nodes ∧ Resolves [fullReport.toValue] t.nodes) ∧
    ∀ t, UserTemplate.parse name source = .ok t → ∀ r : Report,
      (traceNodes [r.toValue] t.nodes).1 = t.render r ∧
        ∀ asked ∈ (traceNodes [r.toValue] t.nodes).2,
          asked.found = none → "scope" ∈ segments asked.path := by
  refine ⟨parse_eq_ok_iff name source, fun t ht r => ⟨traceNodes_text _ _, ?_⟩⟩
  have hchecked : checkNodes [fullReport.toValue] t.nodes = .ok () :=
    (checkNodes_eq_ok_iff _ _).mpr ((parse_eq_ok_iff name source t).mp ht).2.2
  exact traceNodes_findsAll (.cons (like_report r) .nil) t.nodes hchecked

/-- The names in a path are what stands between its dots. -/
theorem segments_eq (path : List Char) : segments path = (path.splitOn '.').map String.ofList := by
  have h := Source.Path.splitOn_singleton '.' (String.ofList path)
  rwa [Source.Path.pieces, String.toList_ofList] at h

/-- A template that asks, inside what is said of a missing file, for a path and for a scope. -/
def missingFiles : String :=
  "\x7b\x7b#failures\x7d\x7d\x7b\x7b#unit\x7d\x7d\x7b\x7b#error.detail\x7d\x7d"
    ++ "\x7b\x7bpath\x7d\x7d \x7b\x7bscope.name\x7d\x7d"
    ++ "\x7b\x7b/error.detail\x7d\x7d\x7b\x7b/unit\x7d\x7d\x7b\x7b/failures\x7d\x7d"

/-- Its nodes. -/
def missingNodes : List Node :=
  [.repeated "failures".toList [.repeated "unit".toList [.repeated "error.detail".toList
    [.field "path".toList, .text " ".toList, .field "scope.name".toList]]]]

theorem missingFiles_accepted_and_findsAll :
    UserTemplate.parse "missing" missingFiles = .ok ⟨"missing", missingNodes⟩ ∧
      ∀ r : Report, (traceNodes [r.toValue] missingNodes).1 =
          UserTemplate.render ⟨"missing", missingNodes⟩ r ∧
        ∀ asked ∈ (traceNodes [r.toValue] missingNodes).2,
          asked.found = none → "scope" ∈ segments asked.path := by
  have hbuilds : Builds (pieces missingFiles) missingNodes :=
    (parseNodes_eq_ok_iff missingFiles missingNodes).mp rfl
  have hresolves : Resolves [fullReport.toValue] missingNodes := by
    rw [← checkNodes_eq_ok_iff]
    simp only [missingNodes, checkNodes, checkNode, lookup?, segments_eq]
    rfl
  have haccepted := ((parse_eq_ok_and_findsAll "missing" missingFiles).1
    ⟨"missing", missingNodes⟩).mpr ⟨rfl, hbuilds, hresolves⟩
  exact ⟨haccepted, (parse_eq_ok_and_findsAll "missing" missingFiles).2 _ haccepted⟩

end Readability.Render
