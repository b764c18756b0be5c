import Readability.Render.Template

/-!
# Sections of a template

The pieces of a template make up nodes when its tags are well nested: every tag
that opens a section has one behind it that closes the section under the same
path, and what is between them is well nested too. `Builds` says this as a
grammar, without the stack that the reader keeps.

Main statement: `parseNodes_eq_ok_iff`. A text has nodes exactly when its tags are
well nested, and then it has the nodes that the grammar gives.
-/

namespace Readability.Render

/-- The pieces of a text. -/
def pieces (source : String) : List Piece :=
  piecesFrom 0 source.toList

/-- A section: what opens it, its inside, and what closes it. -/
def sectionPieces (path : List Char) (inside : List Piece) : List Piece :=
  .tag ⟨.openSection, path⟩ :: inside ++ [.tag ⟨.closeSection, path⟩]

/-- Pieces whose tags are well nested, and the nodes they make up. -/
inductive Builds : List Piece → List Node → Prop
  | nil : Builds [] []
  | text {chars : List Char} {rest : List Piece} {nodes : List Node} (hrest : Builds rest nodes) :
    Builds (.text chars :: rest) (.text chars :: nodes)
  | field {path : List Char} {rest : List Piece} {nodes : List Node} (hrest : Builds rest nodes) :
    Builds (.tag ⟨.field, path⟩ :: rest) (.field path :: nodes)
  | repeated {path : List Char} {inside rest : List Piece} {body nodes : List Node}
    (hinside : Builds inside body) (hrest : Builds rest nodes) :
    Builds (sectionPieces path inside ++ rest) (.repeated path body :: nodes)

/-- Pieces that are well nested end no section that was opened before them. -/
theorem nest_append {inside : List Piece} {body : List Node} (h : Builds inside body) :
    ∀ (opened : List Opened) (nodes : List Node) (rest : List Piece),
      nest opened nodes (inside ++ rest) = nest opened (nodes ++ body) rest := by
  induction h with
  | nil => simp
  | text _ ih =>
    intro opened nodes rest
    rw [List.cons_append, nest, ih, List.append_assoc, List.singleton_append]
  | field _ ih =>
    intro opened nodes rest
    rw [List.cons_append, nest, ih, List.append_assoc, List.singleton_append]
  | @repeated path inside after body _ _ _ ihinside ihrest =>
    intro opened nodes rest
    have hpieces : sectionPieces path inside ++ after ++ rest =
        .tag ⟨.openSection, path⟩ :: (inside ++ .tag ⟨.closeSection, path⟩ :: (after ++ rest)) := by
      simp [sectionPieces]
    rw [hpieces, nest, ihinside, nest, if_pos (beq_self_eq_true path), ihrest, List.nil_append,
      List.append_assoc, List.singleton_append]

/-- What is left to read, as the open sections would have it: their ends, each
with well-nested pieces before it, or nothing but well-nested pieces. -/
inductive Completes : List Opened → List Node → List Piece → List Node → Prop
  | ends {nodes body : List Node} {rest : List Piece} (hrest : Builds rest body) :
    Completes [] nodes rest (nodes ++ body)
  | closes {top : Opened} {outer : List Opened} {nodes body result : List Node}
    {inside rest : List Piece} (hinside : Builds inside body)
    (hrest : Completes outer (top.before ++ [.repeated top.path (nodes ++ body)]) rest result) :
    Completes (top :: outer) nodes (inside ++ .tag ⟨.closeSection, top.path⟩ :: rest) result

/-- Well-nested pieces may be put in front. -/
theorem Completes.prepend {opened : List Opened} {nodes body result : List Node}
    {rest : List Piece} (h : Completes opened (nodes ++ body) rest result) (first : List Piece)
    (hfirst : ∀ {more : List Piece} {after : List Node},
      Builds more after → Builds (first ++ more) (body ++ after)) :
    Completes opened nodes (first ++ rest) result := by
  cases h with
  | ends hrest =>
    rw [List.append_assoc]
    exact .ends (hfirst hrest)
  | closes hinside hrest =>
    rw [List.append_assoc] at hrest
    rw [← List.append_assoc]
    exact .closes (hfirst hinside) hrest

/-- Pieces that are read to their end complete all that was opened. -/
theorem completes_of_nest {result : List Node} :
    ∀ (rest : List Piece) (opened : List Opened) (nodes : List Node),
      nest opened nodes rest = .ok result → Completes opened nodes rest result := by
  intro rest
  induction rest with
  | nil =>
    intro opened nodes h
    cases opened with
    | nil =>
      have hends : Completes [] nodes [] (nodes ++ []) := .ends .nil
      rw [List.append_nil] at hends
      rwa [← Except.ok.inj h]
    | cons top outer => cases h
  | cons piece rest ih =>
    intro opened nodes h
    rcases piece with chars | ⟨sigil, path⟩
    · exact (ih _ _ h).prepend [.text chars] .text
    · cases sigil with
      | field => exact (ih _ _ h).prepend [.tag ⟨.field, path⟩] .field
      | openSection =>
        -- the section is closed somewhere behind, and what follows completes the outer ones
        cases ih _ _ h with
        | @closes _ _ _ body _ inside rest hinside hrest =>
          have hsection := hrest.prepend (sectionPieces path inside) (.repeated hinside)
          simpa [sectionPieces] using hsection
      | closeSection =>
        cases opened with
        | nil => cases h
        | cons top outer =>
          rw [nest] at h
          split at h
          · rename_i hsame
            rw [← beq_iff_eq.mp hsame] at h ⊢
            have hclosed := ih _ _ h
            rw [← List.append_nil nodes] at hclosed
            exact .closes .nil hclosed
          · cases h

/-- **A text has nodes exactly when its tags are well nested.** -/
theorem parseNodes_eq_ok_iff (source : String) (nodes : List Node) :
    parseNodes source.toList = .ok nodes ↔ Builds (pieces source) nodes := by
  constructor
  · intro h
    cases completes_of_nest _ _ _ h with
    | ends hrest => exact hrest
  · intro h
    have hnest := nest_append h [] [] []
    rw [List.append_nil] at hnest
    exact hnest

end Readability.Render
