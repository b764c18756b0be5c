import Mathlib.Data.List.TakeWhile
import Readability.Proofs.Nesting

/-!
# Tags of a template

A tag stands in double braces, with white space around its sigil and behind its path
(`Spells`). A text is searched for tags from the left: where one starts it is taken
whole, and where none starts the search goes on one character further (`Search`).

The reader reads a tag exactly where one starts (`readTag_eq_some_iff`), so its pieces
are what a search finds (`piecesFrom_eq`). Inside a tag there is no opening brace; hence
no tag can start in a text and end in the tag behind it, and when the white space inside
the tags is left out, a search still finds the same (`Search.tidy`).

Main statement: `parseNodes_lossless`. A text has nodes exactly when its tags are well
nested; the nodes print as the text without the white space inside its tags, and what
is printed has the same nodes again.
-/

namespace Readability.Render

/-! ## How tags are written -/

/-- What stands for a sigil. -/
def Sigil.chars : Sigil → List Char
  | .field => []
  | .openSection => ['#']
  | .closeSection => ['/']

/-- A letter or an underscore, and letters, digits, underscores and dots behind it. -/
def IsPath (path : List Char) : Prop :=
  ∃ first rest, path = first :: rest ∧ isPathStart first = true ∧
    ∀ c ∈ rest, isPathChar c = true

/-- Nothing but white space. -/
def Blank (chars : List Char) : Prop :=
  ∀ c ∈ chars, Text.isBlank c = true

/-- What stands between the double braces of a tag, and the closing ones. -/
def Tag.inside (t : Tag) (lead gap trail : List Char) : List Char :=
  lead ++ t.sigil.chars ++ gap ++ t.path ++ trail ++ ['}', '}']

/-- These characters are a tag. -/
def Spells (chars : List Char) (t : Tag) : Prop :=
  IsPath t.path ∧ ∃ lead gap trail, Blank lead ∧ Blank gap ∧ Blank trail ∧
    chars = '{' :: '{' :: t.inside lead gap trail

/-- A tag without white space inside. -/
def Tag.chars (t : Tag) : List Char :=
  '{' :: '{' :: t.sigil.chars ++ t.path ++ ['}', '}']

theorem blank_nil : Blank [] :=
  fun _ hc => nomatch hc

theorem Spells.canonical {chars : List Char} {t : Tag} (h : Spells chars t) :
    Spells t.chars t :=
  ⟨h.1, [], [], [], blank_nil, blank_nil, blank_nil, by simp [Tag.chars, Tag.inside]⟩

/-! ## Characters of a tag -/

theorem toNat_of_isPathChar {c : Char} (h : isPathChar c = true) :
    48 ≤ c.toNat ∧ c.toNat ≤ 57 ∨ 65 ≤ c.toNat ∧ c.toNat ≤ 90 ∨ c.toNat = 95 ∨
      97 ≤ c.toNat ∧ c.toNat ≤ 122 ∨ c.toNat = 46 := by
  unfold isPathChar Char.isAlphanum Char.isAlpha Char.isUpper Char.isLower Char.isDigit at h
  simp only [Bool.or_eq_true, Bool.and_eq_true, decide_eq_true_eq, beq_iff_eq, ge_iff_le,
    UInt32.le_iff_toNat_le] at h
  rcases h with (((⟨hlow, hhigh⟩ | ⟨hlow, hhigh⟩) | ⟨hlow, hhigh⟩) | rfl) | rfl
  · exact .inr (.inl ⟨hlow, hhigh⟩)
  · exact .inr (.inr (.inr (.inl ⟨hlow, hhigh⟩)))
  · exact .inl ⟨hlow, hhigh⟩
  · exact .inr (.inr (.inl rfl))
  · exact .inr (.inr (.inr (.inr rfl)))

theorem isBlank_of_isPathChar {c : Char} (h : isPathChar c = true) : Text.isBlank c = false := by
  have hvalue := toNat_of_isPathChar h
  unfold Text.isBlank
  simp only [Bool.or_eq_false_iff, Bool.and_eq_false_iff, decide_eq_false_iff_not,
    beq_eq_false_iff_ne]
  omega

theorem isPathChar_of_isPathStart {c : Char} (h : isPathStart c = true) : isPathChar c = true := by
  unfold isPathStart at h
  unfold isPathChar Char.isAlphanum
  rcases Bool.or_eq_true_iff.mp h with h | h <;> simp [h]

theorem IsPath.isPathChar {path : List Char} (h : IsPath path) :
    ∀ c ∈ path, isPathChar c = true := by
  obtain ⟨first, rest, rfl, hfirst, hrest⟩ := h
  exact List.forall_mem_cons.mpr ⟨isPathChar_of_isPathStart hfirst, hrest⟩

/-- There is no opening brace inside a tag. -/
theorem brace_notMem_inside {t : Tag} {lead gap trail : List Char} (hpath : IsPath t.path)
    (hlead : Blank lead) (hgap : Blank gap) (htrail : Blank trail) :
    '{' ∉ t.inside lead gap trail := by
  have hblank : ∀ {chars}, Blank chars → '{' ∉ chars := by
    intro chars hchars hmem
    exact absurd (hchars _ hmem) (by decide)
  have hsigil : '{' ∉ t.sigil.chars := by
    cases t.sigil <;> decide
  have hname : '{' ∉ t.path := fun hmem => absurd (hpath.isPathChar _ hmem) (by decide)
  simp only [Tag.inside, List.mem_append, not_or]
  exact ⟨⟨⟨⟨⟨hblank hlead, hsigil⟩, hblank hgap⟩, hname⟩, hblank htrail⟩, by decide⟩

/-! ## Reading a tag -/

theorem trimStart_blank {chars : List Char} (h : Blank chars) (rest : List Char) :
    Text.trimStart (chars ++ rest) = Text.trimStart rest :=
  List.dropWhile_append_of_pos h

theorem trimStart_cons {c : Char} (h : Text.isBlank c = false) (rest : List Char) :
    Text.trimStart (c :: rest) = c :: rest :=
  List.dropWhile_cons_of_neg (by rw [h]; exact Bool.false_ne_true)

/-- What is trimmed off is white space. -/
theorem exists_blank_append (cs : List Char) :
    ∃ chars, Blank chars ∧ cs = chars ++ Text.trimStart cs :=
  ⟨cs.takeWhile Text.isBlank, fun _ hc => List.mem_takeWhile_imp hc,
    List.takeWhile_append_dropWhile.symm⟩

theorem readSigil_append (cs : List Char) :
    cs = (readSigil cs).1.chars ++ (readSigil cs).2 := by
  unfold readSigil
  split <;> rfl

/-- The sigil of a tag is read, with the white space around it. -/
theorem readSigil_inside (sigil : Sigil) {lead gap : List Char} (hlead : Blank lead)
    (hgap : Blank gap) {c : Char} (hc : isPathStart c = true) (rest : List Char) :
    ∃ more, readSigil (Text.trimStart (lead ++ sigil.chars ++ gap ++ c :: rest)) = (sigil, more) ∧
      Text.trimStart more = c :: rest := by
  have htrim : Text.trimStart (c :: rest) = c :: rest :=
    trimStart_cons (isBlank_of_isPathChar (isPathChar_of_isPathStart hc)) rest
  rw [List.append_assoc, List.append_assoc, trimStart_blank hlead]
  cases sigil with
  | field =>
    refine ⟨c :: rest, ?_, htrim⟩
    rw [Sigil.chars, List.nil_append, trimStart_blank hgap, htrim]
    unfold readSigil
    split
    · next hhash =>
      cases hhash
      exact absurd hc (by decide)
    · next hslash =>
      cases hslash
      exact absurd hc (by decide)
    · rfl
  | openSection =>
    refine ⟨gap ++ c :: rest, ?_, by rw [trimStart_blank hgap, htrim]⟩
    rw [Sigil.chars, List.singleton_append, trimStart_cons (by decide)]
    rfl
  | closeSection =>
    refine ⟨gap ++ c :: rest, ?_, by rw [trimStart_blank hgap, htrim]⟩
    rw [Sigil.chars, List.singleton_append, trimStart_cons (by decide)]
    rfl

/-- A path is read up to the first character that cannot be part of it. -/
theorem readPath_append {path : List Char} (hpath : IsPath path) {c : Char}
    (hc : isPathChar c = false) (rest : List Char) :
    readPath (path ++ c :: rest) = some (path, c :: rest) := by
  have hchars := hpath.isPathChar
  have hstop : ¬ isPathChar c = true := by
    rw [hc]
    exact Bool.false_ne_true
  have htake : (path ++ c :: rest).takeWhile isPathChar = path := by
    rw [List.takeWhile_append_of_pos hchars, List.takeWhile_cons_of_neg hstop, List.append_nil]
  have hdrop : (path ++ c :: rest).dropWhile isPathChar = c :: rest := by
    rw [List.dropWhile_append_of_pos hchars, List.dropWhile_cons_of_neg hstop]
  obtain ⟨first, more, rfl, hfirst, -⟩ := hpath
  rw [List.cons_append] at htake hdrop ⊢
  unfold readPath
  rw [htake, hdrop]
  exact if_pos hfirst

theorem isPath_of_readPath {cs path rest : List Char} (h : readPath cs = some (path, rest)) :
    IsPath path ∧ cs = path ++ rest := by
  unfold readPath at h
  split at h
  · cases h
  · next first more =>
    split at h
    · next hfirst =>
      cases h
      have hstart := isPathChar_of_isPathStart hfirst
      refine ⟨⟨first, more.takeWhile isPathChar, List.takeWhile_cons_of_pos hstart, hfirst, ?_⟩,
        List.takeWhile_append_dropWhile.symm⟩
      exact fun c hc => List.mem_takeWhile_imp hc
    · cases h

/-- The steps of reading a tag behind its opening braces. -/
theorem readTag_braces {cs rest : List Char} {t : Tag} :
    readTag ('{' :: '{' :: cs) = some (t, rest) ↔
      ∃ more after, readSigil (Text.trimStart cs) = (t.sigil, more) ∧
        readPath (Text.trimStart more) = some (t.path, after) ∧
        Text.trimStart after = '}' :: '}' :: rest := by
  unfold readTag
  split
  · next inside hinside =>
    cases hinside
    rcases readSigil (Text.trimStart cs) with ⟨sigil, more⟩
    dsimp only
    constructor
    · intro h
      split at h
      · cases h
      · next path after hpath =>
        split at h
        · next rest hbraces =>
          cases h
          exact ⟨more, after, rfl, hpath, hbraces⟩
        · cases h
    · intro h
      obtain ⟨_, after, hsigil, hpath, hbraces⟩ := h
      cases hsigil
      rw [hpath]
      dsimp only
      rw [hbraces]
      split
      · next hrest =>
        cases hrest
        rfl
      · next hrest => exact absurd rfl (hrest rest)
  · next hbraces => exact absurd rfl (hbraces cs)

/-- What is a tag is read as that tag, whatever is behind it. -/
theorem readTag_append {chars : List Char} {t : Tag} (h : Spells chars t) (rest : List Char) :
    readTag (chars ++ rest) = some (t, rest) := by
  obtain ⟨hpath, lead, gap, trail, hlead, hgap, htrail, rfl⟩ := h
  obtain ⟨first, more, hfirst, hstart, -⟩ := id hpath
  obtain ⟨cs, hsigil, hcs⟩ := readSigil_inside t.sigil hlead hgap hstart
    (more ++ (trail ++ '}' :: '}' :: rest))
  refine readTag_braces.mpr ⟨cs, trail ++ '}' :: '}' :: rest, ?_, ?_, ?_⟩
  · rw [← hsigil]
    simp [Tag.inside, hfirst]
  · rw [hcs, ← List.cons_append, ← hfirst]
    -- the path ends at white space or at the braces
    cases trail with
    | nil => exact readPath_append hpath (by decide) _
    | cons c trail =>
      have hc : isPathChar c = false := by
        rw [← Bool.not_eq_true]
        intro hchar
        have hblank := htrail c List.mem_cons_self
        rw [isBlank_of_isPathChar hchar] at hblank
        cases hblank
      exact readPath_append hpath hc _
  · rw [trimStart_blank htrail, trimStart_cons (by decide)]

theorem spells_of_readTag {cs rest : List Char} {t : Tag} (h : readTag cs = some (t, rest)) :
    ∃ chars, Spells chars t ∧ cs = chars ++ rest := by
  have hbraces : ∃ inside, cs = '{' :: '{' :: inside := by
    unfold readTag at h
    split at h
    · exact ⟨_, rfl⟩
    · cases h
  obtain ⟨inside, rfl⟩ := hbraces
  obtain ⟨more, after, hsigil, hread, hend⟩ := readTag_braces.mp h
  -- white space is trimmed off before the sigil, before the path and behind it
  obtain ⟨lead, hlead, hinside⟩ := exists_blank_append inside
  obtain ⟨gap, hgap, hmore⟩ := exists_blank_append more
  obtain ⟨trail, htrail, hafter⟩ := exists_blank_append after
  obtain ⟨hpath, hsplit⟩ := isPath_of_readPath hread
  have hchars := readSigil_append (Text.trimStart inside)
  rw [hsigil] at hchars
  refine ⟨_, ⟨hpath, lead, gap, trail, hlead, hgap, htrail, rfl⟩, ?_⟩
  rw [hinside, hchars, hmore, hsplit, hafter, hend]
  simp [Tag.inside]

/-- **A tag is read exactly where one starts.** -/
theorem readTag_eq_some_iff {cs rest : List Char} {t : Tag} :
    readTag cs = some (t, rest) ↔ ∃ chars, Spells chars t ∧ cs = chars ++ rest := by
  constructor
  · exact spells_of_readTag
  · intro h
    obtain ⟨chars, hchars, rfl⟩ := h
    exact readTag_append hchars rest

/-! ## Searching a text for tags -/

/-- A tag starts here. -/
def TagAhead (cs : List Char) : Prop :=
  ∃ chars t rest, Spells chars t ∧ cs = chars ++ rest

/-- A character outside of all tags, or a tag with the characters that spell it. -/
inductive Item where
  | char (c : Char)
  | tag (chars : List Char) (tag : Tag)

/-- An item as the text has it. -/
def Item.chars : Item → List Char
  | .char c => [c]
  | .tag chars _ => chars

/-- An item without the white space inside a tag. -/
def Item.tidy : Item → List Char
  | .char c => [c]
  | .tag _ t => t.chars

def Item.tag? : Item → Option Tag
  | .char _ => none
  | .tag _ t => some t

/-- What a search from the left finds: a tag where one starts, and else one character. -/
inductive Search : List Char → List Item → Prop
  | ends : Search [] []
  | tag {cs chars rest : List Char} {t : Tag} {items : List Item} (hcs : cs = chars ++ rest)
    (htag : Spells chars t) (hrest : Search rest items) : Search cs (.tag chars t :: items)
  | char {c : Char} {rest : List Char} {items : List Item} (hnone : ¬ TagAhead (c :: rest))
    (hrest : Search rest items) : Search (c :: rest) (.char c :: items)

theorem Spells.ne_nil {chars : List Char} {t : Tag} (h : Spells chars t) : chars ≠ [] := by
  obtain ⟨-, lead, gap, trail, -, -, -, rfl⟩ := h
  exact List.cons_ne_nil _ _

/-- Where a tag starts, only one does. -/
theorem Spells.unique {chars other rest more : List Char} {t u : Tag} (h : Spells chars t)
    (hother : Spells other u) (heq : chars ++ rest = other ++ more) :
    chars = other ∧ t = u ∧ rest = more := by
  have hread := readTag_append h rest
  rw [heq, readTag_append hother more] at hread
  cases hread
  exact ⟨List.append_cancel_right heq, rfl, rfl⟩

theorem Search.exists_of_length (n : Nat) :
    ∀ cs : List Char, cs.length ≤ n → ∃ items, Search cs items := by
  induction n with
  | zero =>
    intro cs hlength
    rw [List.eq_nil_of_length_eq_zero (Nat.le_zero.mp hlength)]
    exact ⟨[], .ends⟩
  | succ n ih =>
    intro cs hlength
    cases cs with
    | nil => exact ⟨[], .ends⟩
    | cons c cs =>
      by_cases hahead : TagAhead (c :: cs)
      · obtain ⟨chars, t, rest, htag, hcs⟩ := hahead
        -- a tag has characters, so what is behind it is shorter
        have hshorter : rest.length ≤ n := by
          have hpos := List.length_pos_iff.mpr htag.ne_nil
          have hsum := congrArg List.length hcs
          rw [List.length_append] at hsum
          omega
        obtain ⟨items, hrest⟩ := ih rest hshorter
        exact ⟨_, .tag hcs htag hrest⟩
      · obtain ⟨items, hrest⟩ := ih cs (Nat.le_of_succ_le_succ hlength)
        exact ⟨_, .char hahead hrest⟩

/-- Two searches of a text find the same. -/
theorem Search.unique {cs : List Char} {items : List Item} (h : Search cs items) :
    ∀ others, Search cs others → others = items := by
  induction h with
  | ends =>
    intro others hothers
    cases hothers with
    | ends => rfl
    | tag hcs htag _ => exact absurd (List.append_eq_nil_iff.mp hcs.symm).1 htag.ne_nil
  | @tag cs chars rest t items hcs htag _ ih =>
    intro others hothers
    cases hothers with
    | ends => exact absurd (List.append_eq_nil_iff.mp hcs.symm).1 htag.ne_nil
    | tag hother hsame hrest =>
      obtain ⟨rfl, rfl, rfl⟩ := htag.unique hsame (hcs.symm.trans hother)
      rw [ih _ hrest]
    | char hnone _ => exact absurd ⟨chars, t, rest, htag, hcs⟩ hnone
  | char hnone _ ih =>
    intro others hothers
    cases hothers with
    | tag hcs htag _ => exact absurd ⟨_, _, _, htag, hcs⟩ hnone
    | char _ hrest => rw [ih _ hrest]

/-- What a search finds makes up the text. -/
theorem Search.flatMap_chars {cs : List Char} {items : List Item} (h : Search cs items) :
    items.flatMap Item.chars = cs := by
  induction h with
  | ends => rfl
  | tag hcs _ _ ih => rw [List.flatMap_cons, ih, hcs, Item.chars]
  | char _ _ ih => rw [List.flatMap_cons, ih, Item.chars, List.singleton_append]

/-! ## The pieces of a text -/

/-- The pieces that some items make up. -/
def piecesOf : List Item → List Piece
  | [] => []
  | .char c :: items => consChar c (piecesOf items)
  | .tag _ t :: items => .tag t :: piecesOf items

/-- Characters of a tag that was read are passed over. -/
theorem piecesFrom_eq_drop (cs : List Char) :
    ∀ skip, piecesFrom skip cs = piecesFrom 0 (cs.drop skip) := by
  induction cs with
  | nil =>
    intro skip
    rw [List.drop_nil, piecesFrom, piecesFrom]
  | cons c cs ih =>
    intro skip
    cases skip with
    | zero => rfl
    | succ skip => exact ih skip

/-- **The pieces of a text are what a search for tags finds.** -/
theorem piecesFrom_eq {cs : List Char} {items : List Item} (h : Search cs items) :
    piecesFrom 0 cs = piecesOf items := by
  induction h with
  | ends => rfl
  | @tag cs chars rest t items hcs htag _ ih =>
    subst hcs
    have hread := readTag_append htag rest
    obtain ⟨c, more, rfl⟩ := List.exists_cons_of_ne_nil htag.ne_nil
    rw [List.cons_append] at hread ⊢
    rw [piecesFrom, hread, piecesOf, ← ih]
    dsimp only
    rw [piecesFrom_eq_drop, List.length_append, Nat.add_sub_cancel, List.drop_left]
  | @char c rest items hnone _ ih =>
    have hread : readTag (c :: rest) = none := by
      rw [Option.eq_none_iff_forall_ne_some]
      intro read hsome
      obtain ⟨chars, htag, hcs⟩ := spells_of_readTag hsome
      exact hnone ⟨chars, read.1, read.2, htag, hcs⟩
    rw [piecesFrom, hread, piecesOf, ← ih]

/-! ## Printing nodes -/

mutual

/-- A node as it is written, with no white space inside its tags. -/
def printedNode : Node → List Char
  | .text chars => chars
  | .field path => Tag.chars ⟨.field, path⟩
  | .repeated path body =>
    Tag.chars ⟨.openSection, path⟩ ++ printed body ++ Tag.chars ⟨.closeSection, path⟩

/-- Nodes as they are written. -/
def printed : List Node → List Char
  | [] => []
  | node :: rest => printedNode node ++ printed rest

end

/-- A piece as it is written. -/
def Piece.chars : Piece → List Char
  | .text chars => chars
  | .tag t => t.chars

def Piece.tag? : Piece → Option Tag
  | .text _ => none
  | .tag t => some t

theorem flatMap_consChar (c : Char) (pieces : List Piece) :
    (consChar c pieces).flatMap Piece.chars = c :: pieces.flatMap Piece.chars := by
  unfold consChar
  split <;> rfl

theorem filterMap_consChar (c : Char) (pieces : List Piece) :
    (consChar c pieces).filterMap Piece.tag? = pieces.filterMap Piece.tag? := by
  unfold consChar
  split <;> rfl

theorem flatMap_piecesOf (items : List Item) :
    (piecesOf items).flatMap Piece.chars = items.flatMap Item.tidy := by
  induction items with
  | nil => rfl
  | cons item items ih =>
    cases item with
    | char c =>
      rw [piecesOf, flatMap_consChar, ih, List.flatMap_cons, Item.tidy, List.singleton_append]
    | tag chars t =>
      rw [piecesOf, List.flatMap_cons, ih, List.flatMap_cons, Item.tidy, Piece.chars]

theorem filterMap_piecesOf (items : List Item) :
    (piecesOf items).filterMap Piece.tag? = items.filterMap Item.tag? := by
  induction items with
  | nil => rfl
  | cons item items ih =>
    cases item with
    | char c => rw [piecesOf, filterMap_consChar, ih, List.filterMap_cons_none rfl]
    | tag chars t => simp only [piecesOf, List.filterMap_cons, Piece.tag?, Item.tag?, ih]

/-- Nodes print as the pieces they were built from. -/
theorem Builds.printed_eq {pieces : List Piece} {nodes : List Node} (h : Builds pieces nodes) :
    printed nodes = pieces.flatMap Piece.chars := by
  induction h with
  | nil => rw [printed, List.flatMap_nil]
  | text _ ih => rw [printed, printedNode, ih, List.flatMap_cons, Piece.chars]
  | field _ ih => rw [printed, printedNode, ih, List.flatMap_cons, Piece.chars]
  | repeated _ _ ihinside ihrest =>
    rw [printed, printedNode, ihinside, ihrest]
    simp [sectionPieces, Piece.chars]

/-! ## Well-nested tags -/

/-- Each tag that opens a section has one behind it that closes it under the same path, and
the tags between the two are well nested. -/
inductive WellNested : List Tag → Prop
  | nil : WellNested []
  | field {path : List Char} {rest : List Tag} (hrest : WellNested rest) :
    WellNested (⟨.field, path⟩ :: rest)
  | repeated {path : List Char} {inside rest : List Tag} (hinside : WellNested inside)
    (hrest : WellNested rest) :
    WellNested (⟨.openSection, path⟩ :: inside ++ ⟨.closeSection, path⟩ :: rest)

theorem Builds.wellNested {pieces : List Piece} {nodes : List Node} (h : Builds pieces nodes) :
    WellNested (pieces.filterMap Piece.tag?) := by
  induction h with
  | nil => exact .nil
  | text _ ih => exact ih
  | field _ ih => exact .field ih
  | @repeated path inside rest _ _ _ _ ihinside ihrest =>
    have htags : (sectionPieces path inside ++ rest).filterMap Piece.tag? =
        ⟨.openSection, path⟩ :: inside.filterMap Piece.tag? ++
          ⟨.closeSection, path⟩ :: rest.filterMap Piece.tag? := by
      simp [sectionPieces, Piece.tag?]
    rw [htags]
    exact .repeated ihinside ihrest

/-- Texts in front of pieces become nodes in front of nodes. -/
theorem exists_builds_append {rest : List Piece} (h : ∃ nodes, Builds rest nodes)
    (first : List Piece) (hfirst : ∀ piece ∈ first, piece.tag? = none) :
    ∃ nodes, Builds (first ++ rest) nodes := by
  induction first with
  | nil => exact h
  | cons piece first ih =>
    obtain ⟨hpiece, hfirst⟩ := List.forall_mem_cons.mp hfirst
    obtain ⟨nodes, hnodes⟩ := ih hfirst
    cases piece with
    | text chars => exact ⟨_, .text hnodes⟩
    | tag t => cases hpiece

theorem Piece.eq_of_tag? {piece : Piece} {t : Tag} (h : piece.tag? = some t) : piece = .tag t := by
  cases piece with
  | text chars => cases h
  | tag u => rw [Option.some.inj h]

theorem exists_builds_of_wellNested {tags : List Tag} (h : WellNested tags) :
    ∀ pieces : List Piece, pieces.filterMap Piece.tag? = tags → ∃ nodes, Builds pieces nodes := by
  induction h with
  | nil =>
    intro pieces htags
    have hbuilds := exists_builds_append ⟨[], .nil⟩ pieces (List.filterMap_eq_nil_iff.mp htags)
    rwa [List.append_nil] at hbuilds
  | field _ ih =>
    intro pieces htags
    obtain ⟨first, piece, rest, rfl, hfirst, hpiece, hrest⟩ := List.filterMap_eq_cons_iff.mp htags
    obtain rfl := Piece.eq_of_tag? hpiece
    obtain ⟨nodes, hnodes⟩ := ih rest hrest
    exact exists_builds_append ⟨_, .field hnodes⟩ first hfirst
  | @repeated path _ _ _ _ ihinside ihrest =>
    intro pieces htags
    obtain ⟨first, opening, behind, rfl, hfirst, hopening, hbehind⟩ :=
      List.filterMap_eq_cons_iff.mp htags
    obtain rfl := Piece.eq_of_tag? hopening
    obtain ⟨inside, ending, rfl, hinside, hending⟩ := List.filterMap_eq_append_iff.mp hbehind
    -- texts in front of the closing tag belong to the inside of the section
    obtain ⟨texts, closing, rest, rfl, htexts, hclosing, hrest⟩ :=
      List.filterMap_eq_cons_iff.mp hending
    obtain rfl := Piece.eq_of_tag? hclosing
    have hwhole : (inside ++ texts).filterMap Piece.tag? = inside.filterMap Piece.tag? := by
      rw [List.filterMap_append, List.filterMap_eq_nil_iff.mpr htexts, List.append_nil]
    obtain ⟨body, hbody⟩ := ihinside (inside ++ texts) (hwhole.trans hinside)
    obtain ⟨nodes, hnodes⟩ := ihrest rest hrest
    have hsection : Builds (sectionPieces path (inside ++ texts) ++ rest)
        (.repeated path body :: nodes) := .repeated hbody hnodes
    have hpieces : sectionPieces path (inside ++ texts) ++ rest =
        .tag ⟨.openSection, path⟩ :: (inside ++ (texts ++ .tag ⟨.closeSection, path⟩ :: rest)) := by
      simp [sectionPieces]
    rw [hpieces] at hsection
    exact exists_builds_append ⟨_, hsection⟩ first hfirst

/-- **Pieces make up nodes exactly when their tags are well nested.** -/
theorem exists_builds_iff (pieces : List Piece) :
    (∃ nodes, Builds pieces nodes) ↔ WellNested (pieces.filterMap Piece.tag?) := by
  constructor
  · intro h
    obtain ⟨nodes, hnodes⟩ := h
    exact hnodes.wellNested
  · intro h
    exact exists_builds_of_wellNested h pieces rfl

/-! ## Leaving out the white space inside tags -/

/-- What is in front of every tag is in the text as it is in the tidied one. -/
theorem Search.prefix_of_tidy {front : List Char} (hfront : '{' ∉ front) :
    ∀ {cs rest : List Char} {items : List Item}, Search cs items →
      items.flatMap Item.tidy = front ++ rest → ∃ more, cs = front ++ more := by
  induction front with
  | nil =>
    intro cs _ _ _ _
    exact ⟨cs, rfl⟩
  | cons c front ih =>
    intro cs rest items h htidy
    rw [List.mem_cons, not_or] at hfront
    cases h with
    | ends => cases htidy
    | tag _ _ _ =>
      -- a tag would put its brace there
      rw [List.flatMap_cons, Item.tidy, Tag.chars] at htidy
      exact absurd (List.cons.inj htidy).1 hfront.1
    | char _ hrest =>
      rw [List.flatMap_cons, Item.tidy, List.singleton_append] at htidy
      obtain ⟨rfl, hbehind⟩ := List.cons.inj htidy
      obtain ⟨more, hmore⟩ := ih hfront.2 hrest hbehind
      exact ⟨more, by rw [hmore, List.cons_append]⟩

/-- No tag starts in a text and ends in a tag behind it. -/
theorem not_tagAhead_tidy {c : Char} {cs : List Char} {items : List Item}
    (hnone : ¬ TagAhead (c :: cs)) (h : Search cs items) :
    ¬ TagAhead (c :: items.flatMap Item.tidy) := by
  intro hahead
  obtain ⟨_, t, rest, ⟨hpath, lead, gap, trail, hlead, hgap, htrail, rfl⟩, htidy⟩ := hahead
  have hbrace := brace_notMem_inside hpath hlead hgap htrail
  obtain ⟨rfl, hsecond⟩ := List.cons.inj htidy
  apply hnone
  cases h with
  | ends => cases hsecond
  | @tag _ _ _ u _ _ _ _ =>
    -- the first brace of the tag is the second here, so the next one would be inside
    exfalso
    rw [List.flatMap_cons, Item.tidy, Tag.chars] at hsecond
    have hinside := (List.cons.inj hsecond).2
    obtain ⟨first, more, hfirst⟩ : ∃ first more, t.inside lead gap trail = first :: more :=
      List.exists_cons_of_ne_nil (by simp [Tag.inside])
    rw [hfirst] at hinside hbrace
    exact hbrace (List.mem_cons.mpr (.inl (List.cons.inj hinside).1))
  | char _ hrest =>
    rw [List.flatMap_cons, Item.tidy, List.singleton_append] at hsecond
    obtain ⟨rfl, hinside⟩ := List.cons.inj hsecond
    obtain ⟨more, hmore⟩ := hrest.prefix_of_tidy hbrace hinside
    exact ⟨_, t, more, ⟨hpath, lead, gap, trail, hlead, hgap, htrail, rfl⟩, by rw [hmore]; rfl⟩

/-- A tag without white space inside in place of one that may have some. -/
def Item.tidied : Item → Item
  | .char c => .char c
  | .tag _ t => .tag t.chars t

/-- **Without the white space inside its tags a text has the same tags.** -/
theorem Search.tidy {cs : List Char} {items : List Item} (h : Search cs items) :
    Search (items.flatMap Item.tidy) (items.map Item.tidied) := by
  induction h with
  | ends => exact .ends
  | tag _ htag _ ih => exact .tag rfl htag.canonical ih
  | char hnone hrest ih => exact .char (not_tagAhead_tidy hnone hrest) ih

theorem piecesOf_tidied (items : List Item) :
    piecesOf (items.map Item.tidied) = piecesOf items := by
  induction items with
  | nil => rfl
  | cons item items ih =>
    cases item with
    | char c => rw [List.map_cons, Item.tidied, piecesOf, piecesOf, ih]
    | tag chars t => rw [List.map_cons, Item.tidied, piecesOf, piecesOf, ih]

/-- **A template loses nothing but the white space inside its tags.** A text is what a search
for tags finds, and only one search does. It has nodes exactly when its tags are well nested;
they print as the text without the white space inside the tags, and that text has the same
nodes again. -/
theorem parseNodes_lossless (source : String) :
    ∃ items, Search source.toList items ∧
      (∀ others, Search source.toList others → others = items) ∧
      items.flatMap Item.chars = source.toList ∧
      ((∃ nodes, parseNodes source.toList = .ok nodes) ↔ WellNested (items.filterMap Item.tag?)) ∧
      ∀ nodes, parseNodes source.toList = .ok nodes →
        printed nodes = items.flatMap Item.tidy ∧ parseNodes (printed nodes) = .ok nodes := by
  obtain ⟨items, hsearch⟩ := Search.exists_of_length _ source.toList (Nat.le_refl _)
  have hpieces : pieces source = piecesOf items := piecesFrom_eq hsearch
  refine ⟨items, hsearch, hsearch.unique, hsearch.flatMap_chars, ?_, ?_⟩
  · rw [← filterMap_piecesOf, ← hpieces, ← exists_builds_iff]
    exact exists_congr (parseNodes_eq_ok_iff source)
  · intro nodes hnodes
    have hbuilds := (parseNodes_eq_ok_iff source nodes).mp hnodes
    have hprinted : printed nodes = items.flatMap Item.tidy := by
      rw [hbuilds.printed_eq, hpieces, flatMap_piecesOf]
    -- the printed text is the tidied one, and that has the same tags
    have hagain : piecesFrom 0 (printed nodes) = pieces source := by
      rw [hprinted, piecesFrom_eq hsearch.tidy, piecesOf_tidied, hpieces]
    refine ⟨hprinted, ?_⟩
    rw [parseNodes, hagain]
    exact hnodes

/-- A brace in front of a tag is text, and so are braces with no path inside. -/
example :
    (parseNodes "\x7b\x7b\x7b # a\x7d\x7d\x7b\x7b\x7d\x7d\x7b\x7b/a \x7d\x7d".toList).map printed =
      .ok "\x7b\x7b\x7b#a\x7d\x7d\x7b\x7b\x7d\x7d\x7b\x7b/a\x7d\x7d".toList := by
  decide +kernel

end Readability.Render
